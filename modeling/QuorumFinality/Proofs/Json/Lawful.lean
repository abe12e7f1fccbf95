import QuorumFinality.Json.Codec
import QuorumFinality.Proofs.Json.Text

/-!
# Values are read back from their JSON form

A structure is read back from the object of its fields because every field is found there by its
name, a choice because its name leads to it, and an optional value because `null` stands for nothing
else. What remains is that a type does not use `null` itself.

## Main definitions

* `LawfulJson` — values are read back from their JSON form
* `NeverNull` — no value has the JSON form `null`

## Main results

* `JsonValue.fields?_ofMembers` — the fields of a structure are found by their names
* `JsonCodec.read?_write_of_lawful` — a value is read back from its JSON text
-/

namespace QuorumFinality

open JsonCodec JsonValue

/-- A type whose values are read back from their JSON form. -/
class LawfulJson (α : Type) [JsonCodec α] : Prop where
  /-- The JSON form of a value stands for that value. -/
  ofJson?_toJson (a : α) : ofJson? (toJson a) = some a

/-- A type none of whose values has the JSON form `null`. -/
class NeverNull (α : Type) [JsonCodec α] : Prop where
  /-- The JSON form of a value is not `null`. -/
  toJson_ne_null (a : α) : (toJson a : JsonValue) ≠ .null

export LawfulJson (ofJson?_toJson)
export NeverNull (toJson_ne_null)

attribute [simp] ofJson?_toJson

namespace JsonCodec

variable {α : Type} [JsonCodec α] [LawfulJson α]

/-- A field that is there is read back. -/
@[simp]
theorem field?_some_toJson (a : α) : field? (some (toJson a)) = some a :=
  ofJson?_toJson a

/-- **A value is read back from its JSON text.** -/
theorem read?_write_of_lawful (a : α) : read? (write a) = some a := by
  rw [read?, write, parse?_render, Option.bind_some, ofJson?_toJson]

end JsonCodec

namespace JsonValue

/-! ### Structures -/

section

variable {key : String} {value : JsonValue} {members : List (String × JsonValue)}

/-- The value of a key in front stands before the further values of the key. -/
theorem valuesOf_cons :
    valuesOf key ((some key, value) :: members.map fun m => (some m.1, m.2)) =
      value :: valuesOf key (members.map fun m => (some m.1, m.2)) := by
  simp [valuesOf]

theorem valuesOf_eq_nil (h : key ∉ members.map Prod.fst) :
    valuesOf key (members.map fun m => (some m.1, m.2)) = [] := by
  rw [valuesOf, List.map_eq_nil_iff, List.filter_eq_nil_iff, List.forall_mem_map]
  intro m hm
  have hne : ¬m.1 = key := fun he => h (List.mem_map.mpr ⟨m, hm, he⟩)
  simp [hne]

/-- A key that no other member has is found with its value. -/
theorem valuesOf_eq_singleton (h : (members.map Prod.fst).Nodup) (hm : (key, value) ∈ members) :
    valuesOf key (members.map fun m => (some m.1, m.2)) = [value] := by
  induction members with
  | nil => exact nomatch hm
  | cons m members ih =>
    rw [List.map_cons, List.nodup_cons] at h
    rcases List.mem_cons.mp hm with rfl | hm
    · rw [List.map_cons, valuesOf_cons, valuesOf_eq_nil h.1]
    · have hne : ¬m.1 = key := fun he => h.1 (List.mem_map.mpr ⟨_, hm, he.symm⟩)
      rw [← ih h.2 hm]
      simp [valuesOf, hne]

end

theorem mapM_eq_some_map {α β : Type} {f : α → Option β} {g : α → β} {items : List α}
    (h : ∀ a ∈ items, f a = some (g a)) : items.mapM f = some (items.map g) := by
  induction items with
  | nil => rfl
  | cons a items ih =>
    obtain ⟨ha, h⟩ := List.forall_mem_cons.mp h
    rw [List.mapM_cons, ha, ih h]
    rfl

/-- **The fields of a structure are found by their names,** if no two of these are the same. -/
theorem fields?_ofMembers {members : List (String × JsonValue)}
    (h : (members.map Prod.fst).Nodup) :
    (ofMembers members).fields? (members.map Prod.fst) =
      some (members.map fun m => some m.2) := by
  have hkeys : (members.map fun m => (some m.1, m.2)).all (fun m => m.1.isSome) = true := by
    simp
  have hsingle : ∀ m ∈ members, single? m.1 (members.map fun m => (some m.1, m.2)) =
      some (some m.2) := fun m hm => by
    rw [single?, valuesOf_eq_singleton h hm]
  rw [ofMembers, fields?, if_pos hkeys, List.mapM_map]
  exact mapM_eq_some_map hsingle

/-- What is read from the fields of a structure. -/
theorem bind_fields?_ofMembers {α : Type} {members : List (String × JsonValue)}
    (h : (members.map Prod.fst).Nodup) (f : List (Option JsonValue) → Option α) :
    ((ofMembers members).fields? (members.map Prod.fst)).bind f =
      f (members.map fun m => some m.2) := by
  rw [fields?_ofMembers h, Option.bind_some]

/-! ### Choices -/

/-- What is read from a choice with content. -/
theorem bind_variant?_ofVariant {α : Type} (name : String) (content : JsonValue)
    (f : String × Option JsonValue → Option α) :
    (ofVariant name content).variant?.bind f = f (name, some content) :=
  rfl

end JsonValue

/-! ### Numbers, truth values and text -/

theorem JsonValue.natBelow?_int {limit n : Nat} (h : n < limit) :
    natBelow? limit (.int n) = some n := by
  simp [natBelow?, h]

instance : LawfulJson UInt8 where
  ofJson?_toJson n := by simp [toJson, ofJson?, natBelow?_int n.toNat_lt]

instance : LawfulJson UInt16 where
  ofJson?_toJson n := by simp [toJson, ofJson?, natBelow?_int n.toNat_lt]

instance : LawfulJson UInt32 where
  ofJson?_toJson n := by simp [toJson, ofJson?, natBelow?_int n.toNat_lt]

instance : LawfulJson UInt64 where
  ofJson?_toJson n := by simp [toJson, ofJson?, natBelow?_int n.toNat_lt]

instance : LawfulJson Int16 where
  ofJson?_toJson n :=
    (if_pos ⟨n.minValue_le_toInt, n.toInt_le⟩).trans (congrArg some n.ofInt_toInt)

instance : LawfulJson Bool where
  ofJson?_toJson _ := rfl

instance : LawfulJson String where
  ofJson?_toJson _ := rfl

instance : NeverNull Int16 where
  toJson_ne_null _ := nofun

instance : NeverNull UInt32 where
  toJson_ne_null _ := nofun

instance : NeverNull UInt64 where
  toJson_ne_null _ := nofun

/-! ### Optional values, lists and bytes -/

section

variable {α : Type} [JsonCodec α] [LawfulJson α]

omit [LawfulJson α] in
/-- What is not `null` stands for a value that is there. -/
theorem ofJson?_option {v : JsonValue} (h : v ≠ .null) :
    (ofJson? v : Option (Option α)) = (ofJson? v).map some := by
  cases v with
  | null => exact absurd rfl h
  | _ => rfl

instance [NeverNull α] : LawfulJson (Option α) where
  ofJson?_toJson
    | none => rfl
    | some a => (ofJson?_option (toJson_ne_null a)).trans (by rw [ofJson?_toJson, Option.map_some])

instance : LawfulJson (List α) where
  ofJson?_toJson items := by
    change (items.map toJson).mapM ofJson? = some items
    rw [List.mapM_map]
    exact (mapM_eq_some_map (g := id) fun a _ => ofJson?_toJson a).trans
      (congrArg some (List.map_id items))

end

theorem FixedBytes.ofJsonArray?_toJson {n : Nat} (a : FixedBytes n) :
    FixedBytes.ofJsonArray? n (toJson a.toList) = some a := by
  rw [ofJsonArray?, ofJson?_toJson, Option.bind_some, ofList?_toList]

instance : LawfulJson (FixedBytes 20) where
  ofJson?_toJson := FixedBytes.ofJsonArray?_toJson

instance : LawfulJson (FixedBytes 32) where
  ofJson?_toJson := FixedBytes.ofJsonArray?_toJson

end QuorumFinality
