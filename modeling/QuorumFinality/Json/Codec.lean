import QuorumFinality.Json.Parser
import QuorumFinality.Wire.Basic

/-!
# Types with a JSON form

A type with a JSON form says which value stands for one of its own and which one a value stands
for. The rules are the same everywhere.

* A structure is an object of its fields. It is also read from an array of them in order, and
  from an object that has further members; a field that is named twice is refused.
* An optional field may be absent or `null`; any other has to be there.
* A choice is its name, or an object with its name as the only key and its content as the value;
  one without content may also be written in the second way, with `null`.
* Byte strings are arrays of numbers, and a number has to be whole and in range.

## Main definitions

* `JsonCodec`: a type with a JSON form.
* `JsonCodec.write`, `JsonCodec.read?`: a value as JSON text and back.
* `JsonValue.fields?`, `JsonValue.unit?`, `JsonValue.variant?`: structures and choices.
-/

namespace QuorumFinality

/-- A type with a JSON form. -/
class JsonCodec (α : Type) where
  /-- The JSON value of a value. -/
  toJson : α → JsonValue
  /-- The value that a JSON value stands for. -/
  ofJson? : JsonValue → Option α
  /-- The value that an absent field stands for. -/
  absent? : Option α := none

namespace JsonCodec

variable {α : Type}

/-- The JSON text of a value. -/
def write [JsonCodec α] (a : α) : String :=
  (toJson a).render

/-- The value that a JSON text stands for. -/
def read? [JsonCodec α] (text : String) : Option α :=
  (JsonValue.parse? text).bind ofJson?

/-- The value of a field that may be absent. -/
def field? [JsonCodec α] : Option JsonValue → Option α
  | some v => ofJson? v
  | none => absent?

end JsonCodec

open JsonCodec

namespace JsonValue

/-! ### Structures -/

/-- The values of a key among the members of an object. -/
def valuesOf (key : String) (members : List (Option String × JsonValue)) : List JsonValue :=
  (members.filter fun m => m.1 = some key).map Prod.snd

/-- The value of a key that occurs once at most. -/
def single? (key : String) (members : List (Option String × JsonValue)) :
    Option (Option JsonValue) :=
  match valuesOf key members with
  | [] => some none
  | [v] => some (some v)
  | _ => none

/-- The values of the named fields of a structure, `none` standing for an absent one. -/
def fields? (names : List String) : JsonValue → Option (List (Option JsonValue))
  | array items => if items.length = names.length then some (items.map some) else none
  | object members =>
    if members.all fun m => m.1.isSome then names.mapM fun name => single? name members
    else none
  | _ => none

/-! ### Choices -/

/-- The name and the content of a choice; a name alone has no content. -/
def variant? : JsonValue → Option (String × Option JsonValue)
  | string (some name) => some (name, none)
  | object [(some name, content)] => some (name, some content)
  | _ => none

/-- The choice of a name among those without content. -/
def unit? {α : Type} (table : List (String × α)) (v : JsonValue) : Option α := do
  let (name, content) ← v.variant?
  match content with
  | none | some null => table.lookup name
  | some _ => none

/-- A choice with content. -/
def ofVariant (name : String) (content : JsonValue) : JsonValue :=
  ofMembers [(name, content)]

end JsonValue

/-! ### Numbers, truth values and text -/

/-- The number of a whole JSON number between zero and a limit. -/
def JsonValue.natBelow? (limit : Nat) : JsonValue → Option Nat
  | .int n => if 0 ≤ n ∧ n < limit then some n.toNat else none
  | _ => none

instance : JsonCodec UInt8 where
  toJson n := .int n.toNat
  ofJson? v := (v.natBelow? UInt8.size).map UInt8.ofNat

instance : JsonCodec UInt16 where
  toJson n := .int n.toNat
  ofJson? v := (v.natBelow? UInt16.size).map UInt16.ofNat

instance : JsonCodec UInt32 where
  toJson n := .int n.toNat
  ofJson? v := (v.natBelow? UInt32.size).map UInt32.ofNat

instance : JsonCodec UInt64 where
  toJson n := .int n.toNat
  ofJson? v := (v.natBelow? UInt64.size).map UInt64.ofNat

instance : JsonCodec Int16 where
  toJson n := .int n.toInt
  ofJson?
    | .int n =>
      if Int16.minValue.toInt ≤ n ∧ n ≤ Int16.maxValue.toInt then some (Int16.ofInt n) else none
    | _ => none

instance : JsonCodec Bool where
  toJson := .bool
  ofJson?
    | .bool b => some b
    | _ => none

instance : JsonCodec String where
  toJson := .ofString
  ofJson?
    | .string s => s
    | _ => none

/-! ### Optional values, lists and bytes -/

instance {α : Type} [JsonCodec α] : JsonCodec (Option α) where
  toJson
    | some a => toJson a
    | none => .null
  ofJson?
    | .null => some none
    | v => (ofJson? v).map some
  absent? := some none

instance {α : Type} [JsonCodec α] : JsonCodec (List α) where
  toJson items := .array (items.map toJson)
  ofJson?
    | .array items => items.mapM ofJson?
    | _ => none

/-- The bytes of an array of exactly `n` numbers. -/
def FixedBytes.ofJsonArray? (n : Nat) (v : JsonValue) : Option (FixedBytes n) :=
  (ofJson? v).bind (FixedBytes.ofList? n)

instance : JsonCodec (FixedBytes 20) where
  toJson a := toJson a.toList
  ofJson? := FixedBytes.ofJsonArray? 20

instance : JsonCodec (FixedBytes 32) where
  toJson a := toJson a.toList
  ofJson? := FixedBytes.ofJsonArray? 32

end QuorumFinality
