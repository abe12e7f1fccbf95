import QuorumFinality.Proofs.Wire.Decoder
import QuorumFinality.Wire.Basic

/-!
# One byte string for each value

A wire form is canonical if a value is read from the bytes that are written for it and from no
others. Not all values need be readable: a reader does not reserve room for too long a list, and it
expects the parts of a value to fit together.

A size, on the other hand, is that of the bytes for every value, readable or not.

## Main definitions

* `CanonicalWire` — readable values, and that they are read from what is written for them
* `SizedWire` — the size is the number of bytes that are written

## Main results

* `CompactSize.reads_decode` — counts are canonical
* `Decoder.Reads.list` — lists are read from their count and the codes of their elements
* `eq_of_encode_list_eq` — lists are told apart by their bytes
-/

namespace QuorumFinality

open Decoder

/-- A type of values that are read from the bytes that are written for them, and from no others. -/
class CanonicalWire (α : Type) [Wire α] where
  /-- The values that can be read. -/
  Readable : α → Prop
  /-- A value is read from the bytes that are written for it. -/
  reads_decode : (Wire.decode : Decoder α).Reads fun a code => Readable a ∧ code = Wire.encode a

export CanonicalWire (Readable reads_decode)

/-- A type of values whose size is the number of bytes that are written for them. -/
class SizedWire (α : Type) [Wire α] : Prop where
  /-- The size is the number of bytes. -/
  size_eq : ∀ a : α, Wire.size a = (Wire.encode a).length

export SizedWire (size_eq)

@[simp] theorem length_encode {α : Type} [Wire α] [SizedWire α] (a : α) :
    (Wire.encode a).length = Wire.size a :=
  (size_eq a).symm

/-- Readable values are told apart by their bytes. -/
theorem eq_of_encode_eq {α : Type} [Wire α] [CanonicalWire α] {a b : α} (ha : Readable a)
    (hb : Readable b) (h : Wire.encode a = Wire.encode b) : a = b := by
  have hread : (Wire.decode : Decoder α).all (Wire.encode a) = .ok a :=
    reads_decode.all_eq_ok_iff.mpr ⟨ha, rfl⟩
  have hread' : (Wire.decode : Decoder α).all (Wire.encode a) = .ok b :=
    reads_decode.all_eq_ok_iff.mpr ⟨hb, h⟩
  rw [hread] at hread'
  exact Except.ok.inj hread'

/-- Whatever follows these. -/
theorem encode_append_inj {α : Type} [Wire α] [CanonicalWire α] {a b : α} {rest rest' : Bytes}
    (ha : Readable a) (hb : Readable b) (h : Wire.encode a ++ rest = Wire.encode b ++ rest') :
    a = b ∧ rest = rest' :=
  reads_decode.append_inj ⟨ha, rfl⟩ ⟨hb, rfl⟩ h

/-! ### Numbers -/

section

variable {α : Type} {ofNat : Nat → α} {toNat : α → Nat} {width : Nat}

/-- Numbers of a fixed width are read from their bytes, whatever the type that they have. -/
theorem Decoder.reads_number (hlt : ∀ a, toNat a < 256 ^ width)
    (hto : ∀ n < 256 ^ width, toNat (ofNat n) = n) (hof : ∀ a, ofNat (toNat a) = a) :
    (ofNat <$> Decoder.nat width).Reads fun a code =>
      True ∧ code = littleEndian width (toNat a) := by
  refine ((reads_nat width).map ofNat).congr fun a code => ?_
  constructor
  · rintro ⟨n, ⟨hn, rfl⟩, rfl⟩
    exact ⟨trivial, by rw [hto n hn]⟩
  · rintro ⟨-, rfl⟩
    exact ⟨toNat a, ⟨hlt a, rfl⟩, hof a⟩

end

instance : CanonicalWire UInt8 where
  Readable _ := True
  reads_decode := reads_number UInt8.toNat_lt (fun _ h => UInt8.toNat_ofNat_of_lt' h)
    fun _ => UInt8.ofNat_toNat

instance : SizedWire UInt8 := ⟨fun n => (length_littleEndian 1 n.toNat).symm⟩

@[simp] theorem encode_byte (byte : UInt8) : Wire.encode byte = [byte] :=
  congrArg (fun byte => [byte]) (UInt8.ofNat_toNat (x := byte))

instance : CanonicalWire UInt16 where
  Readable _ := True
  reads_decode := reads_number UInt16.toNat_lt (fun _ h => UInt16.toNat_ofNat_of_lt' h)
    fun _ => UInt16.ofNat_toNat

instance : SizedWire UInt16 := ⟨fun n => (length_littleEndian 2 n.toNat).symm⟩

instance : CanonicalWire UInt32 where
  Readable _ := True
  reads_decode := reads_number UInt32.toNat_lt (fun _ h => UInt32.toNat_ofNat_of_lt' h)
    fun _ => UInt32.ofNat_toNat

instance : SizedWire UInt32 := ⟨fun n => (length_littleEndian 4 n.toNat).symm⟩

instance : CanonicalWire UInt64 where
  Readable _ := True
  reads_decode := reads_number UInt64.toNat_lt (fun _ h => UInt64.toNat_ofNat_of_lt' h)
    fun _ => UInt64.ofNat_toNat

instance : SizedWire UInt64 := ⟨fun n => (length_littleEndian 8 n.toNat).symm⟩

instance : CanonicalWire Int16 where
  Readable _ := True
  reads_decode := by
    refine ((reads_decode (α := UInt16)).map UInt16.toInt16).congr fun n code => ?_
    constructor
    · rintro ⟨m, ⟨-, rfl⟩, rfl⟩
      exact ⟨trivial, rfl⟩
    · rintro ⟨-, rfl⟩
      exact ⟨n.toUInt16, ⟨trivial, rfl⟩, rfl⟩

instance : SizedWire Int16 := ⟨fun n => size_eq n.toUInt16⟩

instance : SizedWire Bool := ⟨fun _ => rfl⟩

/-! ### Counts -/

namespace CompactSize

theorem size_le (n : UInt64) : size n ≤ 9 := by
  unfold size
  repeat' split
  all_goals omega

theorem reads_decodeWide {width least : Nat} (hwidth : 256 ^ width ≤ 2 ^ 64) :
    (decodeWide width least).Reads fun n code =>
      least ≤ n.toNat ∧ n.toNat < 256 ^ width ∧ code = littleEndian width n.toNat := by
  refine ((reads_nat width).bind fun n => (reads_require _ _).bind fun _ =>
    Reads.pure (UInt64.ofNat n)).congr fun n code => ?_
  constructor
  · rintro ⟨m, _, ⟨hlt, rfl⟩, _, ⟨⟨⟩, _, ⟨hleast, rfl⟩, _, ⟨rfl, rfl⟩, rfl⟩, rfl⟩
    have hm : (UInt64.ofNat m).toNat = m := UInt64.toNat_ofNat_of_lt' (hlt.trans_le hwidth)
    rw [hm, List.append_nil, List.append_nil]
    exact ⟨hleast, hlt, rfl⟩
  · rintro ⟨hleast, hlt, rfl⟩
    exact ⟨n.toNat, _, ⟨hlt, rfl⟩, [], ⟨(), [], ⟨hleast, rfl⟩, [], ⟨UInt64.ofNat_toNat, rfl⟩, rfl⟩,
      (List.append_nil _).symm⟩

/-- **Counts are canonical:** a count is read from the narrowest form that holds it. -/
protected theorem reads_decode : decode.Reads fun n code => code = encode n := by
  refine ((reads_nat 1).bind fun marker => (reads_decodeWide (by decide)).ite
    ((reads_decodeWide (by decide)).ite ((reads_decodeWide (by decide)).ite
      (Reads.pure (UInt64.ofNat marker))))).congr fun n code => ?_
  constructor
  · rintro ⟨marker, _, ⟨hlt, rfl⟩, rest, hrest, rfl⟩
    -- a wide form holds no count for which a narrower one would do
    obtain ⟨rfl, hleast, -, rfl⟩ | ⟨h9, ⟨rfl, hleast, hmost, rfl⟩ | ⟨h5, ⟨rfl, hleast, hmost, rfl⟩ |
      ⟨h3, rfl, rfl⟩⟩⟩ := hrest
    · rw [encode, if_neg (by omega), if_neg (by omega), if_neg (by omega)]
      rfl
    · rw [encode, if_neg (by omega), if_neg (by omega), if_pos (by omega)]
      rfl
    · rw [encode, if_neg (by omega), if_pos (by omega)]
      rfl
    · have hn : (UInt64.ofNat marker).toNat = marker :=
        UInt64.toNat_ofNat_of_lt' (hlt.trans (by decide))
      rw [encode, hn, if_pos (by omega), List.append_nil]
  · rintro rfl
    unfold encode
    split
    · exact ⟨n.toNat, _, ⟨by omega, rfl⟩, [], .inr ⟨by omega, .inr ⟨by omega, .inr ⟨by omega,
        UInt64.ofNat_toNat, rfl⟩⟩⟩, (List.append_nil _).symm⟩
    split
    · exact ⟨0xFD, [0xFD], ⟨by decide, rfl⟩, littleEndian 2 n.toNat, .inr ⟨by decide,
        .inr ⟨by decide, .inl ⟨rfl, by omega, by omega, rfl⟩⟩⟩, rfl⟩
    split
    · exact ⟨0xFE, [0xFE], ⟨by decide, rfl⟩, littleEndian 4 n.toNat, .inr ⟨by decide,
        .inl ⟨rfl, by omega, by omega, rfl⟩⟩, rfl⟩
    · exact ⟨0xFF, [0xFF], ⟨by decide, rfl⟩, littleEndian 8 n.toNat,
        .inl ⟨rfl, by omega, n.toNat_lt, rfl⟩, rfl⟩

end CompactSize

/-! ### Fixed byte strings and hashes -/

instance {n : Nat} : CanonicalWire (FixedBytes n) where
  Readable _ := True
  reads_decode := (reads_fixed n).congr fun _ _ => (true_and _).to_iff.symm

instance {n : Nat} : SizedWire (FixedBytes n) := ⟨fun a => a.length_toList.symm⟩

instance {role : HashRole} : CanonicalWire (Hash role) where
  Readable _ := True
  reads_decode := by
    refine ((reads_decode (α := FixedBytes 32)).map Hash.mk).congr fun h code => ?_
    constructor
    · rintro ⟨bytes, hcode, rfl⟩
      exact hcode
    · exact fun hcode => ⟨h.bytes, hcode, rfl⟩

instance {role : HashRole} : SizedWire (Hash role) := ⟨fun h => size_eq h.bytes⟩

/-! ### Byte strings and lists -/

/-- Bytes are read as many as are asked for, if that is not too many. -/
theorem Decoder.reads_bytes (n : Nat) : (Decoder.bytes n).Reads fun bytes code =>
    (n ≤ maxListMemory ∧ bytes.length = n) ∧ code = bytes := by
  refine ((reads_require _ _).bind fun _ => reads_take n).congr fun bytes code => ?_
  constructor
  · rintro ⟨⟨⟩, _, ⟨hle, rfl⟩, _, ⟨hlength, rfl⟩, rfl⟩
    exact ⟨⟨hle, hlength⟩, rfl⟩
  · rintro ⟨⟨hle, hlength⟩, rfl⟩
    exact ⟨(), [], ⟨hle, rfl⟩, code, ⟨hlength, rfl⟩, rfl⟩

/-- A length that is small enough to be read fits into a count. -/
theorem toNat_ofNat_of_le_maxListMemory {n : Nat} (h : n ≤ maxListMemory) :
    (UInt64.ofNat n).toNat = n :=
  UInt64.toNat_ofNat_of_lt' (h.trans_lt (by decide))

instance : CanonicalWire Bytes where
  Readable bytes := bytes.length ≤ maxListMemory
  reads_decode := by
    refine (CompactSize.reads_decode.bind fun count => reads_bytes count.toNat).congr
      fun bytes code => ?_
    constructor
    · rintro ⟨count, _, rfl, own, ⟨⟨hle, hlength⟩, rfl⟩, rfl⟩
      have hcount : UInt64.ofNat own.length = count := by rw [hlength, UInt64.ofNat_toNat]
      exact ⟨hlength.trans_le hle, congrArg (CompactSize.encode · ++ own) hcount.symm⟩
    · rintro ⟨hle, rfl⟩
      have hcount := toNat_ofNat_of_le_maxListMemory hle
      exact ⟨UInt64.ofNat bytes.length, _, rfl, bytes,
        ⟨⟨hcount.trans_le hle, hcount.symm⟩, rfl⟩, rfl⟩

instance : SizedWire Bytes where
  size_eq bytes := by
    change _ = (CompactSize.encode _ ++ bytes).length
    rw [List.length_append, CompactSize.length_encode]
    rfl

/-- **Lists** are read from their count and the codes of their elements, if the count is not too
large. -/
theorem Decoder.Reads.list {α : Type} {d : Decoder α} {IsCode : α → Bytes → Prop}
    (h : d.Reads IsCode) (weight : Nat) : (Decoder.list weight d).Reads fun values code =>
      values.length ≤ maxListMemory / weight ∧ ∃ codes, List.Forall₂ IsCode values codes ∧
        code = CompactSize.encode (UInt64.ofNat values.length) ++ codes.flatten := by
  refine (CompactSize.reads_decode.bind fun count => (reads_require _ _).bind fun _ =>
    h.times count.toNat).congr fun values code => ?_
  constructor
  · rintro ⟨count, _, rfl, _, ⟨⟨⟩, _, ⟨hle, rfl⟩, _, ⟨hlength, codes, hcodes, rfl⟩, rfl⟩, rfl⟩
    have hcount : UInt64.ofNat values.length = count := by rw [hlength, UInt64.ofNat_toNat]
    exact ⟨hlength.trans_le hle, codes, hcodes, by rw [hcount]; rfl⟩
  · rintro ⟨hle, codes, hcodes, rfl⟩
    have hcount := toNat_ofNat_of_le_maxListMemory (hle.trans (Nat.div_le_self _ _))
    exact ⟨UInt64.ofNat values.length, _, rfl, _, ⟨(), [], ⟨hcount.trans_le hle, rfl⟩,
      codes.flatten, ⟨hcount.symm, codes, hcodes, rfl⟩, rfl⟩, rfl⟩

theorem encode_list {α : Type} [ListElement α] (values : List α) : Wire.encode values =
    CompactSize.encode (UInt64.ofNat values.length) ++ (values.map Wire.encode).flatten :=
  rfl

/-- The codes of readable values in a row are what is written for them. -/
theorem forall₂_encode_iff {α : Type} [Wire α] [CanonicalWire α] {values : List α}
    {codes : List Bytes} :
    List.Forall₂ (fun a code => Readable a ∧ code = Wire.encode a) values codes ↔
      (∀ a ∈ values, Readable a) ∧ codes = values.map Wire.encode := by
  induction values generalizing codes with
  | nil => simp
  | cons a values ih =>
    cases codes with
    | nil => simp
    | cons code codes =>
      simp only [List.forall₂_cons, ih, List.forall_mem_cons, List.map_cons, List.cons.injEq]
      tauto

instance {α : Type} [ListElement α] [CanonicalWire α] : CanonicalWire (List α) where
  Readable values := values.length ≤ maxListMemory / ListElement.weight α ∧
    ∀ a ∈ values, Readable a
  reads_decode := by
    refine (reads_decode.list (ListElement.weight α)).congr fun values code => ?_
    simp only [forall₂_encode_iff, and_assoc, exists_eq_left, exists_and_left]
    rfl

/-- **Lists of any length** are told apart by their bytes, also those that are too long to be
read. -/
theorem eq_of_encode_list_eq {α : Type} [ListElement α] [CanonicalWire α]
    (hread : ∀ a : α, Readable a) (hne : ∀ a : α, Wire.encode a ≠ []) {values values' : List α}
    (h : Wire.encode values = Wire.encode values') : values = values' := by
  have hcodes : (values.map Wire.encode).flatten = (values'.map Wire.encode).flatten :=
    (CompactSize.reads_decode.append_inj rfl rfl h).2
  -- the counts, which agree modulo the width that they have, are not needed
  clear h
  induction values generalizing values' with
  | nil =>
    cases values' with
    | nil => rfl
    | cons b values' => exact absurd (List.append_eq_nil_iff.mp hcodes.symm).1 (hne b)
  | cons a values ih =>
    cases values' with
    | nil => exact absurd (List.append_eq_nil_iff.mp hcodes).1 (hne a)
    | cons b values' =>
      obtain ⟨rfl, hrest⟩ := encode_append_inj (hread a) (hread b) hcodes
      rw [ih hrest]

instance {α : Type} [ListElement α] [SizedWire α] : SizedWire (List α) where
  size_eq values := by
    have hsum (values : List α) (n : Nat) :
        values.foldl (fun size value => size + Wire.size value) n =
          n + (values.flatMap Wire.encode).length := by
      induction values generalizing n with
      | nil => rfl
      | cons value values ih => simp [ih, Nat.add_assoc]
    change _ = (CompactSize.encode _ ++ _).length
    rw [List.length_append, CompactSize.length_encode]
    exact hsum values _

end QuorumFinality
