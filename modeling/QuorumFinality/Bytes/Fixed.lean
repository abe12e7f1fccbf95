import QuorumFinality.Bytes

/-!
# Byte strings of a fixed length

Hashes, keys and signatures are byte strings whose length is part of their type. They are ordered
byte by byte from the front, which is the order of every map keyed by a hash.

## Main definitions

* `FixedBytes n`: a byte string of length `n`.
* `FixedBytes.get`: the byte at a place.
* `FixedBytes.ofList?`: the only way in from a byte string of unknown length.
-/

namespace QuorumFinality

/-- A byte string of exactly `n` bytes. -/
structure FixedBytes (n : Nat) where
  /-- The bytes from the first to the last. -/
  toList : Bytes
  /-- There are exactly `n` of them. -/
  length_toList : toList.length = n
  deriving DecidableEq

namespace FixedBytes

variable {n : Nat}

@[ext]
theorem ext {a b : FixedBytes n} (h : a.toList = b.toList) : a = b := by
  cases a
  cases b
  simp_all

/-- The byte at a place. -/
def get (a : FixedBytes n) (i : Fin n) : UInt8 :=
  a.toList.get (i.cast a.length_toList.symm)

theorem get_eq_of_toList_eq {a : FixedBytes n} (before : Bytes) {after : Bytes} {b : UInt8}
    {i : Fin n} (h : a.toList = before ++ b :: after) (hi : before.length = i) : a.get i = b :=
  List.getElem_of_append h hi

/-- The byte string `bs` as one of length `n`, when it has that length. -/
def ofList? (n : Nat) (bs : Bytes) : Option (FixedBytes n) :=
  if h : bs.length = n then some ⟨bs, h⟩ else none

theorem ofList?_toList (a : FixedBytes n) : ofList? n a.toList = some a :=
  dif_pos a.length_toList

/-- The byte string that repeats one byte. -/
def replicate (n : Nat) (b : UInt8) : FixedBytes n :=
  ⟨List.replicate n b, List.length_replicate⟩

/-- The byte string of zeros. -/
def zero (n : Nat) : FixedBytes n :=
  replicate n 0

/-- The same bytes in the opposite order. -/
def reverse (a : FixedBytes n) : FixedBytes n :=
  ⟨a.toList.reverse, by simp [a.length_toList]⟩

/-- Whether every byte is zero, as in an unset field. -/
def isZero (a : FixedBytes n) : Bool :=
  a.toList.all (· == 0)

/-- Byte strings are compared byte by byte from the front. -/
instance : Ord (FixedBytes n) where
  compare a b := compare a.toList b.toList

theorem compare_def (a b : FixedBytes n) : compare a b = compare a.toList b.toList :=
  rfl

instance : Std.TransOrd (FixedBytes n) where
  eq_swap {a b} := Std.OrientedOrd.eq_swap (a := a.toList) (b := b.toList)
  isLE_trans {a b c} := Std.TransOrd.isLE_trans (a := a.toList) (b := b.toList) (c := c.toList)

instance : Std.LawfulEqOrd (FixedBytes n) where
  eq_of_compare h := FixedBytes.ext (Std.LawfulEqOrd.eq_of_compare h)

@[simp]
theorem reverse_reverse (a : FixedBytes n) : a.reverse.reverse = a := by
  ext1
  simp [reverse]

end FixedBytes

end QuorumFinality
