import QuorumFinality.Wire.Decoder

/-!
# Counts of variable width

A count takes one, three, five or nine bytes: small ones stand for themselves, larger ones follow
a marker that gives their width. A count has to be written in the narrowest form that holds it,
so no two byte strings stand for the same count.

## Main definitions

* `CompactSize.encode`, `CompactSize.decode`: the wire form and how it is read.
* `CompactSize.size`: the width of the wire form.
-/

namespace QuorumFinality

namespace CompactSize

/-- The bytes of a count, in the narrowest form that holds it. -/
def encode (n : UInt64) : Bytes :=
  if n.toNat < 0xFD then littleEndian 1 n.toNat
  else if n.toNat < 0x10000 then 0xFD :: littleEndian 2 n.toNat
  else if n.toNat < 0x100000000 then 0xFE :: littleEndian 4 n.toNat
  else 0xFF :: littleEndian 8 n.toNat

/-- The number of bytes that a count takes. -/
def size (n : UInt64) : Nat :=
  if n.toNat < 0xFD then 1
  else if n.toNat < 0x10000 then 3
  else if n.toNat < 0x100000000 then 5
  else 9

/-- A count of `width` bytes that no narrower form holds: it is at least `least`. -/
def decodeWide (width least : Nat) : Decoder UInt64 := do
  let n ← Decoder.nat width
  Decoder.require (least ≤ n) .nonMinimalSize
  return UInt64.ofNat n

/-- Reads a count and refuses a form wider than needed. -/
def decode : Decoder UInt64 := do
  let marker ← Decoder.nat 1
  if marker = 0xFF then decodeWide 8 0x100000000
  else if marker = 0xFE then decodeWide 4 0x10000
  else if marker = 0xFD then decodeWide 2 0xFD
  else return UInt64.ofNat marker

theorem length_encode (n : UInt64) : (encode n).length = size n := by
  unfold encode size
  repeat' split
  all_goals simp

end CompactSize

end QuorumFinality
