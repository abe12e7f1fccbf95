import QuorumFinality.Wire.CompactSize

/-!
# Wire forms

A type with a wire form says how a value is written, how one is read from the front of a byte
string, and how many bytes it takes. Numbers are little-endian, hashes and keys are their bytes,
and a list is its count followed by its elements.

A count is not believed: reading a list reserves room for as many elements as it claims, so the
claim is refused when they would take more than four million bytes in memory. What an element
takes there is its `weight`, a number fixed per type and unrelated to its wire form.

## Main definitions

* `Wire`: a type whose values always have a wire form.
* `ListElement`: a type that may stand in a list, with its weight.
* `Decoder.bytes`, `Decoder.list`: byte strings and lists under the memory limit.
-/

namespace QuorumFinality

/-- A type whose values have a wire form. -/
class Wire (α : Type) where
  /-- The bytes of a value. -/
  encode : α → Bytes
  /-- Reads a value from the front of a byte string. -/
  decode : Decoder α
  /-- The number of bytes of a value, added up without writing it. -/
  size : α → Nat

/-- A type whose values may be the elements of a list. -/
class ListElement (α : Type) extends Wire α where
  /-- The bytes of memory that a reader reserves for one element. -/
  weight : Nat

/-- The bytes of memory that a reader reserves for one list at most. -/
def maxListMemory : Nat := 4000000

/-! ### Numbers -/

instance : Wire UInt8 where
  encode n := littleEndian 1 n.toNat
  decode := UInt8.ofNat <$> Decoder.nat 1
  size _ := 1

instance : Wire UInt16 where
  encode n := littleEndian 2 n.toNat
  decode := UInt16.ofNat <$> Decoder.nat 2
  size _ := 2

instance : Wire UInt32 where
  encode n := littleEndian 4 n.toNat
  decode := UInt32.ofNat <$> Decoder.nat 4
  size _ := 4

instance : Wire UInt64 where
  encode n := littleEndian 8 n.toNat
  decode := UInt64.ofNat <$> Decoder.nat 8
  size _ := 8

/-- A signed number has the bytes of the unsigned one that it equals modulo `2 ^ 16`. -/
instance : Wire Int16 where
  encode n := Wire.encode n.toUInt16
  decode := UInt16.toInt16 <$> Wire.decode
  size _ := 2

/-- A signed number has the bytes of the unsigned one that it equals modulo `2 ^ 32`. -/
instance : Wire Int32 where
  encode n := Wire.encode n.toUInt32
  decode := UInt32.toInt32 <$> Wire.decode
  size _ := 4

/-- A signed number has the bytes of the unsigned one that it equals modulo `2 ^ 64`. -/
instance : Wire Int64 where
  encode n := Wire.encode n.toUInt64
  decode := UInt64.toInt64 <$> Wire.decode
  size _ := 8

/-- A flag is written as zero or one, and any byte but zero is read as set. -/
instance : Wire Bool where
  encode b := [if b then 1 else 0]
  decode := do
    let byte : UInt8 ← Wire.decode
    return byte != 0
  size _ := 1

/-! ### Fixed byte strings and hashes -/

instance {n : Nat} : Wire (FixedBytes n) where
  encode a := a.toList
  decode := Decoder.fixed n
  size _ := n

instance {role : HashRole} : Wire (Hash role) where
  encode h := Wire.encode h.bytes
  decode := Hash.mk <$> Wire.decode
  size h := Wire.size h.bytes

/-! ### Byte strings and lists -/

/-- The next `n` bytes, unless they would take more than the memory limit. -/
def Decoder.bytes (n : Nat) : Decoder Bytes := do
  require (n ≤ maxListMemory) (.oversized n maxListMemory)
  take n

/-- A count and so many values of the given weight. -/
def Decoder.list {α : Type} (weight : Nat) (d : Decoder α) : Decoder (List α) := do
  let count ← CompactSize.decode
  let limit := maxListMemory / weight
  require (count.toNat ≤ limit) (.oversized count.toNat limit)
  d.times count.toNat

/-- A byte string is its length followed by its bytes. -/
instance : Wire Bytes where
  encode bytes := CompactSize.encode (UInt64.ofNat bytes.length) ++ bytes
  decode := do
    let count ← CompactSize.decode
    Decoder.bytes count.toNat
  size bytes := CompactSize.size (UInt64.ofNat bytes.length) + bytes.length

/-- A list is its length followed by its elements. -/
instance {α : Type} [ListElement α] : Wire (List α) where
  encode values := CompactSize.encode (UInt64.ofNat values.length) ++ values.flatMap Wire.encode
  decode := Decoder.list (ListElement.weight α) Wire.decode
  size values := values.foldl (fun size value => size + Wire.size value)
    (CompactSize.size (UInt64.ofNat values.length))

instance : ListElement UInt16 where
  weight := 2

instance : ListElement (FixedBytes 32) where
  weight := 32

instance {role : HashRole} : ListElement (Hash role) where
  weight := 32

instance : ListElement Bytes where
  weight := 24

end QuorumFinality
