import QuorumFinality.Wire.Basic

/-!
# Writing values behind a byte string

An encoder puts a value behind the bytes that are there and reports how many it has added, or why
the value cannot be written. A value that is made of several is written one part behind the other,
and what the parts report is added up. The report of a part that is not made of others is a number
that stands beside its bytes; nothing ties the two together but that they are meant for each other.

## Main definitions

* `Encoder`: puts a value behind a byte string and reports a count. `++` is one behind the other.
* `Encoder.list`: a count and so many values.
* `Encoder.serialize`: the bytes of a value by themselves.
* `Writable`: a type whose values are written by an encoder.
-/

namespace QuorumFinality

/-- Puts a value behind a byte string and reports how many bytes it has added. -/
def Encoder : Type :=
  Bytes → Except EncodeError (Nat × Bytes)

namespace Encoder

variable {α : Type}

/-- Adds bytes and reports that they are `size` many. -/
def put (size : Nat) (code : Bytes) : Encoder := fun before =>
  .ok (size, before ++ code)

/-- Adds nothing. -/
def nothing : Encoder :=
  put 0 []

/-- Gives up. -/
def fail (error : EncodeError) : Encoder := fun _ =>
  .error error

/-- One value and another one behind it. -/
instance : Append Encoder where
  append w w' before := do
    let first ← w before
    let second ← w' first.2
    return (first.1 + second.1, second.2)

/-- A count, in the narrowest form that holds it. -/
def count (n : UInt64) : Encoder :=
  if n.toNat < 0xFD then put 1 (littleEndian 1 n.toNat)
  else if n.toNat < 0x10000 then put 3 (0xFD :: littleEndian 2 n.toNat)
  else if n.toNat < 0x100000000 then put 5 (0xFE :: littleEndian 4 n.toNat)
  else put 9 (0xFF :: littleEndian 8 n.toNat)

/-- A count and so many values. -/
def list (w : α → Encoder) (values : List α) : Encoder :=
  values.foldl (fun written value => written ++ w value) (count (UInt64.ofNat values.length))

/-- A byte string behind its length. -/
def sized (bytes : Bytes) : Encoder :=
  count (UInt64.ofNat bytes.length) ++ put bytes.length bytes

/-- A value that must not be absent. -/
def required (error : EncodeError) (w : α → Encoder) : Option α → Encoder
  | none => fail error
  | some a => w a

/-- The bytes of a value by themselves. -/
def serialize (w : Encoder) : Except EncodeError Bytes := do
  let written ← w []
  return written.2

/-- A value that may not be there to be written. -/
def after (value : Except EncodeError α) (w : α → Encoder) : Encoder := fun before => do
  w (← value) before

end Encoder

/-- A type whose values are written by an encoder. -/
class Writable (α : Type) where
  /-- Writes a value. -/
  write : α → Encoder

export Writable (write)

/-! ### Numbers, fixed byte strings and lists -/

instance : Writable UInt8 := ⟨fun n => .put 1 (littleEndian 1 n.toNat)⟩

instance : Writable UInt16 := ⟨fun n => .put 2 (littleEndian 2 n.toNat)⟩

instance : Writable UInt32 := ⟨fun n => .put 4 (littleEndian 4 n.toNat)⟩

instance : Writable UInt64 := ⟨fun n => .put 8 (littleEndian 8 n.toNat)⟩

instance : Writable Int16 := ⟨fun n => .put 2 (littleEndian 2 n.toUInt16.toNat)⟩

instance : Writable Int32 := ⟨fun n => .put 4 (littleEndian 4 n.toUInt32.toNat)⟩

instance : Writable Int64 := ⟨fun n => .put 8 (littleEndian 8 n.toUInt64.toNat)⟩

instance : Writable Bool := ⟨fun b => write (if b then 1 else 0 : UInt8)⟩

instance {n : Nat} : Writable (FixedBytes n) := ⟨fun a => .put n a.toList⟩

instance {role : HashRole} : Writable (Hash role) := ⟨fun h => write h.bytes⟩

instance {α : Type} [Writable α] : Writable (List α) := ⟨.list write⟩

end QuorumFinality
