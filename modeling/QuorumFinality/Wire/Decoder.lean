import QuorumFinality.Hash
import QuorumFinality.Wire.Error

/-!
# Reading values from the front of a byte string

A decoder takes a byte string and gives a value and the bytes that follow it, or the reason why
the bytes hold no such value. Decoders are composed with `do`: each step reads where the step
before it stopped.

## Main definitions

* `Decoder`: reads a value from the front of a byte string.
* `Decoder.all`: the value that spans a byte string, and an error when bytes are left.
* `Decoder.front`: the value at the front of a byte string and how many bytes it takes.
* `Decoder.take`: the next so many bytes; every other decoder is built from it.
* `Decoder.require`: a rule that what has been read has to keep.
* `Decoder.times`: so many values in a row.
-/

namespace QuorumFinality

/-- Reads a value from the front of a byte string. -/
abbrev Decoder (α : Type) : Type := StateT Bytes (Except DecodeError) α

namespace Decoder

variable {α : Type}

/-- The value at the front of a byte string and the number of bytes that it takes. -/
def front (d : Decoder α) (bytes : Bytes) : Except DecodeError (α × Nat) := do
  let (value, rest) ← d.run bytes
  return (value, bytes.length - rest.length)

/-- The value that spans a whole byte string. -/
def all (d : Decoder α) (bytes : Bytes) : Except DecodeError α := do
  let (value, rest) ← d.run bytes
  if rest.isEmpty then return value else throw (.trailing rest.length)

/-- Gives a value or an error without reading. -/
def ofExcept (result : Except DecodeError α) : Decoder α :=
  StateT.lift result

/-- Goes on if a rule is kept, and fails with the given error otherwise. -/
def require (rule : Prop) [Decidable rule] (error : DecodeError) : Decoder Unit :=
  if rule then pure () else throw error

/-- The bytes that have not been read yet. -/
def rest : Decoder Bytes :=
  StateT.get

/-- The next `n` bytes. -/
def take (n : Nat) : Decoder Bytes := fun bytes =>
  let head := bytes.take n
  if head.length = n then .ok (head, bytes.drop n) else .error .unexpectedEnd

/-- The next `n` bytes, with their number in the type. -/
def fixed (n : Nat) : Decoder (FixedBytes n) := fun bytes =>
  let head := bytes.take n
  if h : head.length = n then .ok (⟨head, h⟩, bytes.drop n) else .error .unexpectedEnd

/-- The next `width` bytes as a number, least significant byte first. -/
def nat (width : Nat) : Decoder Nat :=
  ofLittleEndian <$> take width

/-- `n` values in a row. -/
def times (d : Decoder α) (n : Nat) : Decoder (List α) :=
  go n []
where
  /-- Puts `n` more values behind those that have been read, which are given latest first. -/
  go : Nat → List α → Decoder (List α)
    | 0, read => pure read.reverse
    | n + 1, read => do
      let value ← d
      go n (value :: read)

end Decoder

end QuorumFinality
