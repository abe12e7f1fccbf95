import QuorumFinality.Bls.Bytes

/-!
# Compressed points in the old layout

A compressed point keeps three flags in the highest bits of its first byte: it is compressed, it
is the identity, and the larger of two ordinates is meant. Points made before this layout have a
single flag, the highest bit, for the ordinate. A signature in the old layout also has the two
halves of its abscissa in the opposite order.

Translating an old point into the present layout moves bits and looks at no coordinates. It is
possible exactly when the bits that have to be free are.

## Main definitions

* `Bls.Legacy.modernKey?`, `Bls.Legacy.modernSignature?`: a point in the present layout.
-/

namespace QuorumFinality

namespace Bls

/-- The bit that marks a compressed point. -/
def compressedFlag : UInt8 := 0x80

/-- The bit that marks the identity. -/
def identityFlag : UInt8 := 0x40

/-- The bit that marks the larger ordinate. -/
def largeFlag : UInt8 := 0x20

/-- The three bits together. -/
def allFlags : UInt8 := 0xE0

namespace Legacy

/-- The flags of a first byte in the old layout, in the present one. Two of its bits have to be
free. -/
def flags? (first : UInt8) : Option UInt8 :=
  if first &&& (identityFlag ||| largeFlag) ≠ 0 then none
  else
    let large := if first &&& compressedFlag ≠ 0 then largeFlag else 0
    some (compressedFlag ||| large)

/-- The bytes of a public key in the present layout. -/
def modernKeyBytes? : Bytes → Option Bytes
  | [] => none
  | first :: rest => do
    let flags ← flags? first
    return ((first &&& ~~~compressedFlag) ||| flags) :: rest

/-- The bytes of a signature in the present layout, from the two halves of the old one. -/
def modernSignatureBytes? : (front back : Bytes) → Option Bytes
  | first :: front, lead :: back => do
    let flags ← flags? first
    if lead &&& allFlags ≠ 0 then none
    else some ((lead ||| flags) :: back ++ (first &&& ~~~compressedFlag) :: front)
  | _, _ => none

/-- A public key in the present layout. -/
def modernKey? (key : KeyBytes) : Option KeyBytes := do
  FixedBytes.ofList? 48 (← modernKeyBytes? key.toList)

/-- A signature in the present layout. -/
def modernSignature? (signature : SignatureBytes) : Option SignatureBytes := do
  FixedBytes.ofList? 96
    (← modernSignatureBytes? (signature.toList.take 48) (signature.toList.drop 48))

end Legacy

end Bls

end QuorumFinality
