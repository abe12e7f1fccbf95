import QuorumFinality.Bls.Curve
import QuorumFinality.Bls.Extension
import QuorumFinality.Bls.Legacy

/-!
# The groups of keys and signatures

Keys are points over the base field and signatures points over its quadratic extension, in both
cases of the subgroup whose order is a prime. A point is sent by its abscissa and three flags. The
bytes of a point are accepted if the abscissa is written in the only way it can be, if there is
such a point, and if the point is in the subgroup.

## Main definitions

* `Bls.G1`, `Bls.G2`: the points over the two fields.
* `Bls.G1.decode?`, `Bls.G2.decode?`: the point of bytes, in the present or in the old layout.
* `Bls.G1.encode`, `Bls.G2.encode`: the bytes of a point.
-/

namespace QuorumFinality

namespace Bls

/-- Points over the base field. -/
abbrev G1 := Point Fp

/-- Points over the quadratic extension. -/
abbrev G2 := Point Fp2

/-- The constant of the curve over the base field. -/
def b₁ : Fp := Fp.ofNat 4

/-- The constant of the curve over the quadratic extension. -/
def b₂ : Fp2 := Fp2.ofNats 4 4

/-- The flags of a first byte and the byte without them. -/
structure Flags where
  /-- The point is compressed. -/
  compressed : Bool
  /-- The point is the identity. -/
  identity : Bool
  /-- The larger ordinate is meant. -/
  large : Bool
  deriving DecidableEq

/-- The flags of a first byte. -/
def Flags.ofByte (first : UInt8) : Flags where
  compressed := first &&& compressedFlag != 0
  identity := first &&& identityFlag != 0
  large := first &&& largeFlag != 0

/-- The first byte of an abscissa under flags. -/
def Flags.mark (flags : Flags) (first : UInt8) : UInt8 :=
  first ||| (if flags.compressed then compressedFlag else 0) |||
    (if flags.identity then identityFlag else 0) ||| (if flags.large then largeFlag else 0)

/-- A compressed byte string as its flags and the abscissa. -/
def splitFlags (bytes : Bytes) : Flags × Bytes :=
  match bytes with
  | [] => (Flags.ofByte 0, [])
  | first :: rest => (Flags.ofByte first, (first &&& ~~~allFlags) :: rest)

/-- An abscissa with its flags. -/
def joinFlags (flags : Flags) (bytes : Bytes) : Bytes :=
  match bytes with
  | [] => []
  | first :: rest => flags.mark first :: rest

/-- The point of an abscissa and flags. `root?` finds an ordinate and `isLarge` compares it with its
negative. -/
def pointOf {F : Type} [FieldLike F] (root? : F → Option F) (isLarge : F → Bool) (b : F)
    (flags : Flags) (x : F) : Option (Point F) :=
  if !flags.compressed then none
  else if flags.identity then
    if !flags.large && x == 0 then some .identity else none
  else
    match root? (x * x * x + b) with
    | none => none
    | some y => some (.affine x (if isLarge y == flags.large then y else -y))

/-- The flags of a point. -/
def flagsOf {F : Type} (isLarge : F → Bool) : Point F → Flags
  | .identity => ⟨true, true, false⟩
  | .affine _ y => ⟨true, false, isLarge y⟩

namespace G1

/-- The point of bytes in the present layout. -/
def decodeModern? (bytes : KeyBytes) : Option G1 := do
  let (flags, abscissa) := splitFlags bytes.toList
  let x ← Fp.decode? abscissa
  let point ← pointOf Fp.sqrt? Fp.isLarge b₁ flags x
  if point.isKilledBy order then some point else none

/-- The point of bytes in the present layout, or else in the old one. -/
def decode? (bytes : KeyBytes) : Option G1 :=
  match decodeModern? bytes with
  | some point => some point
  | none => (Legacy.modernKey? bytes).bind decodeModern?

/-- The bytes of a point. -/
def encode (point : G1) : Bytes :=
  joinFlags (flagsOf Fp.isLarge point) <|
    match point with
    | .identity => Fp.encode 0
    | .affine x _ => Fp.encode x

/-- The point that generates the group of keys. -/
def generator : G1 :=
  .affine
    (Fp.ofNat 0x17f1d3a73197d7942695638c4fa9ac0fc3688c4f9774b905a14e3a3f171bac586c55e83ff97a1aeffb3af00adb22c6bb)
    (Fp.ofNat 0x08b3f481e3aaa0f1a09e30ed741d8ae4fcf5e095d5d00af600db18cb2c04b3edd03cc744a2888ae40caa232946c5e7e1)

end G1

namespace G2

/-- The point of bytes in the present layout: the second coefficient of the abscissa comes
first. -/
def decodeModern? (bytes : SignatureBytes) : Option G2 := do
  let (flags, abscissa) := splitFlags bytes.toList
  let c₁ ← Fp.decode? (abscissa.take 48)
  let c₀ ← Fp.decode? (abscissa.drop 48)
  let point ← pointOf Fp2.sqrt? Fp2.isLarge b₂ flags ⟨c₀, c₁⟩
  if point.isKilledBy order then some point else none

/-- The point of bytes in the present layout, or else in the old one. -/
def decode? (bytes : SignatureBytes) : Option G2 :=
  match decodeModern? bytes with
  | some point => some point
  | none => (Legacy.modernSignature? bytes).bind decodeModern?

/-- The bytes of a point. -/
def encode (point : G2) : Bytes :=
  joinFlags (flagsOf Fp2.isLarge point) <|
    match point with
    | .identity => Fp.encode 0 ++ Fp.encode 0
    | .affine x _ => Fp.encode x.c₁ ++ Fp.encode x.c₀

end G2

end Bls

end QuorumFinality
