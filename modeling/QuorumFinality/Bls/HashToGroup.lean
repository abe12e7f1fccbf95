import QuorumFinality.Bls.Group
import QuorumFinality.Sha256

/-!
# Hashing a message to a point

A message is stretched to four numbers, which are two elements of the quadratic extension. Each is
mapped to a point of an auxiliary curve and from there, by a rational map of degree three, to the
curve of the signatures; the sum of the two points is moved into the subgroup.

## Main definitions

* `Bls.expandMessage`: a message and a domain as so many pseudorandom bytes.
* `Bls.mapToCurve`: an element of the quadratic extension as a point.
* `Bls.hashToGroup`: a message as a point of the group of signatures.
-/

namespace QuorumFinality

namespace Bls

/-- The domain of the scheme, which keeps its points apart from those of other schemes. -/
def domain : Bytes :=
  "BLS_SIG_BLS12381G2_XMD:SHA-256_SSWU_RO_NUL_".toUTF8.toList

/-! ### Pseudorandom bytes -/

/-- The bitwise difference of two byte strings. -/
def xorBytes (a b : Bytes) : Bytes :=
  List.zipWith (· ^^^ ·) a b

/-- The digests that follow a first digest `seed`: each is made of the seed, the digest before it
and its number. -/
def expandBlocks (seed suffix : Bytes) : (count number : Nat) → (last : Bytes) → Bytes
  | 0, _, _ => []
  | count + 1, number, last =>
    let next := (sha256 (xorBytes seed last ++ UInt8.ofNat number :: suffix)).toList
    next ++ expandBlocks seed suffix count (number + 1) next

/-- `count` digests made of a message and a domain. -/
def expandMessage (message domain : Bytes) (count : Nat) : Bytes :=
  let suffix := domain ++ [UInt8.ofNat domain.length]
  let length := (littleEndian 2 (32 * count)).reverse
  let seed := (sha256 (List.replicate 64 0 ++ message ++ length ++ 0 :: suffix)).toList
  expandBlocks seed suffix count 1 (List.replicate 32 0)

/-- The number of sixty-four bytes from a position on, in the base field. -/
def elementAt (bytes : Bytes) (index : Nat) : Fp :=
  Fp.ofNat (Fp.natOfBytes ((bytes.drop (64 * index)).take 64))

/-- Two elements of the quadratic extension made of a message. -/
def hashToField (message : Bytes) : Fp2 × Fp2 :=
  let bytes := expandMessage message domain 8
  (⟨elementAt bytes 0, elementAt bytes 1⟩, ⟨elementAt bytes 2, elementAt bytes 3⟩)

/-! ### From the field to the auxiliary curve -/

/-- The linear coefficient of the auxiliary curve. -/
def auxA : Fp2 := Fp2.ofNats 0 240

/-- The constant coefficient of the auxiliary curve. -/
def auxB : Fp2 := Fp2.ofNats 1012 1012

/-- An element without a square root that the map uses. -/
def auxZ : Fp2 := -(Fp2.ofNats 2 1)

/-- The right side of the equation of the auxiliary curve. -/
def auxCurve (x : Fp2) : Fp2 :=
  (x * x + auxA) * x + auxB

/-- A point of the auxiliary curve. One of two abscissas made of the element has an ordinate; its
parity is taken from the element. -/
def auxPoint (u : Fp2) : Fp2 × Fp2 :=
  let t := auxZ * (u * u)
  let s := t * t + t
  let x₁ :=
    if s == 0 then auxB * FieldLike.inv (auxZ * auxA)
    else -(auxB * FieldLike.inv auxA) * (1 + FieldLike.inv s)
  let (x, y) :=
    match (auxCurve x₁).sqrt? with
    | some y => (x₁, y)
    | none =>
      let x₂ := t * x₁
      (x₂, ((auxCurve x₂).sqrt?).getD 0)
  (x, if u.isOdd == y.isOdd then y else -y)

/-! ### From the auxiliary curve to the curve -/

/-- The value of a polynomial whose coefficients are given from the constant on. -/
def evaluate (coefficients : List Fp2) (x : Fp2) : Fp2 :=
  coefficients.foldr (fun c value => value * x + c) 0

/-- The numerator of the abscissa. -/
def abscissaNumerator : List Fp2 :=
  [Fp2.ofNats
    0x5c759507e8e333ebb5b7a9a47d7ed8532c52d39fd3a042a88b58423c50ae15d5c2638e343d9c71c6238aaaaaaaa97d6
    0x5c759507e8e333ebb5b7a9a47d7ed8532c52d39fd3a042a88b58423c50ae15d5c2638e343d9c71c6238aaaaaaaa97d6,
   Fp2.ofNats 0
    0x11560bf17baa99bc32126fced787c88f984f87adf7ae0c7f9a208c6b4f20a4181472aaa9cb8d555526a9ffffffffc71a,
   Fp2.ofNats
    0x11560bf17baa99bc32126fced787c88f984f87adf7ae0c7f9a208c6b4f20a4181472aaa9cb8d555526a9ffffffffc71e
    0x8ab05f8bdd54cde190937e76bc3e447cc27c3d6fbd7063fcd104635a790520c0a395554e5c6aaaa9354ffffffffe38d,
   Fp2.ofNats
    0x171d6541fa38ccfaed6dea691f5fb614cb14b4e7f4e810aa22d6108f142b85757098e38d0f671c7188e2aaaaaaaa5ed1
    0]

/-- The denominator of the abscissa. -/
def abscissaDenominator : List Fp2 :=
  [Fp2.ofNats 0 (prime - 72), Fp2.ofNats 12 (prime - 12), 1]

/-- The numerator of the factor of the ordinate. -/
def ordinateNumerator : List Fp2 :=
  [Fp2.ofNats
    0x1530477c7ab4113b59a4c18b076d11930f7da5d4a07f649bf54439d87d27e500fc8c25ebf8c92f6812cfc71c71c6d706
    0x1530477c7ab4113b59a4c18b076d11930f7da5d4a07f649bf54439d87d27e500fc8c25ebf8c92f6812cfc71c71c6d706,
   Fp2.ofNats 0
    0x5c759507e8e333ebb5b7a9a47d7ed8532c52d39fd3a042a88b58423c50ae15d5c2638e343d9c71c6238aaaaaaaa97be,
   Fp2.ofNats
    0x11560bf17baa99bc32126fced787c88f984f87adf7ae0c7f9a208c6b4f20a4181472aaa9cb8d555526a9ffffffffc71c
    0x8ab05f8bdd54cde190937e76bc3e447cc27c3d6fbd7063fcd104635a790520c0a395554e5c6aaaa9354ffffffffe38f,
   Fp2.ofNats
    0x124c9ad43b6cf79bfbf7043de3811ad0761b0f37a1e26286b0e977c69aa274524e79097a56dc4bd9e1b371c71c718b10
    0]

/-- The denominator of the factor of the ordinate. -/
def ordinateDenominator : List Fp2 :=
  [Fp2.ofNats (prime - 432) (prime - 432), Fp2.ofNats 0 (prime - 216),
   Fp2.ofNats 18 (prime - 18), 1]

/-- A point of the auxiliary curve as one of the curve of the signatures. -/
def ofAuxiliary (x y : Fp2) : G2 :=
  let xDenominator := evaluate abscissaDenominator x
  let yDenominator := evaluate ordinateDenominator x
  if xDenominator == 0 || yDenominator == 0 then .identity
  else
    .affine (evaluate abscissaNumerator x * FieldLike.inv xDenominator)
      (y * evaluate ordinateNumerator x * FieldLike.inv yDenominator)

/-- An element of the quadratic extension as a point of the curve of the signatures. -/
def mapToCurve (u : Fp2) : G2 :=
  let (x, y) := auxPoint u
  ofAuxiliary x y

/-- A multiple that moves every point of the curve into the subgroup. -/
def cofactor : Nat :=
  0xbc69f08f2ee75b3584c6a0ea91b352888e2a8e9145ad7689986ff031508ffe1329c2f178731db956d82bf015d1212b02ec0ec69d7477c1ae954cbc06689f6a359894c0adebbf6b4e8020005aaa95551

/-- A message as a point of the group of signatures. -/
def hashToGroup (message : Bytes) : G2 :=
  let (u, v) := hashToField message
  ((mapToCurve u).add (mapToCurve v)).multiple cofactor

end Bls

end QuorumFinality
