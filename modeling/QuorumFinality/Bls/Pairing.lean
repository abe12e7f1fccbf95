import QuorumFinality.Bls.Group

/-!
# The pairing

The pairing sends a point of each group to a root of unity of the extension of degree twelve, and
it is linear in both points. To check a signature it is enough to know whether a product of
pairings is one. So the parts of the pairing that cannot change the answer are left out: factors
in smaller fields, the sign of the parameter, and a third power.

## Main definitions

* `Bls.millerLoop`: a product of lines through multiples of a point.
* `Bls.finalPower`: the power that makes the product well defined.
* `Bls.isPairingProductOne`: whether a product of pairings is one.
-/

namespace QuorumFinality

namespace Bls

/-! ### Lines -/

/-- The slope of the line through two points of the curve of the signatures, or of the tangent if
they are the same. -/
def slope (x₁ y₁ x₂ y₂ : Fp2) : Fp2 :=
  if x₁ == x₂ then
    let square := x₁ * x₁
    (square + square + square) * FieldLike.inv (y₁ + y₁)
  else (y₂ - y₁) * FieldLike.inv (x₂ - x₁)

/-- The value at a point of the first group of the line of the given slope through a point of the
second one, up to a factor in a smaller field. -/
def lineValue (slope x y : Fp2) (px py : Fp) : Fp12 :=
  ⟨⟨slope * x - y, -(slope.scale px), 0⟩, ⟨0, ⟨py, 0⟩, 0⟩⟩

/-- The sum of two points whose line has the given slope. -/
def sumOnLine (slope x₁ y₁ x₂ : Fp2) : Fp2 × Fp2 :=
  let x := slope * slope - x₁ - x₂
  (x, slope * (x₁ - x) - y₁)

/-! ### The loop -/

/-- The bits of a number below its highest one, highest first. -/
def lowerBits (n : Nat) : List Bool :=
  ((List.range n.log2).map n.testBit).reverse

/-- One step of the loop: the value is squared and the multiple `(x, y)` of the point `(qx, qy)` is
doubled; for a set bit the point is added. Each time the line is multiplied in. -/
def millerStep (px py : Fp) (qx qy : Fp2) (state : Fp12 × Fp2 × Fp2) (bit : Bool) :
    Fp12 × Fp2 × Fp2 :=
  let (f, x, y) := state
  let tangent := slope x y x y
  let f := f * f * lineValue tangent x y px py
  let (x, y) := sumOnLine tangent x y x
  if bit then
    let chord := slope x y qx qy
    let f := f * lineValue chord x y px py
    let (x, y) := sumOnLine chord x y qx
    (f, x, y)
  else (f, x, y)

/-- The product of the lines through the multiples of a point of the second group, at a point of
the first one. It is one if either point is the identity. -/
def millerLoop (p : G1) (q : G2) : Fp12 :=
  match p, q with
  | .affine px py, .affine qx qy =>
    ((lowerBits parameter).foldl (millerStep px py qx qy) (1, qx, qy)).1
  | _, _ => 1

/-! ### The final power -/

/-- The power of the parameter, which is negative, of an element whose inverse is its conjugate. -/
def parameterPower (f : Fp12) : Fp12 :=
  (power f parameter).conj

/-- The power `3 (p ^ 12 - 1) / r` for the prime `p` of the field and the order `r` of the groups,
with the exponent split by `p ^ 6 - 1` and `p ^ 2 + 1`. With the parameter `x`, three times what
is left is `(x - 1) ^ 2 (x + p) (x ^ 2 + p ^ 2 - 1) + 3`. -/
def finalPower (f : Fp12) : Fp12 :=
  let f := f.conj * FieldLike.inv f
  let f := f.frobenius.frobenius * f
  let a := parameterPower f * f.conj
  let a := parameterPower a * a.conj
  let a := parameterPower a * a.frobenius
  let a := parameterPower (parameterPower a) * a.frobenius.frobenius * a.conj
  a * f * f * f

/-- Whether the product of the pairings of pairs of points is one. -/
def isPairingProductOne (pairs : List (G1 × G2)) : Bool :=
  finalPower (pairs.foldl (fun f pair => f * millerLoop pair.1 pair.2) 1) == 1

end Bls

end QuorumFinality
