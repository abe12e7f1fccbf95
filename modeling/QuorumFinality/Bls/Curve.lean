import QuorumFinality.Bls.Field

/-!
# Points of a curve

The curves have equations `y² = x³ + b`. A point is the identity or has two coordinates. Sums and
multiples are computed with a common denominator, so that one inverse per result is enough.

## Main definitions

* `Bls.Point`: a point of a curve over a field.
* `Bls.Point.add`, `Bls.Point.multiple`: the group law.
* `Bls.Jacobian`: coordinates `x/z²` and `y/z³` with a common denominator.
-/

namespace QuorumFinality

namespace Bls

/-- The identity or a pair of coordinates. -/
inductive Point (F : Type) where
  /-- The identity of the group. -/
  | identity
  /-- A point with coordinates. -/
  | affine (x y : F)
  deriving DecidableEq

/-- The point with coordinates `x/z²` and `y/z³`, or the identity if `z` is zero. -/
structure Jacobian (F : Type) where
  /-- The numerator of the first coordinate. -/
  x : F
  /-- The numerator of the second coordinate. -/
  y : F
  /-- What the denominators are powers of. -/
  z : F

variable {F : Type} [FieldLike F]

namespace Jacobian

/-- The identity of the group. -/
def identity : Jacobian F :=
  ⟨1, 1, 0⟩

/-- A point under the denominator one. -/
def ofPoint : Point F → Jacobian F
  | .identity => identity
  | .affine x y => ⟨x, y, 1⟩

/-- The point without a denominator. -/
def toPoint (p : Jacobian F) : Point F :=
  if p.z == 0 then .identity
  else
    let k := FieldLike.inv p.z
    let k2 := k * k
    .affine (p.x * k2) (p.y * k2 * k)

/-- The sum of a point with itself. -/
def double (p : Jacobian F) : Jacobian F :=
  let a := p.x * p.x
  let b := p.y * p.y
  let c := b * b
  let t := p.x + b
  let s := t * t - a - c
  let d := s + s
  let e := a + a + a
  let x := e * e - (d + d)
  let c2 := c + c
  let c4 := c2 + c2
  let yz := p.y * p.z
  ⟨x, e * (d - x) - (c4 + c4), yz + yz⟩

/-- The sum of two points. -/
def add (p q : Jacobian F) : Jacobian F :=
  if p.z == 0 then q
  else if q.z == 0 then p
  else
    let pz2 := p.z * p.z
    let qz2 := q.z * q.z
    let u₁ := p.x * qz2
    let u₂ := q.x * pz2
    let s₁ := p.y * (q.z * qz2)
    let s₂ := q.y * (p.z * pz2)
    if u₁ == u₂ then
      if s₁ == s₂ then p.double else identity
    else
      let h := u₂ - u₁
      let r := s₂ - s₁
      let h2 := h * h
      let h3 := h * h2
      let v := u₁ * h2
      let x := r * r - h3 - (v + v)
      ⟨x, r * (v - x) - s₁ * h3, p.z * q.z * h⟩

/-- The sum of `n` times the same point. -/
def multiple (n : Nat) (p : Jacobian F) : Jacobian F :=
  if n = 0 then identity
  else
    let even := (multiple (n / 2) p).double
    if n % 2 = 1 then even.add p else even
termination_by n

end Jacobian

namespace Point

/-- Whether the point is the identity. -/
def isIdentity : Point F → Bool
  | identity => true
  | affine _ _ => false

/-- The point on the other side of the first axis. -/
def neg : Point F → Point F
  | identity => identity
  | affine x y => affine x (-y)

/-- The sum of two points. -/
def add (p q : Point F) : Point F :=
  ((Jacobian.ofPoint p).add (Jacobian.ofPoint q)).toPoint

/-- The sum of `n` times the same point. -/
def multiple (n : Nat) (p : Point F) : Point F :=
  ((Jacobian.ofPoint p).multiple n).toPoint

/-- Whether a multiple of the point is the identity. -/
def isKilledBy (n : Nat) (p : Point F) : Bool :=
  ((Jacobian.ofPoint p).multiple n).z == 0

end Point

end Bls

end QuorumFinality
