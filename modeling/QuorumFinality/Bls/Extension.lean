import QuorumFinality.Bls.Field

/-!
# The extension fields

The signatures live on a curve over the quadratic extension of the base field, and the pairing has
its values in the extension of degree twelve, which is built in three steps: a square root of minus
one, a cube root of the element `1 + u`, and a square root of that cube root.

## Main definitions

* `Bls.Fp2`, `Bls.Fp6`, `Bls.Fp12`: the three extensions.
* `Bls.Fp2.sqrt?`: the square root of a square.
* `Bls.Fp12.frobenius`: raising to the power of the prime.
-/

namespace QuorumFinality

namespace Bls

/-! ### Degree two -/

/-- The elements `c₀ + c₁ u`, where `u² = -1`. -/
structure Fp2 where
  c₀ : Fp
  c₁ : Fp
  deriving DecidableEq

namespace Fp2

/-- The element of two numbers. -/
def ofNats (a b : Nat) : Fp2 :=
  ⟨Fp.ofNat a, Fp.ofNat b⟩

instance : Add Fp2 where
  add a b := ⟨a.c₀ + b.c₀, a.c₁ + b.c₁⟩

instance : Sub Fp2 where
  sub a b := ⟨a.c₀ - b.c₀, a.c₁ - b.c₁⟩

instance : Neg Fp2 where
  neg a := ⟨-a.c₀, -a.c₁⟩

/-- The product, with three products of coefficients. -/
def mul (a b : Fp2) : Fp2 :=
  let x := a.c₀ * b.c₀
  let y := a.c₁ * b.c₁
  ⟨x - y, (a.c₀ + a.c₁) * (b.c₀ + b.c₁) - x - y⟩

instance : Mul Fp2 where
  mul := mul

instance : Zero Fp2 where
  zero := ⟨0, 0⟩

instance : One Fp2 where
  one := ⟨1, 0⟩

/-- The conjugate, which is the power of the prime. -/
def conj (a : Fp2) : Fp2 :=
  ⟨a.c₀, -a.c₁⟩

/-- The multiple by an element of the base field. -/
def scale (a : Fp2) (k : Fp) : Fp2 :=
  ⟨a.c₀ * k, a.c₁ * k⟩

instance : FieldLike Fp2 where
  inv a := a.conj.scale (FieldLike.inv (a.c₀ * a.c₀ + a.c₁ * a.c₁))

/-- The multiple by `1 + u`, which has neither a square root nor a cube root. -/
def timesXi (a : Fp2) : Fp2 :=
  ⟨a.c₀ - a.c₁, a.c₀ + a.c₁⟩

/-- The square root of a square. -/
def sqrt? (a : Fp2) : Option Fp2 :=
  let b := power a ((prime - 3) / 4)
  let x := b * a
  let norm := b * x
  let root := if norm == -1 then ⟨-x.c₁, x.c₀⟩ else power (1 + norm) ((prime - 1) / 2) * x
  if root * root == a then some root else none

/-- Whether the element is greater than its negative, the second coefficient counting first. -/
def isLarge (a : Fp2) : Bool :=
  if a.c₁ == 0 then a.c₀.isLarge else a.c₁.isLarge

/-- The parity of the first coefficient that is not zero. -/
def isOdd (a : Fp2) : Bool :=
  if a.c₀ == 0 then a.c₁.val % 2 == 1 else a.c₀.val % 2 == 1

end Fp2

/-! ### Degree six -/

/-- The elements `c₀ + c₁ v + c₂ v²`, where `v³ = 1 + u`. -/
structure Fp6 where
  c₀ : Fp2
  c₁ : Fp2
  c₂ : Fp2
  deriving DecidableEq

namespace Fp6

instance : Add Fp6 where
  add a b := ⟨a.c₀ + b.c₀, a.c₁ + b.c₁, a.c₂ + b.c₂⟩

instance : Sub Fp6 where
  sub a b := ⟨a.c₀ - b.c₀, a.c₁ - b.c₁, a.c₂ - b.c₂⟩

instance : Neg Fp6 where
  neg a := ⟨-a.c₀, -a.c₁, -a.c₂⟩

/-- The product, with six products of coefficients. -/
def mul (a b : Fp6) : Fp6 :=
  let x := a.c₀ * b.c₀
  let y := a.c₁ * b.c₁
  let z := a.c₂ * b.c₂
  ⟨x + ((a.c₁ + a.c₂) * (b.c₁ + b.c₂) - y - z).timesXi,
   (a.c₀ + a.c₁) * (b.c₀ + b.c₁) - x - y + z.timesXi,
   (a.c₀ + a.c₂) * (b.c₀ + b.c₂) - x - z + y⟩

instance : Mul Fp6 where
  mul := mul

instance : Zero Fp6 where
  zero := ⟨0, 0, 0⟩

instance : One Fp6 where
  one := ⟨1, 0, 0⟩

/-- The multiple by `v`. -/
def timesV (a : Fp6) : Fp6 :=
  ⟨a.c₂.timesXi, a.c₀, a.c₁⟩

instance : FieldLike Fp6 where
  inv a :=
    let x := a.c₀ * a.c₀ - (a.c₁ * a.c₂).timesXi
    let y := (a.c₂ * a.c₂).timesXi - a.c₀ * a.c₁
    let z := a.c₁ * a.c₁ - a.c₀ * a.c₂
    let norm := a.c₀ * x + (a.c₂ * y + a.c₁ * z).timesXi
    let k := FieldLike.inv norm
    ⟨x * k, y * k, z * k⟩

end Fp6

/-! ### Degree twelve -/

/-- The elements `c₀ + c₁ w`, where `w² = v`. -/
structure Fp12 where
  c₀ : Fp6
  c₁ : Fp6
  deriving DecidableEq

/-- The power of `1 + u` that raising to the prime puts before `w`. -/
def frobeniusFactor : Fp2 :=
  power (Fp2.ofNats 1 1) ((prime - 1) / 6)

/-- The second to fifth powers of that factor. -/
def frobeniusFactors : Fp2 × Fp2 × Fp2 × Fp2 :=
  let square := frobeniusFactor * frobeniusFactor
  let cube := square * frobeniusFactor
  (square, cube, square * square, square * cube)

namespace Fp12

instance : Add Fp12 where
  add a b := ⟨a.c₀ + b.c₀, a.c₁ + b.c₁⟩

instance : Sub Fp12 where
  sub a b := ⟨a.c₀ - b.c₀, a.c₁ - b.c₁⟩

instance : Neg Fp12 where
  neg a := ⟨-a.c₀, -a.c₁⟩

/-- The product, with three products of coefficients. -/
def mul (a b : Fp12) : Fp12 :=
  let x := a.c₀ * b.c₀
  let y := a.c₁ * b.c₁
  ⟨x + y.timesV, (a.c₀ + a.c₁) * (b.c₀ + b.c₁) - x - y⟩

instance : Mul Fp12 where
  mul := mul

instance : Zero Fp12 where
  zero := ⟨0, 0⟩

instance : One Fp12 where
  one := ⟨1, 0⟩

instance : FieldLike Fp12 where
  inv a :=
    let k := FieldLike.inv (a.c₀ * a.c₀ - (a.c₁ * a.c₁).timesV)
    ⟨a.c₀ * k, -(a.c₁ * k)⟩

/-- The conjugate, which is the sixth power of the Frobenius map. -/
def conj (a : Fp12) : Fp12 :=
  ⟨a.c₀, -a.c₁⟩

/-- The power of the prime: each coefficient is conjugated and gets its factor. -/
def frobenius (a : Fp12) : Fp12 :=
  let (f₂, f₃, f₄, f₅) := frobeniusFactors
  ⟨⟨a.c₀.c₀.conj, a.c₀.c₁.conj * f₂, a.c₀.c₂.conj * f₄⟩,
   ⟨a.c₁.c₀.conj * frobeniusFactor, a.c₁.c₁.conj * f₃, a.c₁.c₂.conj * f₅⟩⟩

end Fp12

end Bls

end QuorumFinality
