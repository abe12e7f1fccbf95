/-!
# The base field

Numbers modulo a prime of 381 bits, and what the curves need of any field: the four operations,
powers, and square roots where there are some. An inverse comes out of Euclid's algorithm and a
square root is a power, so nothing has to be searched for.

## Main definitions

* `Bls.Fp`: the base field.
* `Bls.FieldLike`: the operations that curves are written against.
* `Bls.power`: powers by repeated squaring.
* `Bls.Fp.sqrt?`: the square root of a square.
-/

namespace QuorumFinality

namespace Bls

/-- The prime of the base field. -/
def prime : Nat :=
  0x1a0111ea397fe69a4b1ba7b6434bacd764774b84f38512bf6730d2a0f6b0f6241eabfffeb153ffffb9feffffffffaaab

/-- The prime order of the groups that keys and signatures live in. -/
def order : Nat :=
  0x73eda753299d7d483339d80809a1d80553bda402fffe5bfeffffffff00000001

/-- The size of the negative number that the curve is made from. -/
def parameter : Nat :=
  0xd201000000010000

theorem prime_pos : 0 < prime := by
  decide

/-- What the curves need of a field. The inverse of zero is zero. -/
class FieldLike (F : Type) extends Add F, Sub F, Mul F, Neg F, Zero F, One F, BEq F where
  /-- The inverse of an element other than zero. -/
  inv : F → F

/-- A power, by squaring. -/
def power {α : Type} [Mul α] [One α] (a : α) (n : Nat) : α :=
  if n = 0 then 1
  else
    let half := power (a * a) (n / 2)
    if n % 2 = 1 then a * half else half
termination_by n

/-- The base field: numbers below the prime. -/
structure Fp where
  /-- The number. -/
  val : Nat
  /-- It is below the prime. -/
  isLt : val < prime
  deriving DecidableEq

namespace Fp

/-- The remainder of a number. -/
def ofNat (n : Nat) : Fp :=
  ⟨n % prime, Nat.mod_lt n prime_pos⟩

instance : Add Fp where
  add a b := ofNat (a.val + b.val)

instance : Neg Fp where
  neg a := ofNat (prime - a.val)

instance : Sub Fp where
  sub a b := ofNat (a.val + (prime - b.val))

instance : Mul Fp where
  mul a b := ofNat (a.val * b.val)

instance : Zero Fp where
  zero := ofNat 0

instance : One Fp where
  one := ofNat 1

/-- Euclid's algorithm on two numbers, each with a multiplier. If `s` and `t` times some number are
`a` and `b` up to multiples of a modulus, then the result times that number is the greatest common
divisor of `a` and `b` up to multiples of the modulus. -/
def euclid (a b : Nat) (s t : Int) : Int :=
  if b = 0 then s
  else euclid b (a % b) t (s - Int.ofNat (a / b) * t)
termination_by b
decreasing_by exact Nat.mod_lt a (by omega)

/-- The inverse: the number whose product with the element has the remainder one. -/
instance : FieldLike Fp where
  inv a := ofNat (euclid prime a.val 0 1 % Int.ofNat prime).toNat

/-- The square root of a square. The prime is three modulo four, so one of the two is a power. -/
def sqrt? (a : Fp) : Option Fp :=
  let root := power a ((prime + 1) / 4)
  if root * root == a then some root else none

/-- Whether the element is greater than its negative. -/
def isLarge (a : Fp) : Bool :=
  prime < 2 * a.val

/-- Forty-eight bytes, most significant first. -/
def encode (a : Fp) : List UInt8 :=
  (List.range 48).map fun i => UInt8.ofNat (a.val >>> (8 * (47 - i)))

/-- The number of bytes that are given most significant first. -/
def natOfBytes (bytes : List UInt8) : Nat :=
  bytes.foldl (fun n b => 256 * n + b.toNat) 0

/-- The element whose bytes are given most significant first; a number that is not below the prime
stands for none. -/
def decode? (bytes : List UInt8) : Option Fp :=
  let n := natOfBytes bytes
  if h : n < prime then some ⟨n, h⟩ else none

end Fp

end Bls

end QuorumFinality
