import Mathlib
import QuorumFinality.Bytes

/-!
# Little-endian numbers as remainders

So many bytes hold the numbers below a power of 256, and writing a number keeps its remainder.

## Main results

* `ofLittleEndian_littleEndian`: reading undoes writing, up to the width.
-/

namespace QuorumFinality

theorem ofLittleEndian_lt (bs : Bytes) : ofLittleEndian bs < 256 ^ bs.length := by
  induction bs with
  | nil => simp [ofLittleEndian]
  | cons b bs ih =>
    have hb := b.toNat_lt
    simp only [ofLittleEndian, List.length_cons, Nat.pow_succ]
    omega

theorem ofLittleEndian_littleEndian (width n : Nat) :
    ofLittleEndian (littleEndian width n) = n % 256 ^ width := by
  induction width generalizing n with
  | zero => simp [littleEndian, ofLittleEndian, Nat.mod_one]
  | succ width ih =>
    simp only [littleEndian, ofLittleEndian, ih, Nat.pow_succ']
    rw [Nat.mod_mul]
    simp

/-- Reading undoes writing for the numbers that the width holds. -/
theorem ofLittleEndian_littleEndian_of_lt {width n : Nat} (h : n < 256 ^ width) :
    ofLittleEndian (littleEndian width n) = n := by
  rw [ofLittleEndian_littleEndian, Nat.mod_eq_of_lt h]

end QuorumFinality
