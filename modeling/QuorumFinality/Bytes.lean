/-!
# Byte strings

Everything that is hashed or sent is a list of bytes. This module fixes that type and the two
ways in which numbers and text are laid out in it: fixed-width little-endian numbers and
hexadecimal text.

## Main definitions

* `Bytes`: a byte string.
* `littleEndian`, `ofLittleEndian`: a number as a fixed count of bytes, least significant first.
* `Bytes.toHex`, `Bytes.ofHex?`: lowercase hexadecimal, read in either case.

## Main results

* `littleEndian_ofLittleEndian`: a byte string of the right length is the only text of its number.
-/

namespace QuorumFinality

/-- A byte string. -/
abbrev Bytes := List UInt8

/-! ### Little-endian numbers -/

/-- The `width` low bytes of `n`, least significant first. -/
def littleEndian : (width : Nat) → (n : Nat) → Bytes
  | 0, _ => []
  | width + 1, n => UInt8.ofNat n :: littleEndian width (n / 256)

/-- The number whose bytes are given least significant first. -/
def ofLittleEndian : Bytes → Nat
  | [] => 0
  | b :: bs => b.toNat + 256 * ofLittleEndian bs

@[simp]
theorem length_littleEndian (width n : Nat) : (littleEndian width n).length = width := by
  induction width generalizing n with
  | zero => rfl
  | succ width ih => simp [littleEndian, ih]

theorem littleEndian_ofLittleEndian (bs : Bytes) :
    littleEndian bs.length (ofLittleEndian bs) = bs := by
  induction bs with
  | nil => rfl
  | cons b bs ih =>
    have hb := b.toNat_lt
    have hdiv : (b.toNat + 256 * ofLittleEndian bs) / 256 = ofLittleEndian bs := by omega
    have hmod : UInt8.ofNat (b.toNat + 256 * ofLittleEndian bs) = b := by
      apply UInt8.toNat.inj
      simp
    simp only [List.length_cons, littleEndian, ofLittleEndian, hdiv, hmod, ih]

/-! ### Hexadecimal text -/

/-- The lowercase digit of a number below sixteen. -/
def hexDigit (n : Nat) : Char :=
  if n < 10 then Char.ofNat (48 + n) else Char.ofNat (87 + n)

/-- The value of a hexadecimal digit of either case. -/
def hexValue? (c : Char) : Option Nat :=
  if '0' ≤ c ∧ c ≤ '9' then some (c.toNat - 48)
  else if 'a' ≤ c ∧ c ≤ 'f' then some (c.toNat - 87)
  else if 'A' ≤ c ∧ c ≤ 'F' then some (c.toNat - 55)
  else none

namespace Bytes

/-- The lowercase digits of a byte string, two per byte. -/
def hexDigits (bs : Bytes) : List Char :=
  bs.flatMap fun b => [hexDigit (b.toNat / 16), hexDigit (b.toNat % 16)]

/-- A byte string as lowercase hexadecimal text. -/
def toHex (bs : Bytes) : String :=
  String.ofList bs.hexDigits

/-- The bytes of hexadecimal digits; `none` for an odd count or a character that is no digit. -/
def ofHexDigits? : List Char → Option Bytes
  | [] => some []
  | [_] => none
  | high :: low :: rest => do
    let h ← hexValue? high
    let l ← hexValue? low
    let bs ← ofHexDigits? rest
    return UInt8.ofNat (16 * h + l) :: bs

/-- The bytes of a hexadecimal text of either case. -/
def ofHex? (text : String) : Option Bytes :=
  ofHexDigits? text.toList

end Bytes

end QuorumFinality
