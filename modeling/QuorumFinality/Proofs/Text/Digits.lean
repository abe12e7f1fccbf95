import Mathlib.Data.String.Basic
import QuorumFinality.Bls.Bytes

/-!
# Digits are read back

Numbers and byte strings have texts of digits. A byte always takes two digits, so the digits of a
byte string need nothing between them. A number takes as many as it needs, so its first digit is not
a zero unless it is the only one, and what follows it must not be a digit.

## Main results

* `hexValue?_digitChar` — a digit has its value, whatever the base is
* `foldl_toDigits` — a number is read back from its digits
* `head?_toDigits_ne` — it is written without leading zeros
* `Bytes.ofHex?_toHex` — a byte string is read back from its digits
* `Hash.ofText?_text`, `FixedBytes.ofText?_text` — and so are hashes, keys and signatures
-/

namespace QuorumFinality

/-! ### Single digits -/

theorem hexValue?_hexDigit : ∀ n < 16, hexValue? (hexDigit n) = some n := by
  decide

theorem digitChar_eq_hexDigit : ∀ n < 16, Nat.digitChar n = hexDigit n := by
  decide

theorem hexValue?_digitChar {n : Nat} (h : n < 16) : hexValue? (Nat.digitChar n) = some n := by
  rw [digitChar_eq_hexDigit n h, hexValue?_hexDigit n h]

theorem utf8Size_hexDigit : ∀ n < 16, (hexDigit n).utf8Size = 1 := by
  decide

/-! ### Numbers -/

section

variable {base : Nat}

/-- The digits of a number are digits. -/
theorem exists_digitChar_of_mem_toDigits (hbase : 1 < base) {n : Nat} {c : Char}
    (h : c ∈ Nat.toDigits base n) : ∃ d < base, c = Nat.digitChar d := by
  induction n using Nat.strongRecOn with
  | ind n ih =>
    by_cases hlt : n < base
    · rw [Nat.toDigits_of_lt_base hlt, List.mem_singleton] at h
      exact ⟨n, hlt, h⟩
    · have hle : base ≤ n := Nat.not_lt.mp hlt
      rw [Nat.toDigits_of_base_le hbase hle, List.mem_append, List.mem_singleton] at h
      rcases h with h | rfl
      · exact ih (n / base) (Nat.div_lt_self (by omega) hbase) h
      · exact ⟨n % base, Nat.mod_lt n (by omega), rfl⟩

section

variable {p : Char → Bool} {rest : List Char}

/-- The digits of a number in front of a text end where the digits of the text end. -/
theorem takeWhile_toDigits (hbase : 1 < base) (hdigit : ∀ d < base, p (Nat.digitChar d) = true)
    (hrest : ∀ c ∈ rest.head?, p c = false) (n : Nat) :
    (Nat.toDigits base n ++ rest).takeWhile p = Nat.toDigits base n := by
  have hdigits : ∀ c ∈ Nat.toDigits base n, p c = true := fun c hc => by
    obtain ⟨d, hd, rfl⟩ := exists_digitChar_of_mem_toDigits hbase hc
    exact hdigit d hd
  have hstop : rest.takeWhile p = [] := by
    cases rest with
    | nil => rfl
    | cons c rest => exact List.takeWhile_cons_of_neg (by simp [hrest c rfl])
  rw [List.takeWhile_append_of_pos hdigits, hstop, List.append_nil]

theorem dropWhile_toDigits (hbase : 1 < base) (hdigit : ∀ d < base, p (Nat.digitChar d) = true)
    (hrest : ∀ c ∈ rest.head?, p c = false) (n : Nat) :
    (Nat.toDigits base n ++ rest).dropWhile p = rest := by
  have h := List.takeWhile_append_dropWhile (p := p) (l := Nat.toDigits base n ++ rest)
  rw [takeWhile_toDigits hbase hdigit hrest] at h
  exact List.append_cancel_left h

end

/-- **A number is read back from its digits,** one by one from the first one. -/
theorem foldl_toDigits (hbase : 1 < base) (hle : base ≤ 16) (n : Nat) :
    (Nat.toDigits base n).foldl (fun n c => base * n + (hexValue? c).getD 0) 0 = n := by
  induction n using Nat.strongRecOn with
  | ind n ih =>
    by_cases hlt : n < base
    · simp [Nat.toDigits_of_lt_base hlt, hexValue?_digitChar (hlt.trans_le hle)]
    · have hdigit : n % base < 16 := (Nat.mod_lt n (by omega)).trans_le hle
      rw [Nat.toDigits_of_base_le hbase (Nat.not_lt.mp hlt), List.foldl_append,
        ih (n / base) (Nat.div_lt_self (by omega) hbase)]
      simp [hexValue?_digitChar hdigit, Nat.div_add_mod]

/-- **There are no leading zeros,** as the first digit of a number other than zero is not one. -/
theorem head?_toDigits_ne (hbase : 1 < base) {n : Nat} (hn : 0 < n) :
    (Nat.toDigits base n).head? ≠ some '0' := by
  induction n using Nat.strongRecOn with
  | ind n ih =>
    by_cases hlt : n < base
    · simp [Nat.toDigits_of_lt_base hlt, Nat.ne_of_gt hn]
    · have hle : base ≤ n := Nat.not_lt.mp hlt
      rw [Nat.toDigits_of_base_le hbase hle,
        List.head?_append_of_ne_nil _ Nat.toDigits_ne_nil]
      exact ih (n / base) (Nat.div_lt_self hn hbase) (Nat.div_pos hle (by omega))

/-- A zero in front stands alone. -/
theorem length_toDigits_of_head? (hbase : 1 < base) {n : Nat}
    (h : (Nat.toDigits base n).head? = some '0') : (Nat.toDigits base n).length = 1 := by
  rcases Nat.eq_zero_or_pos n with rfl | hn
  · rw [Nat.toDigits_zero, List.length_singleton]
  · exact absurd h (head?_toDigits_ne hbase hn)

end

/-! ### Byte strings -/

namespace Bytes

theorem hexDigits_cons (b : UInt8) (bytes : Bytes) :
    hexDigits (b :: bytes) =
      hexDigit (b.toNat / 16) :: hexDigit (b.toNat % 16) :: hexDigits bytes :=
  rfl

theorem ofHexDigits?_hexDigits (bytes : Bytes) :
    ofHexDigits? (hexDigits bytes) = some bytes := by
  induction bytes with
  | nil => rfl
  | cons b bytes ih =>
    have hlt := b.toNat_lt
    have hhigh := hexValue?_hexDigit (b.toNat / 16) (by omega)
    have hlow := hexValue?_hexDigit (b.toNat % 16) (by omega)
    have hb : UInt8.ofNat (16 * (b.toNat / 16) + b.toNat % 16) = b := by
      rw [Nat.div_add_mod, UInt8.ofNat_toNat]
    rw [hexDigits_cons, ofHexDigits?, hhigh, hlow, ih]
    exact congrArg (fun b => some (b :: bytes)) hb

/-- **A byte string is read back from its digits.** -/
theorem ofHex?_toHex (bytes : Bytes) : ofHex? bytes.toHex = some bytes := by
  rw [ofHex?, toHex, String.toList_ofList, ofHexDigits?_hexDigits]

/-- A digit takes one byte of text, so a byte takes two. -/
theorem utf8ByteSize_toHex (bytes : Bytes) : bytes.toHex.utf8ByteSize = 2 * bytes.length := by
  rw [toHex, String.utf8ByteSize_ofList]
  induction bytes with
  | nil => rfl
  | cons b bytes ih =>
    have hlt := b.toNat_lt
    rw [hexDigits_cons, String.utf8Len_cons, String.utf8Len_cons, ih,
      utf8Size_hexDigit _ (by omega), utf8Size_hexDigit _ (by omega), List.length_cons]
    omega

end Bytes

/-- **A hash is read back from its text,** whichever end it is shown from. -/
theorem Hash.ofText?_text {role : HashRole} (h : Hash role) : Hash.ofText? h.text = .ok h := by
  have hsize : h.text.utf8ByteSize = 64 := by
    rw [text, Bytes.utf8ByteSize_toHex, h.shown.length_toList]
  have hshown : (if role.isReversed then h.shown.reverse else h.shown) = h.bytes := by
    rw [shown]
    split
    · rw [FixedBytes.reverse_reverse]
    · rfl
  rw [ofText?, if_pos hsize, text, Bytes.ofHex?_toHex, Option.bind_some,
    FixedBytes.ofList?_toList]
  simp only [hshown]

/-- **A key or a signature is read back from its text.** -/
theorem FixedBytes.ofText?_text {n : Nat} (a : FixedBytes n) (digits length : Malformed) :
    FixedBytes.ofText? n digits length a.text = .ok a := by
  rw [ofText?, text, Bytes.ofHex?_toHex]
  simp only [FixedBytes.ofList?_toList]

end QuorumFinality
