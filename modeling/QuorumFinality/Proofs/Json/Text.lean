import Mathlib.Data.Option.Basic
import QuorumFinality.Json.Parser
import QuorumFinality.Proofs.Text.Digits

/-!
# JSON text is read back

Reading takes characters from the front, so each written form is read back with any text behind it
from which it can be told apart. Only a number needs something of that text, as its last digit is
followed by nothing that marks its end: in a written value it is a comma, a bracket or nothing.

## Main results

* `JsonValue.readQuoted_stringChars` — a string is read back, whatever its characters are
* `JsonValue.readNumber_toDigits` — a number is read back
* `JsonValue.parse?_render` — a value is read back from its text
-/

namespace QuorumFinality

namespace JsonValue

/-! ### Numbers -/

/-- A text in front of which a number may end. -/
def EndsNumber (chars : List Char) : Prop :=
  ∀ c ∈ chars.head?, c.isDigit = false ∧ c ≠ '.' ∧ c ≠ 'e' ∧ c ≠ 'E'

theorem endsNumber_nil : EndsNumber [] := by
  simp [EndsNumber]

/-- What stands behind a value inside another one ends a number. -/
theorem endsNumber_cons {c : Char} (hc : c ∈ [',', ']', '\x7d']) (chars : List Char) :
    EndsNumber (c :: chars) := by
  simp only [List.mem_cons, List.not_mem_nil, or_false] at hc
  rcases hc with rfl | rfl | rfl <;> simp [EndsNumber]

theorem natOfDigits_toDigits (n : Nat) : natOfDigits (Nat.toDigits 10 n) = n :=
  Nat.ofDigitChars_ten_toDigits

variable {rest : List Char}

theorem spanDigits_toDigits (n : Nat) (hrest : EndsNumber rest) :
    spanDigits (Nat.toDigits 10 n ++ rest) = (Nat.toDigits 10 n, rest) := by
  have hdigit : ∀ d < 10, (Nat.digitChar d).isDigit = true := by decide
  have hstop : ∀ c ∈ rest.head?, c.isDigit = false := fun c hc => (hrest c hc).1
  rw [spanDigits, takeWhile_toDigits (by decide) hdigit hstop,
    dropWhile_toDigits (by decide) hdigit hstop]

theorem readDigits_toDigits (n : Nat) (hrest : EndsNumber rest) :
    readDigits (Nat.toDigits 10 n ++ rest) = some (Nat.toDigits 10 n, rest) := by
  have hne : Nat.toDigits 10 n ≠ [] := Nat.toDigits_ne_nil
  rw [readDigits, spanDigits_toDigits n hrest]
  split
  · simp_all
  · rfl

theorem readFraction_of_endsNumber (hrest : EndsNumber rest) :
    readFraction rest = some (false, rest) := by
  unfold readFraction
  split
  · exact absurd rfl (hrest '.' rfl).2.1
  · rfl

theorem readExponent_of_endsNumber (hrest : EndsNumber rest) :
    readExponent rest = some (false, rest) := by
  cases rest with
  | nil => rfl
  | cons c rest =>
    obtain ⟨-, -, he, hE⟩ := hrest c rfl
    rw [readExponent, if_neg (not_or.mpr ⟨he, hE⟩)]

/-- **A number is read back.** A minus sign in front of a zero has no whole number. -/
theorem readNumber_toDigits (isNegative : Bool) (n : Nat) (hrest : EndsNumber rest) :
    readNumber isNegative (Nat.toDigits 10 n ++ rest) =
      some (if isNegative && n = 0 then real else int (if isNegative then -(n : Int) else n),
        rest) := by
  have hzeros : ¬((Nat.toDigits 10 n).head? = some '0' ∧ 1 < (Nat.toDigits 10 n).length) :=
    fun h => absurd (length_toDigits_of_head? (by decide) h.1) (Nat.ne_of_gt h.2)
  have hguard : (guard ¬((Nat.toDigits 10 n).head? = some '0' ∧
      1 < (Nat.toDigits 10 n).length) : Option Unit) = some () :=
    (Option.guard_eq_some' ()).mpr hzeros
  simp only [readNumber, readDigits_toDigits n hrest, readFraction_of_endsNumber hrest,
    readExponent_of_endsNumber hrest, natOfDigits_toDigits, hguard, Option.bind_eq_bind,
    Option.bind_some, Option.pure_def, Bool.false_or]
  split <;> rfl

/-! ### Strings -/

theorem readNumericEscape_of_lt {c : Char} (hc : c.toNat < 32) :
    readNumericEscape ('0' :: '0' :: hexDigit (c.toNat / 16) :: hexDigit (c.toNat % 16) :: rest) =
      some (some c, rest) := by
  have hunit : readHexUnit
      ('0' :: '0' :: hexDigit (c.toNat / 16) :: hexDigit (c.toNat % 16) :: rest) =
        some (c.toNat, rest) := by
    have hzero : hexValue? '0' = some 0 := hexValue?_hexDigit 0 (by decide)
    rw [readHexUnit, hzero, hexValue?_hexDigit _ (by omega), hexValue?_hexDigit _ (by omega)]
    simp [Nat.div_add_mod]
  have hlow : ¬(0xD800 ≤ c.toNat ∧ c.toNat < 0xDC00) := by omega
  have hhigh : ¬(0xDC00 ≤ c.toNat ∧ c.toNat < 0xE000) := by omega
  rw [readNumericEscape, hunit]
  simp [hlow, hhigh]

theorem numericEscape_eq (c : Char) :
    numericEscape c =
      ['\\', 'u', '0', '0', hexDigit (c.toNat / 16), hexDigit (c.toNat % 16)] := by
  simp only [numericEscape, hexDigit]
  split <;> split <;> rfl

variable {fuel : Nat} {read : List Char} {isText : Bool}

/-- One character of a string is read back. -/
theorem readString_escapeChar (c : Char) :
    readString (fuel + 1) read isText (escapeChar c ++ rest) =
      readString fuel (c :: read) isText rest := by
  unfold escapeChar
  -- The characters that have an escape of their own.
  iterate 7
    split
    · subst_vars
      rfl
  split
  · rename_i hc
    simp only [numericEscape_eq, List.cons_append, List.nil_append, readString, readEscape,
      readNumericEscape_of_lt hc]
  · rename_i hquote hbackslash _ _ _ _ _ hc
    rw [List.singleton_append, readString, if_neg hc]
    · exact hquote
    · exact hbackslash

/-- The characters of a string are read back one by one. -/
theorem readString_flatMap (cs : List Char) (hfuel : cs.length < fuel) :
    readString fuel read true (cs.flatMap escapeChar ++ '"' :: rest) =
      some (some (String.ofList (read.reverse ++ cs)), rest) := by
  induction cs generalizing fuel read with
  | nil =>
    obtain ⟨fuel, rfl⟩ := Nat.exists_eq_succ_of_ne_zero (Nat.ne_of_gt hfuel)
    simp [readString]
  | cons c cs ih =>
    obtain ⟨fuel, rfl⟩ := Nat.exists_eq_succ_of_ne_zero (Nat.ne_of_gt (Nat.zero_lt_of_lt hfuel))
    rw [List.flatMap_cons, List.append_assoc, readString_escapeChar,
      ih (Nat.lt_of_succ_lt_succ hfuel), List.reverse_cons, List.append_assoc,
      List.singleton_append]

theorem length_escapeChar_pos (c : Char) : 0 < (escapeChar c).length := by
  unfold escapeChar
  repeat' split
  all_goals exact Nat.zero_lt_succ _

theorem length_le_length_flatMap_escapeChar (cs : List Char) :
    cs.length ≤ (cs.flatMap escapeChar).length := by
  induction cs with
  | nil => exact Nat.zero_le _
  | cons c cs ih =>
    have hc := length_escapeChar_pos c
    rw [List.flatMap_cons, List.length_append, List.length_cons]
    omega

/-- **A string is read back,** also one without a text. -/
theorem readQuoted_stringChars (s : Option String) :
    readQuoted (stringChars s ++ rest) = some (s, rest) := by
  cases s with
  | none => rfl
  | some s =>
    have hlength := length_le_length_flatMap_escapeChar s.toList
    rw [stringChars, List.cons_append, List.append_assoc, List.singleton_append, readQuoted,
      readString_flatMap s.toList (by rw [List.length_append]; omega)]
    simp

/-! ### What a written value starts with -/

theorem isBlank_of_isDigit {c : Char} (hc : c.isDigit = true) : isBlank c = false := by
  by_contra h
  simp only [isBlank, Bool.not_eq_false, Bool.or_eq_true, decide_eq_true_eq] at h
  rcases h with ((rfl | rfl) | rfl) | rfl <;> exact absurd hc (by decide)

theorem skipBlanks_cons {c : Char} (hc : isBlank c = false) (chars : List Char) :
    skipBlanks (c :: chars) = c :: chars := by
  simp [skipBlanks, hc]

theorem exists_toDigits_eq_cons (n : Nat) :
    ∃ c digits, Nat.toDigits 10 n = c :: digits ∧ c.isDigit = true := by
  obtain ⟨c, digits, h⟩ := List.exists_cons_of_ne_nil (Nat.toDigits_ne_nil (b := 10) (n := n))
  have hc : c ∈ Nat.toDigits 10 n := h ▸ List.mem_cons_self
  exact ⟨c, digits, h, Nat.isDigit_of_mem_toDigits (by decide) (by decide) hc⟩

/-- A written value starts with a character that is no blank and closes no array. -/
theorem exists_chars_eq_cons (v : JsonValue) :
    ∃ c tail, v.chars = c :: tail ∧ isBlank c = false ∧ c ≠ ']' := by
  match v with
  | null => exact ⟨_, _, rfl, by decide, by decide⟩
  | bool true => exact ⟨_, _, rfl, by decide, by decide⟩
  | bool false => exact ⟨_, _, rfl, by decide, by decide⟩
  | int (.ofNat n) =>
    obtain ⟨c, digits, h, hc⟩ := exists_toDigits_eq_cons n
    refine ⟨c, digits, h, isBlank_of_isDigit hc, ?_⟩
    rintro rfl
    exact absurd hc (by decide)
  | int (.negSucc n) => exact ⟨_, _, rfl, by decide, by decide⟩
  | real => exact ⟨_, _, rfl, by decide, by decide⟩
  | string (some s) => exact ⟨_, _, rfl, by decide, by decide⟩
  | string none => exact ⟨_, _, rfl, by decide, by decide⟩
  | array items => exact ⟨_, _, rfl, by decide, by decide⟩
  | object members => exact ⟨_, _, rfl, by decide, by decide⟩

theorem length_chars_pos (v : JsonValue) : 0 < v.chars.length := by
  obtain ⟨c, tail, h, -⟩ := exists_chars_eq_cons v
  rw [h]
  exact Nat.zero_lt_succ _

theorem itemChars_cons_cons (v w : JsonValue) (items : List JsonValue) :
    itemChars (v :: w :: items) = v.chars ++ ',' :: itemChars (w :: items) := by
  rw [itemChars]
  simp

theorem memberChars_cons_cons (k : Option String) (v : JsonValue) (m : Option String × JsonValue)
    (members : List (Option String × JsonValue)) :
    memberChars ((k, v) :: m :: members) =
      stringChars k ++ ':' :: (v.chars ++ ',' :: memberChars (m :: members)) := by
  rw [memberChars]
  simp

/-- The elements of an array start like the first of them. -/
theorem exists_itemChars_eq_cons (v : JsonValue) (items : List JsonValue) :
    ∃ c tail, itemChars (v :: items) = c :: tail ∧ isBlank c = false ∧ c ≠ ']' := by
  obtain ⟨c, tail, h, hc⟩ := exists_chars_eq_cons v
  cases items with
  | nil => exact ⟨c, tail, by rw [itemChars, h], hc⟩
  | cons w items => exact ⟨c, _, by rw [itemChars_cons_cons, h, List.cons_append], hc⟩

theorem exists_stringChars_eq_cons (s : Option String) : ∃ tail, stringChars s = '"' :: tail := by
  cases s <;> exact ⟨_, rfl⟩

/-- The members of an object start with the quote of a key. -/
theorem exists_memberChars_eq_cons (m : Option String × JsonValue)
    (members : List (Option String × JsonValue)) :
    ∃ tail, memberChars (m :: members) = '"' :: tail := by
  obtain ⟨k, v⟩ := m
  obtain ⟨tail, h⟩ := exists_stringChars_eq_cons k
  cases members with
  | nil => exact ⟨_, by rw [memberChars, h, List.cons_append]⟩
  | cons n members => exact ⟨_, by rw [memberChars_cons_cons, h, List.cons_append]⟩

/-! ### One step of reading a value -/

theorem readValue_intChars (n : Int) (hrest : EndsNumber rest) :
    readValue (fuel + 1) (intChars n ++ rest) = some (int n, rest) := by
  cases n with
  | ofNat n =>
    obtain ⟨c, digits, h, hc⟩ := exists_toDigits_eq_cons n
    have hread := readNumber_toDigits false n hrest
    rw [h, List.cons_append] at hread
    rw [intChars, h, List.cons_append, readValue, skipBlanks_cons (isBlank_of_isDigit hc)]
    split <;> simp_all
  | negSucc n =>
    have hread := readNumber_toDigits true (n + 1) hrest
    rw [intChars, List.cons_append, readValue, skipBlanks_cons (by decide)]
    exact hread

theorem readValue_real (hrest : EndsNumber rest) :
    readValue (fuel + 1) ('-' :: '0' :: rest) = some (real, rest) := by
  rw [readValue, skipBlanks_cons (by decide)]
  exact readNumber_toDigits true 0 hrest

theorem readValue_stringChars (s : Option String) :
    readValue (fuel + 1) (stringChars s ++ rest) = some (string s, rest) := by
  obtain ⟨tail, h⟩ := exists_stringChars_eq_cons s
  have hread : readQuoted (stringChars s ++ rest) = some (s, rest) := readQuoted_stringChars s
  rw [h, List.cons_append] at hread
  rw [h, List.cons_append, readValue, skipBlanks_cons (by decide)]
  simp [hread]

section

variable {k : Option String} {v : JsonValue} {chars tail : List Char}
  {items : List JsonValue} {members : List (Option String × JsonValue)}

theorem readValue_itemChars (hitems : readItems fuel (itemChars (v :: items) ++ ']' :: rest) =
    some (v :: items, rest)) :
    readValue (fuel + 1) ((array (v :: items)).chars ++ rest) =
      some (array (v :: items), rest) := by
  obtain ⟨c, tail, h, hblank, hbracket⟩ := exists_itemChars_eq_cons v items
  rw [chars, List.cons_append, List.append_assoc, List.singleton_append, readValue,
    skipBlanks_cons (by decide)]
  rw [h, List.cons_append] at hitems ⊢
  simp only [skipBlanks_cons hblank]
  split
  · simp_all
  · simp [hitems]

theorem readValue_memberChars {m : Option String × JsonValue}
    (hmembers : readMembers fuel (memberChars (m :: members) ++ '\x7d' :: rest) =
      some (m :: members, rest)) :
    readValue (fuel + 1) ((object (m :: members)).chars ++ rest) =
      some (object (m :: members), rest) := by
  obtain ⟨tail, h⟩ := exists_memberChars_eq_cons m members
  rw [chars, List.cons_append, List.append_assoc, List.singleton_append, readValue,
    skipBlanks_cons (by decide)]
  rw [h, List.cons_append] at hmembers ⊢
  simp [skipBlanks_cons, isBlank, hmembers]

theorem readItems_singleton (h : readValue fuel chars = some (v, ']' :: rest)) :
    readItems (fuel + 1) chars = some ([v], rest) := by
  simp [readItems, h, skipBlanks_cons, isBlank]

theorem readItems_cons (h : readValue fuel chars = some (v, ',' :: tail))
    (htail : readItems fuel tail = some (items, rest)) :
    readItems (fuel + 1) chars = some (v :: items, rest) := by
  simp [readItems, h, htail, skipBlanks_cons, isBlank]

theorem readQuoted_skipBlanks_stringChars :
    readQuoted (skipBlanks (stringChars k ++ rest)) = some (k, rest) := by
  obtain ⟨tail, h⟩ := exists_stringChars_eq_cons k
  have hread : readQuoted (stringChars k ++ rest) = some (k, rest) := readQuoted_stringChars k
  rw [h, List.cons_append] at hread ⊢
  rw [skipBlanks_cons (by decide), hread]

theorem readMembers_singleton (h : readValue fuel chars = some (v, '\x7d' :: rest)) :
    readMembers (fuel + 1) (stringChars k ++ ':' :: chars) = some ([(k, v)], rest) := by
  simp [readMembers, readQuoted_skipBlanks_stringChars, h, skipBlanks_cons, isBlank]

theorem readMembers_cons (h : readValue fuel chars = some (v, ',' :: tail))
    (htail : readMembers fuel tail = some (members, rest)) :
    readMembers (fuel + 1) (stringChars k ++ ':' :: chars) = some ((k, v) :: members, rest) := by
  simp [readMembers, readQuoted_skipBlanks_stringChars, h, htail, skipBlanks_cons, isBlank]

end

/-! ### Whole values

Reading a value takes one unit of the bound, and so does every element or member in it. As there
are commas between these and brackets around them, twice the length of the text is enough. -/

mutual

/-- **A value is read back** from its written form, with anything behind it that ends a number. -/
theorem readValue_chars (v : JsonValue) (fuel : Nat) (rest : List Char)
    (hfuel : 2 * v.chars.length ≤ fuel) (hrest : EndsNumber rest) :
    readValue fuel (v.chars ++ rest) = some (v, rest) := by
  have hpos := length_chars_pos v
  obtain ⟨fuel, rfl⟩ : ∃ n, fuel = n + 1 := ⟨fuel - 1, by omega⟩
  match v with
  | null => rfl
  | bool true => rfl
  | bool false => rfl
  | int n => exact readValue_intChars n hrest
  | real => exact readValue_real hrest
  | string s => exact readValue_stringChars s
  | array [] => rfl
  | array (v :: items) =>
    refine readValue_itemChars (readItems_itemChars (v :: items) fuel rest ?_ (by simp))
    simp only [chars, List.length_cons, List.length_append] at hfuel
    omega
  | object [] => rfl
  | object (m :: members) =>
    refine readValue_memberChars (readMembers_memberChars (m :: members) fuel rest ?_ (by simp))
    simp only [chars, List.length_cons, List.length_append] at hfuel
    omega

/-- The elements of an array are read back up to its closing bracket. -/
theorem readItems_itemChars (items : List JsonValue) (fuel : Nat) (rest : List Char)
    (hfuel : 2 * (itemChars items).length + 1 ≤ fuel) (hne : items ≠ []) :
    readItems fuel (itemChars items ++ ']' :: rest) = some (items, rest) := by
  obtain ⟨fuel, rfl⟩ : ∃ n, fuel = n + 1 := ⟨fuel - 1, by omega⟩
  match items with
  | [] => exact absurd rfl hne
  | [v] =>
    exact readItems_singleton
      (readValue_chars v fuel _ (Nat.le_of_succ_le_succ hfuel) (endsNumber_cons (by decide) rest))
  | v :: w :: items =>
    rw [itemChars_cons_cons, List.length_append, List.length_cons] at hfuel
    rw [itemChars_cons_cons, List.append_assoc, List.cons_append]
    exact readItems_cons (readValue_chars v fuel _ (by omega) (endsNumber_cons (by decide) _))
      (readItems_itemChars (w :: items) fuel rest (by omega) (by simp))

/-- The members of an object are read back up to its closing brace. -/
theorem readMembers_memberChars (members : List (Option String × JsonValue)) (fuel : Nat)
    (rest : List Char) (hfuel : 2 * (memberChars members).length + 1 ≤ fuel)
    (hne : members ≠ []) :
    readMembers fuel (memberChars members ++ '\x7d' :: rest) = some (members, rest) := by
  obtain ⟨fuel, rfl⟩ : ∃ n, fuel = n + 1 := ⟨fuel - 1, by omega⟩
  match members with
  | [] => exact absurd rfl hne
  | [(k, v)] =>
    rw [memberChars, List.length_append, List.length_cons] at hfuel
    rw [memberChars, List.append_assoc, List.cons_append]
    exact readMembers_singleton
      (readValue_chars v fuel _ (by omega) (endsNumber_cons (by decide) rest))
  | (k, v) :: m :: members =>
    rw [memberChars_cons_cons, List.length_append, List.length_cons, List.length_append,
      List.length_cons] at hfuel
    rw [memberChars_cons_cons, List.append_assoc, List.cons_append, List.append_assoc,
      List.cons_append]
    exact readMembers_cons (readValue_chars v fuel _ (by omega) (endsNumber_cons (by decide) _))
      (readMembers_memberChars (m :: members) fuel rest (by omega) (by simp))

end

/-- **A value is read back from its text,** whatever it holds. -/
theorem parse?_render (v : JsonValue) : parse? v.render = some v := by
  have hread := readValue_chars v (2 * v.chars.length + 2) [] (Nat.le_add_right ..) endsNumber_nil
  rw [List.append_nil] at hread
  simp only [parse?, render, String.toList_ofList, hread]
  rfl

end JsonValue

end QuorumFinality
