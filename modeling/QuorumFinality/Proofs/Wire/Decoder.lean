import Mathlib.Data.List.Forall2
import QuorumFinality.Bytes.Lemmas
import QuorumFinality.Proofs.Except
import QuorumFinality.Wire.Decoder

/-!
# What decoders accept

A decoder that succeeds has taken some bytes from the front of a byte string and left the others
alone. Which bytes it takes for a value is a relation between values and byte strings, its *code*.
Most values stand for a single byte string, but a flag, for example, may be set by any of 255 bytes.

Codes are put together like the decoders themselves, step by step. So what a decoder accepts is
read off its definition, and what remains to be seen is that this is what is written.

## Main definitions

* `Decoder.Reads` — a decoder accepts exactly the byte strings of a code

## Main results

* `Decoder.Reads.bind` — a step after another one
* `Decoder.Reads.times` — values in a row
* `Decoder.Reads.all_eq_ok_iff` — a value that spans the bytes
* `Decoder.Reads.front_append` — a value that other bytes follow
-/

namespace QuorumFinality

namespace Decoder

variable {α β : Type} {d : Decoder α} {IsCode IsCode' : α → Bytes → Prop}

/-- The decoder accepts exactly the byte strings that start with the code of a value, and leaves
what follows. -/
def Reads (d : Decoder α) (IsCode : α → Bytes → Prop) : Prop :=
  ∀ bytes a rest, d.run bytes = .ok (a, rest) ↔ ∃ code, IsCode a code ∧ bytes = code ++ rest

theorem Reads.congr (h : d.Reads IsCode) (hcode : ∀ a code, IsCode a code ↔ IsCode' a code) :
    d.Reads IsCode' := by
  intro bytes a rest
  simp only [h bytes a rest, hcode]

/-- A value spans a byte string exactly if the byte string is its code. -/
theorem Reads.all_eq_ok_iff (h : d.Reads IsCode) {bytes : Bytes} {a : α} :
    d.all bytes = .ok a ↔ IsCode a bytes := by
  have hrun : d.all bytes = .ok a ↔ d.run bytes = .ok (a, []) := by
    simp only [all, bind_eq_ok_iff, Prod.exists]
    constructor
    · rintro ⟨a', rest, hrun, hend⟩
      cases rest with
      | nil => rw [hrun, Except.ok.inj hend]
      | cons byte rest => contradiction
    · exact fun hrun => ⟨a, [], hrun, rfl⟩
  simp [hrun, h bytes a []]

/-- What is made of a value that spans the bytes. -/
theorem Reads.map_all_eq_ok_iff (h : d.Reads IsCode) {g : α → β} {bytes : Bytes} {b : β} :
    g <$> d.all bytes = .ok b ↔ ∃ a, IsCode a bytes ∧ g a = b := by
  rw [show g <$> d.all bytes = (d.all bytes).map g from rfl, map_eq_ok_iff]
  simp only [h.all_eq_ok_iff]

/-- A value stands at the front of a byte string exactly if its code does. -/
theorem Reads.front_eq_ok_iff (h : d.Reads IsCode) {bytes : Bytes} {a : α} {n : Nat} :
    d.front bytes = .ok (a, n) ↔ n ≤ bytes.length ∧ IsCode a (bytes.take n) := by
  have hrun : d.front bytes = .ok (a, n) ↔
      ∃ rest, d.run bytes = .ok (a, rest) ∧ bytes.length - rest.length = n := by
    simp only [front, bind_eq_ok_iff, Prod.exists]
    constructor
    · rintro ⟨a', rest, hrun, hend⟩
      obtain ⟨rfl, rfl⟩ := Prod.mk.inj (Except.ok.inj hend)
      exact ⟨rest, hrun, rfl⟩
    · rintro ⟨rest, hrun, rfl⟩
      exact ⟨a, rest, hrun, rfl⟩
  rw [hrun]
  constructor
  · rintro ⟨rest, hread, rfl⟩
    obtain ⟨code, hcode, rfl⟩ := (h _ _ _).mp hread
    have hlength : (code ++ rest).length - rest.length = code.length := by
      rw [List.length_append, Nat.add_sub_cancel]
    rw [hlength, List.take_left]
    exact ⟨by rw [List.length_append]; exact Nat.le_add_right _ _, hcode⟩
  · rintro ⟨hle, hcode⟩
    refine ⟨bytes.drop n, (h _ _ _).mpr ⟨_, hcode, (List.take_append_drop n bytes).symm⟩, ?_⟩
    rw [List.length_drop, Nat.sub_sub_self hle]

/-- What goes wrong at the front of a byte string goes wrong in reading. -/
theorem front_eq_error_iff {bytes : Bytes} {error : DecodeError} :
    d.front bytes = .error error ↔ d.run bytes = .error error := by
  rw [front]
  cases d.run bytes with
  | ok r => exact iff_of_false nofun nofun
  | error error' =>
    constructor
    · intro h
      rw [Except.error.inj h]
    · intro h
      rw [Except.error.inj h]
      rfl

/-- **A code is read whatever follows it,** and nothing of what follows is read. -/
theorem Reads.front_append (h : d.Reads IsCode) {a : α} {code : Bytes} (hcode : IsCode a code)
    (rest : Bytes) : d.front (code ++ rest) = .ok (a, code.length) := by
  rw [h.front_eq_ok_iff, List.take_left]
  exact ⟨by rw [List.length_append]; exact Nat.le_add_right _ _, hcode⟩

/-- Values are told apart by their codes, whatever follows these. -/
theorem Reads.append_inj (h : d.Reads IsCode) {a b : α} {code code' rest rest' : Bytes}
    (ha : IsCode a code) (hb : IsCode b code') (heq : code ++ rest = code' ++ rest') :
    a = b ∧ rest = rest' := by
  have hread : d.run (code ++ rest) = .ok (a, rest) := (h _ _ _).mpr ⟨code, ha, rfl⟩
  have hread' : d.run (code ++ rest) = .ok (b, rest') := (h _ _ _).mpr ⟨code', hb, heq⟩
  rw [hread] at hread'
  exact Prod.mk.inj (Except.ok.inj hread')

/-! ### Steps -/

theorem Reads.pure (a : α) :
    (Pure.pure a : Decoder α).Reads fun a' code => a = a' ∧ code = [] := by
  intro bytes a' rest
  rw [StateT.run_pure]
  simp [Pure.pure, Except.pure]

/-- **A step after another one** accepts the code of the first value and, behind it, the code that
depends on that value. -/
theorem Reads.bind {f : α → Decoder β} {Next : α → β → Bytes → Prop} (h : d.Reads IsCode)
    (hf : ∀ a, (f a).Reads (Next a)) : (d >>= f).Reads fun b code =>
      ∃ a own, IsCode a own ∧ ∃ next, Next a b next ∧ code = own ++ next := by
  intro bytes b rest
  rw [StateT.run_bind, bind_eq_ok_iff, Prod.exists]
  constructor
  · rintro ⟨a, mid, hrun, hrun'⟩
    obtain ⟨own, hown, rfl⟩ := (h _ _ _).mp hrun
    obtain ⟨next, hnext, rfl⟩ := (hf a _ _ _).mp hrun'
    exact ⟨own ++ next, ⟨a, own, hown, next, hnext, rfl⟩, (List.append_assoc _ _ _).symm⟩
  · rintro ⟨_, ⟨a, own, hown, next, hnext, rfl⟩, rfl⟩
    exact ⟨a, next ++ rest, (h _ _ _).mpr ⟨own, hown, List.append_assoc _ _ _⟩,
      (hf a _ _ _).mpr ⟨next, hnext, rfl⟩⟩

section

variable {P : α → Bytes → Prop} {Q : α → Prop} {Next : α → Bytes → Prop} {a : α}
  {own next code : Bytes}

/-- A code for two steps starts with one for the first step. -/
theorem exists_code_append (h : P a own) (hnext : Next a next) :
    ∃ a' own', P a' own' ∧ ∃ next', Next a' next' ∧ own ++ next = own' ++ next' :=
  ⟨a, own, h, next, hnext, rfl⟩

/-- It is one for the second step if nothing is read in the first one. -/
theorem exists_code_of_nil (h : Q a) (hnext : Next a code) :
    ∃ a' own, (Q a' ∧ own = []) ∧ ∃ next, Next a' next ∧ code = own ++ next :=
  ⟨a, [], ⟨h, rfl⟩, code, hnext, rfl⟩

/-- It is one for the first step if nothing is read in the second one. -/
theorem exists_code_last (h : P a code) (hlast : Q a) :
    ∃ a' own, P a' own ∧ ∃ next, (Q a' ∧ next = []) ∧ code = own ++ next :=
  ⟨a, code, h, [], ⟨hlast, rfl⟩, (List.append_nil code).symm⟩

end

theorem Reads.map (g : α → β) (h : d.Reads IsCode) :
    (g <$> d).Reads fun b code => ∃ a, IsCode a code ∧ g a = b := by
  rw [map_eq_pure_bind]
  refine (h.bind fun a => Reads.pure (g a)).congr fun b code => ?_
  constructor
  · rintro ⟨a, own, hown, _, ⟨rfl, rfl⟩, rfl⟩
    exact ⟨a, by rwa [List.append_nil], rfl⟩
  · rintro ⟨a, hcode, rfl⟩
    exact ⟨a, code, hcode, [], ⟨rfl, rfl⟩, (List.append_nil code).symm⟩

theorem Reads.ite {c : Prop} {_ : Decidable c} {d' : Decoder α} (h : d.Reads IsCode)
    (h' : d'.Reads IsCode') : (if c then d else d').Reads fun a code =>
      (c ∧ IsCode a code) ∨ (¬ c ∧ IsCode' a code) := by
  by_cases hc : c
  · simpa [hc] using h
  · simpa [hc] using h'

/-- A step after a choice, which stands in both branches. -/
theorem Reads.ite_bind {c : Prop} {_ : Decidable c} {d' : Decoder α} {f : α → Decoder β}
    {Next : α → β → Bytes → Prop} (h : d.Reads IsCode) (h' : d'.Reads IsCode')
    (hf : ∀ a, (f a).Reads (Next a)) : (if c then d >>= f else d' >>= f).Reads fun b code =>
      ∃ a own, ((c ∧ IsCode a own) ∨ (¬ c ∧ IsCode' a own)) ∧
        ∃ next, Next a b next ∧ code = own ++ next := by
  by_cases hc : c
  · simpa [hc] using h.bind hf
  · simpa [hc] using h'.bind hf

/-- Once the first value is read, the second step goes on with what follows it. -/
theorem run_bind_of_eq_ok {f : α → Decoder β} {bytes rest : Bytes} {a : α}
    (h : d.run bytes = .ok (a, rest)) : (d >>= f).run bytes = (f a).run rest := by
  rw [StateT.run_bind, h]
  rfl

theorem run_require_bind (rule : Prop) [Decidable rule] (error : DecodeError)
    (f : Unit → Decoder α) (bytes : Bytes) : (require rule error >>= f).run bytes =
      if rule then (f ()).run bytes else .error error := by
  rw [require]
  split <;> rfl

theorem reads_ofExcept (result : Except DecodeError α) :
    (ofExcept result).Reads fun a code => result = .ok a ∧ code = [] := by
  cases result with
  | ok a =>
    exact (Reads.pure a).congr fun a' code => by rw [Except.ok.injEq]
  | error error =>
    intro bytes a rest
    simp [ofExcept, StateT.lift, StateT.run, Bind.bind, Except.bind]

theorem reads_require (rule : Prop) [Decidable rule] (error : DecodeError) :
    (require rule error).Reads fun _ code => rule ∧ code = [] := by
  by_cases h : rule
  · rw [require, if_pos h]
    exact (Reads.pure ()).congr fun u code => by simp [h]
  · rw [require, if_neg h]
    exact (reads_ofExcept (.error error)).congr fun u code => by simp [h]

/-- Taking bytes fails only for want of bytes. -/
theorem run_take (n : Nat) (bytes : Bytes) : (take n).run bytes =
    if bytes.length < n then .error .unexpectedEnd else .ok (bytes.take n, bytes.drop n) := by
  simp only [take, StateT.run]
  by_cases h : bytes.length < n
  · have hlength : (bytes.take n).length ≠ n := by
      rw [List.length_take]
      omega
    rw [if_neg hlength, if_pos h]
  · rw [if_pos (List.length_take_of_le (Nat.not_lt.mp h)), if_neg h]

theorem reads_take (n : Nat) : (take n).Reads fun head code => head.length = n ∧ code = head := by
  intro bytes head rest
  rw [run_take]
  constructor
  · intro h
    split_ifs at h with hshort
    obtain ⟨rfl, rfl⟩ := Prod.mk.inj (Except.ok.inj h)
    exact ⟨_, ⟨List.length_take_of_le (Nat.not_lt.mp hshort), rfl⟩,
      (List.take_append_drop n bytes).symm⟩
  · rintro ⟨_, ⟨rfl, rfl⟩, rfl⟩
    simp

theorem reads_fixed (n : Nat) : (fixed n).Reads fun head code => code = head.toList := by
  intro bytes head rest
  simp only [fixed, StateT.run]
  constructor
  · intro h
    split at h
    · simp only [Except.ok.injEq, Prod.mk.injEq] at h
      obtain ⟨rfl, rfl⟩ := h
      exact ⟨_, rfl, (List.take_append_drop n bytes).symm⟩
    · contradiction
  · rintro ⟨_, rfl, rfl⟩
    simp [List.take_left' head.length_toList, List.drop_left' head.length_toList,
      head.length_toList]

theorem run_nat (width : Nat) (bytes : Bytes) : (nat width).run bytes =
    if bytes.length < width then .error .unexpectedEnd
    else .ok (ofLittleEndian (bytes.take width), bytes.drop width) := by
  rw [nat, StateT.run_map, run_take]
  split <;> rfl

/-- A number is read from its bytes, and every number is that fits. -/
theorem reads_nat (width : Nat) :
    (nat width).Reads fun n code => n < 256 ^ width ∧ code = littleEndian width n := by
  refine ((reads_take width).map ofLittleEndian).congr fun n code => ?_
  constructor
  · rintro ⟨head, ⟨hlength, rfl⟩, rfl⟩
    subst hlength
    exact ⟨ofLittleEndian_lt code, (littleEndian_ofLittleEndian code).symm⟩
  · rintro ⟨hlt, rfl⟩
    exact ⟨_, ⟨length_littleEndian width n, rfl⟩, ofLittleEndian_littleEndian_of_lt hlt⟩

/-! ### What is left to read -/

/-- A value that spans the bytes and is read in two steps: the second one spans what the first one
leaves. It need not have a code of its own, as it may look at how many bytes there are. -/
theorem Reads.all_bind_eq_ok_iff {f : α → Decoder β} (h : d.Reads IsCode) {bytes : Bytes} {b : β} :
    (d >>= f).all bytes = .ok b ↔
      ∃ a own rest, IsCode a own ∧ bytes = own ++ rest ∧ (f a).all rest = .ok b := by
  have hall : (d >>= f).all bytes = .ok b ↔
      ∃ a rest, d.run bytes = .ok (a, rest) ∧ (f a).all rest = .ok b := by
    rw [all, StateT.run_bind, bind_assoc, bind_eq_ok_iff, Prod.exists]
    rfl
  rw [hall]
  constructor
  · rintro ⟨a, rest, hrun, hrest⟩
    obtain ⟨own, hown, rfl⟩ := (h _ _ _).mp hrun
    exact ⟨a, own, rest, hown, rfl, hrest⟩
  · rintro ⟨a, own, rest, hown, rfl, hrest⟩
    exact ⟨a, rest, (h _ _ _).mpr ⟨own, hown, rfl⟩, hrest⟩

/-- Once the first value is known, the second step goes on with what follows it, whatever comes of
this. -/
theorem Reads.all_bind_append {f : α → Decoder β} (h : d.Reads IsCode) {a : α} {own : Bytes}
    (hown : IsCode a own) (rest : Bytes) : (d >>= f).all (own ++ rest) = (f a).all rest := by
  have hrun : d.run (own ++ rest) = .ok (a, rest) := (h _ _ _).mpr ⟨own, hown, rfl⟩
  rw [all, StateT.run_bind, hrun]
  rfl

/-- A rule is kept or broken before anything is read. -/
theorem all_require_bind (rule : Prop) [Decidable rule] (error : DecodeError)
    (f : Unit → Decoder α) (bytes : Bytes) : (require rule error >>= f).all bytes =
      if rule then (f ()).all bytes else .error error := by
  rw [require]
  split <;> rfl

/-- All that is left is what there is when nothing has been read. -/
theorem all_rest_bind (f : Bytes → Decoder α) (bytes : Bytes) :
    (rest >>= f).all bytes = (f bytes).all bytes :=
  rfl

/-! ### Rows -/

/-- **Values in a row** are read from their codes in a row. -/
theorem Reads.times (h : d.Reads IsCode) (n : Nat) :
    (d.times n).Reads fun values code => values.length = n ∧
      ∃ codes, List.Forall₂ IsCode values codes ∧ code = codes.flatten := by
  suffices hgo : ∀ read, (times.go d n read).Reads fun values code =>
      ∃ later codes, values = read.reverse ++ later ∧ later.length = n ∧
        List.Forall₂ IsCode later codes ∧ code = codes.flatten by
    exact (hgo []).congr fun values code => by simp
  induction n with
  | zero =>
    intro read
    refine (Reads.pure read.reverse).congr fun values code => ?_
    constructor
    · rintro ⟨rfl, rfl⟩
      exact ⟨[], [], by simp⟩
    · rintro ⟨later, codes, rfl, hlength, hcodes, rfl⟩
      rw [List.length_eq_zero_iff] at hlength
      subst hlength
      cases hcodes
      simp
  | succ n ih =>
    intro read
    refine (h.bind fun a => ih (a :: read)).congr fun values code => ?_
    constructor
    · rintro ⟨a, own, hown, _, ⟨later, codes, rfl, rfl, hcodes, rfl⟩, rfl⟩
      exact ⟨a :: later, own :: codes, by simp, rfl, .cons hown hcodes, rfl⟩
    · rintro ⟨later, codes, rfl, hlength, hcodes, rfl⟩
      cases hcodes with
      | nil => contradiction
      | @cons a own later codes hown hcodes =>
        exact ⟨a, own, hown, codes.flatten,
          ⟨later, codes, by simp, Nat.succ.inj hlength, hcodes, rfl⟩, rfl⟩

end Decoder

end QuorumFinality
