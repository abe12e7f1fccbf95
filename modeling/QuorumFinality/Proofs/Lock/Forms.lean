import Mathlib.Algebra.Group.Nat.Even
import QuorumFinality.Lock.InstantLock
import QuorumFinality.Proofs.Wire.Transaction

/-!
# The two forms of an instant lock

The bytes of a lock do not say which form they have: where the deterministic form has its version,
the plain form has the count of its inputs. Still no byte string has both forms, and this can be
seen from the length alone. A count takes one, three, five or nine bytes, which is an odd number,
and a spent output takes thirty-six. The hash of the transaction and the signature are even too, so
the plain form is odd. The deterministic form has the cycle hash in addition, which is even, and
the single byte of the version. So it is even.

Each form is read from the bytes that are written for it and from no others. One way of getting the
deterministic form wrong has an error of its own: if the cycle hash is left out, the reader finds a
signature alone where the hash should start, and says that the hash is missing.

## Main definitions

* `InstantLock.Fits` — locks whose parts can be read in their form

## Main results

* `InstantLock.ofBytes_eq_ok_iff` — what is read in the plain form
* `InstantLock.ofDeterministicBytes_eq_ok_iff` — what is read in the deterministic form
* `InstantLock.ofDeterministicBytes_of_missing` — what is read without the cycle hash
* `InstantLock.reads_both_forms` — each form is read from what is written for it
* `InstantLock.even_size_iff` — which form has an even length
* `InstantLock.not_both_forms` — no byte string has both forms
-/

namespace QuorumFinality

open Decoder

/-- Every count takes an odd number of bytes. -/
theorem CompactSize.odd_size (n : UInt64) : Odd (size n) := by
  unfold size
  repeat' split
  all_goals decide

/-- A list of spent outputs takes an odd number of bytes, that of its count. -/
theorem OutPoint.odd_size_list (outputs : List OutPoint) : Odd (Wire.size outputs) := by
  have hsize (outputs : List OutPoint) (n : Nat) :
      outputs.foldl (fun size output => size + Wire.size output) n = n + 36 * outputs.length := by
    induction outputs generalizing n with
    | nil => rfl
    | cons output outputs ih =>
      rw [List.foldl_cons, ih, List.length_cons, show Wire.size output = 36 from rfl]
      omega
  have hcount := CompactSize.odd_size (UInt64.ofNat outputs.length)
  have heven : Even (36 * outputs.length) := (show Even 36 by decide).mul_right _
  rw [show Wire.size outputs = outputs.foldl (fun size output => size + Wire.size output)
    (CompactSize.size (UInt64.ofNat outputs.length)) from rfl, hsize]
  exact hcount.add_even heven

namespace InstantLock

/-- The parts of the lock can be read in its form: it spends an output, not more of them than a
reader takes, and has a cycle hash exactly in the deterministic form. -/
structure Fits (l : InstantLock) : Prop where
  /-- An output is spent. -/
  inputs_ne : l.inputs ≠ []
  /-- There are not too many of them. -/
  inputs : Readable l.inputs
  /-- The cycle is named in the deterministic form only. -/
  cycleHash : l.cycleHash.isSome = l.isDeterministic

theorem reads_decodeInputs : decodeInputs.Reads fun inputs code =>
    (inputs ≠ [] ∧ Readable inputs) ∧ code = Wire.encode inputs := by
  refine (reads_decode.bind fun inputs => (reads_require _ _).bind fun _ =>
    Reads.pure inputs).congr fun inputs code => ?_
  constructor
  · rintro ⟨inputs, _, ⟨hinputs, rfl⟩, _, ⟨⟨⟩, _, ⟨hne, rfl⟩, _, ⟨rfl, rfl⟩, rfl⟩, rfl⟩
    exact ⟨⟨hne, hinputs⟩, List.append_nil _⟩
  · rintro ⟨⟨hne, hinputs⟩, rfl⟩
    exact ⟨inputs, _, ⟨hinputs, rfl⟩, [], ⟨(), [], ⟨hne, rfl⟩, [], ⟨rfl, rfl⟩, rfl⟩,
      (List.append_nil _).symm⟩

/-! ### The plain form -/

theorem encode_eq_ok_iff_of_plain {l : InstantLock} (hplain : l.isDeterministic = false)
    {bytes : Bytes} : l.encode = .ok bytes ↔
      bytes = Wire.encode l.inputs ++ (Wire.encode l.txid ++ Wire.encode l.signature) := by
  rw [encode, hplain, if_neg Bool.false_ne_true, Except.ok.injEq, List.append_assoc, eq_comm]

protected theorem reads_decode : decode.Reads fun l code =>
    l.isDeterministic = false ∧ l.Fits ∧ l.encode = .ok code := by
  refine (reads_decodeInputs.bind fun inputs => reads_decode.bind fun txid =>
    reads_decode.bind fun signature => Reads.pure _).congr fun l code => ?_
  constructor
  · rintro ⟨inputs, _, ⟨⟨hne, hinputs⟩, rfl⟩, _, ⟨txid, _, ⟨-, rfl⟩, _, ⟨signature, _, ⟨-, rfl⟩,
      _, ⟨rfl, rfl⟩, rfl⟩, rfl⟩, rfl⟩
    refine ⟨rfl, ⟨hne, hinputs, rfl⟩, ?_⟩
    rw [encode_eq_ok_iff_of_plain rfl, List.append_nil]
  · rintro ⟨hplain, hfits, hcode⟩
    rw [encode_eq_ok_iff_of_plain hplain] at hcode
    obtain ⟨version, inputs, txid, cycleHash, signature⟩ := l
    have hversion : version = 0 := by simpa [isDeterministic] using hplain
    have hcycle : cycleHash = none :=
      Option.not_isSome_iff_eq_none.mp (by rw [hfits.cycleHash, hplain]; exact Bool.false_ne_true)
    subst hversion hcycle
    exact ⟨inputs, _, ⟨⟨hfits.inputs_ne, hfits.inputs⟩, rfl⟩, _, ⟨txid, _, ⟨trivial, rfl⟩, _,
      exists_code_last ⟨trivial, rfl⟩ rfl, rfl⟩, hcode⟩

/-- **What is read in the plain form** is the wire form of a lock without a version. -/
theorem ofBytes_eq_ok_iff {bytes : Bytes} {l : InstantLock} : ofBytes bytes = .ok l ↔
    l.isDeterministic = false ∧ l.Fits ∧ l.encode = .ok bytes :=
  InstantLock.reads_decode.all_eq_ok_iff

/-! ### The deterministic form -/

theorem encode_eq_ok_iff_of_deterministic {l : InstantLock} (hdet : l.isDeterministic = true)
    {bytes : Bytes} : l.encode = .ok bytes ↔ ∃ cycleHash, l.cycleHash = some cycleHash ∧
      bytes = Wire.encode l.version ++ (Wire.encode l.inputs ++ (Wire.encode l.txid ++
        (Wire.encode cycleHash ++ Wire.encode l.signature))) := by
  rw [encode, if_pos hdet]
  cases l.cycleHash with
  | none => simp
  | some cycleHash => simp [eq_comm]

/-- What follows the hash of the transaction is a cycle hash and a signature. There are too many
bytes of them to be taken for a signature alone. -/
theorem all_decodeCycle_eq_ok_iff (f : CycleHash → SignatureBytes → InstantLock) {bytes : Bytes}
    {l : InstantLock} :
    (Decoder.rest >>= fun rest => require (rest.length ≠ 96) .missingCycleHash >>= fun _ =>
      (Wire.decode : Decoder CycleHash) >>= fun cycleHash =>
        (Wire.decode : Decoder SignatureBytes) >>= fun signature =>
          pure (f cycleHash signature)).all bytes = .ok l ↔
      ∃ cycleHash signature, f cycleHash signature = l ∧
        bytes = Wire.encode cycleHash ++ Wire.encode signature := by
  have hread := (reads_require (bytes.length ≠ 96) .missingCycleHash).bind fun _ =>
    (reads_decode (α := CycleHash)).bind fun cycleHash =>
      (reads_decode (α := SignatureBytes)).bind fun signature => Reads.pure (f cycleHash signature)
  rw [all_rest_bind, hread.all_eq_ok_iff]
  constructor
  · rintro ⟨⟨⟩, _, ⟨-, rfl⟩, _, ⟨cycleHash, _, ⟨-, rfl⟩, _, ⟨signature, _, ⟨-, rfl⟩, _,
      ⟨hl, rfl⟩, rfl⟩, rfl⟩, rfl⟩
    exact ⟨cycleHash, signature, hl, by rw [List.append_nil, List.nil_append]⟩
  · rintro ⟨cycleHash, signature, hl, rfl⟩
    have hlength : (Wire.encode cycleHash ++ Wire.encode signature).length ≠ 96 := by
      rw [List.length_append, length_encode, length_encode]
      exact (by decide : 32 + 96 ≠ 96)
    exact ⟨(), [], ⟨hlength, rfl⟩, _, ⟨cycleHash, _, ⟨trivial, rfl⟩, _,
      exists_code_last ⟨trivial, rfl⟩ hl, rfl⟩, rfl⟩

/-- **What is read in the deterministic form** is the wire form of a lock with a version. -/
theorem ofDeterministicBytes_eq_ok_iff {bytes : Bytes} {l : InstantLock} :
    ofDeterministicBytes bytes = .ok l ↔
      l.isDeterministic = true ∧ l.Fits ∧ l.encode = .ok bytes := by
  simp only [ofDeterministicBytes, decodeDeterministic, reads_decode.all_bind_eq_ok_iff,
    (reads_require _ _).all_bind_eq_ok_iff, reads_decodeInputs.all_bind_eq_ok_iff,
    all_decodeCycle_eq_ok_iff]
  constructor
  · rintro ⟨version, _, _, ⟨-, rfl⟩, rfl, ⟨⟩, _, _, ⟨hversion, rfl⟩, rfl, inputs, _, _,
      ⟨⟨hne, hinputs⟩, rfl⟩, rfl, txid, _, _, ⟨-, rfl⟩, rfl, cycleHash, signature, rfl, rfl⟩
    have hdet : (InstantLock.mk version inputs txid (some cycleHash) signature).isDeterministic =
        true := bne_iff_ne.mpr hversion
    exact ⟨hdet, ⟨hne, hinputs, hdet.symm⟩,
      (encode_eq_ok_iff_of_deterministic hdet).mpr ⟨cycleHash, rfl, rfl⟩⟩
  · rintro ⟨hdet, hfits, hcode⟩
    obtain ⟨cycleHash, hcycle, rfl⟩ := (encode_eq_ok_iff_of_deterministic hdet).mp hcode
    exact ⟨l.version, _, _, ⟨trivial, rfl⟩, rfl, (), [], _, ⟨bne_iff_ne.mp hdet, rfl⟩, rfl,
      l.inputs, _, _, ⟨⟨hfits.inputs_ne, hfits.inputs⟩, rfl⟩, rfl, l.txid, _, _, ⟨trivial, rfl⟩, rfl,
      cycleHash, l.signature, by rw [← hcycle], rfl⟩

/-- **A lock without its cycle hash** is not read in the deterministic form. What follows the hash
of the transaction is a signature alone, and the reader says what is missing. -/
theorem ofDeterministicBytes_of_missing {l : InstantLock} (hdet : l.isDeterministic = true)
    (hfits : l.Fits) : ofDeterministicBytes (Wire.encode l.version ++ (Wire.encode l.inputs ++
      (Wire.encode l.txid ++ Wire.encode l.signature))) = .error .missingCycleHash := by
  have hversion : l.version ≠ 0 := bne_iff_ne.mp hdet
  have hlength : (Wire.encode l.signature).length = 96 := length_encode l.signature
  rw [ofDeterministicBytes, decodeDeterministic, reads_decode.all_bind_append ⟨trivial, rfl⟩,
    all_require_bind, if_pos hversion,
    reads_decodeInputs.all_bind_append ⟨⟨hfits.inputs_ne, hfits.inputs⟩, rfl⟩,
    reads_decode.all_bind_append ⟨trivial, rfl⟩, all_rest_bind, all_require_bind,
    if_neg (not_not_intro hlength)]

/-! ### Both forms -/

/-- Thirty-six bytes of memory are reserved for each output. -/
theorem readable_inputs_iff {inputs : List OutPoint} :
    Readable inputs ↔ inputs.length ≤ 111111 := by
  change inputs.length ≤ maxListMemory / 36 ∧ (∀ output ∈ inputs, True) ↔ _
  simp [maxListMemory]

theorem fits_iff {l : InstantLock} : l.Fits ↔ l.cycleHash.isSome = l.isDeterministic ∧
    1 ≤ l.inputs.length ∧ l.inputs.length ≤ 111111 := by
  rw [← readable_inputs_iff, Nat.one_le_iff_ne_zero, ne_eq, List.length_eq_zero_iff]
  constructor
  · rintro ⟨hne, hinputs, hcycle⟩
    exact ⟨hcycle, hne, hinputs⟩
  · rintro ⟨hcycle, hne, hinputs⟩
    exact ⟨hne, hinputs, hcycle⟩

theorem isDeterministic_eq_false_iff {l : InstantLock} :
    l.isDeterministic = false ↔ l.version = 0 :=
  bne_eq_false_iff_eq

theorem isDeterministic_iff {l : InstantLock} : l.isDeterministic = true ↔ 1 ≤ l.version := by
  rw [isDeterministic, bne_iff_ne, UInt8.le_iff_toNat_le, ne_eq, ← UInt8.toNat_inj]
  exact Nat.one_le_iff_ne_zero.symm

/-- **Both forms are exact.** What is read in one of them is a lock of that form with at least one
input, and it is written as the bytes that were read. The other way round, a lock of that form with
one to 111111 inputs can be written and is read back from its bytes. And if the cycle hash is cut
out of the deterministic form, then what is left is refused because the hash is missing. -/
theorem reads_both_forms :
    (∀ bytes l, ofBytes bytes = .ok l →
      l.version = 0 ∧ l.cycleHash = none ∧ 1 ≤ l.inputs.length ∧ l.encode = .ok bytes) ∧
    (∀ bytes l, ofDeterministicBytes bytes = .ok l →
      1 ≤ l.version ∧ l.cycleHash.isSome ∧ 1 ≤ l.inputs.length ∧ l.encode = .ok bytes) ∧
    ∀ l : InstantLock, 1 ≤ l.inputs.length → l.inputs.length ≤ 111111 →
      (l.version = 0 → l.cycleHash = none →
        ∃ bytes, l.encode = .ok bytes ∧ ofBytes bytes = .ok l) ∧
      ∀ cycleHash, 1 ≤ l.version → l.cycleHash = some cycleHash →
        ∃ before, l.encode = .ok (before ++ Wire.encode cycleHash ++ Wire.encode l.signature) ∧
          ofDeterministicBytes (before ++ Wire.encode cycleHash ++ Wire.encode l.signature) =
            .ok l ∧
          ofDeterministicBytes (before ++ Wire.encode l.signature) = .error .missingCycleHash := by
  refine ⟨fun bytes l h => ?_, fun bytes l h => ?_, fun l hone hmany =>
    ⟨fun hversion hcycle => ?_, fun cycleHash hversion hcycle => ?_⟩⟩
  · obtain ⟨hplain, hfits, hencode⟩ := ofBytes_eq_ok_iff.mp h
    obtain ⟨hcycle, hone, -⟩ := fits_iff.mp hfits
    rw [hplain, Option.isSome_eq_false_iff, Option.isNone_iff_eq_none] at hcycle
    exact ⟨isDeterministic_eq_false_iff.mp hplain, hcycle, hone, hencode⟩
  · obtain ⟨hdet, hfits, hencode⟩ := ofDeterministicBytes_eq_ok_iff.mp h
    obtain ⟨hcycle, hone, -⟩ := fits_iff.mp hfits
    exact ⟨isDeterministic_iff.mp hdet, hcycle.trans hdet, hone, hencode⟩
  · have hplain := isDeterministic_eq_false_iff.mpr hversion
    have hfits : l.Fits := fits_iff.mpr ⟨by rw [hcycle, hplain]; rfl, hone, hmany⟩
    have hencode := (encode_eq_ok_iff_of_plain hplain).mpr rfl
    exact ⟨_, hencode, ofBytes_eq_ok_iff.mpr ⟨hplain, hfits, hencode⟩⟩
  · have hdet := isDeterministic_iff.mpr hversion
    have hfits : l.Fits := fits_iff.mpr ⟨by rw [hcycle, hdet]; rfl, hone, hmany⟩
    have hencode := (encode_eq_ok_iff_of_deterministic hdet).mpr ⟨cycleHash, hcycle, rfl⟩
    refine ⟨Wire.encode l.version ++ (Wire.encode l.inputs ++ Wire.encode l.txid), ?_⟩
    simp only [List.append_assoc]
    exact ⟨hencode, ofDeterministicBytes_eq_ok_iff.mpr ⟨hdet, hfits, hencode⟩,
      ofDeterministicBytes_of_missing hdet hfits⟩

/-- A lock of two outputs in the deterministic form. -/
def sampleLock : InstantLock where
  version := 1
  inputs := [⟨⟨FixedBytes.replicate 32 1⟩, 0⟩, ⟨⟨FixedBytes.replicate 32 2⟩, 3⟩]
  txid := ⟨FixedBytes.replicate 32 3⟩
  cycleHash := some ⟨FixedBytes.replicate 32 4⟩
  signature := FixedBytes.replicate 96 5

/-- The same lock in the plain form. -/
def samplePlainLock : InstantLock :=
  { sampleLock with version := 0, cycleHash := none }

theorem reads_both_forms_sample :
    (∃ bytes, ofBytes bytes = .ok samplePlainLock ∧ samplePlainLock.encode = .ok bytes) ∧
    ∃ before, sampleLock.encode = .ok (before ++ List.replicate 32 4 ++ List.replicate 96 5) ∧
      ofDeterministicBytes (before ++ List.replicate 32 4 ++ List.replicate 96 5) =
        .ok sampleLock ∧
      ofDeterministicBytes (before ++ List.replicate 96 5) = .error .missingCycleHash := by
  obtain ⟨ofPlain, ofDeterministic, toBytes⟩ := reads_both_forms
  obtain ⟨bytes, -, hread⟩ := (toBytes samplePlainLock (by decide) (by decide)).1 rfl rfl
  obtain ⟨before, -, hread', hmissing⟩ :=
    (toBytes sampleLock (by decide) (by decide)).2 _ (by decide) rfl
  exact ⟨⟨bytes, hread, (ofPlain _ _ hread).2.2.2⟩, before, (ofDeterministic _ _ hread').2.2.2,
    hread', hmissing⟩

/-! ### Lengths -/

theorem length_of_encode {l : InstantLock} {bytes : Bytes} (h : l.encode = .ok bytes) :
    bytes.length = l.size := by
  cases hform : l.isDeterministic with
  | false =>
    rw [encode_eq_ok_iff_of_plain hform] at h
    rw [h, size, hform, if_neg Bool.false_ne_true]
    simp only [List.length_append, length_encode]
    omega
  | true =>
    obtain ⟨cycleHash, -, h⟩ := (encode_eq_ok_iff_of_deterministic hform).mp h
    rw [h, size, hform, if_pos rfl]
    simp only [List.length_append, length_encode, show Wire.size l.version = 1 from rfl,
      show Wire.size cycleHash = 32 from rfl]
    omega

/-- The length is even in the deterministic form and odd in the plain one. -/
theorem even_size_iff (l : InstantLock) : Even l.size ↔ l.isDeterministic = true := by
  have hinputs := Nat.odd_iff.mp (OutPoint.odd_size_list l.inputs)
  rw [Nat.even_iff, size, show Wire.size l.txid = 32 from rfl,
    show Wire.size l.signature = 96 from rfl]
  by_cases hform : l.isDeterministic = true
  · rw [if_pos hform, iff_true_right hform]
    omega
  · rw [if_neg hform, iff_false_right hform]
    omega

/-- **No byte string has both forms,** and those that have one are the wire forms of the locks that
fit it. -/
theorem not_both_forms (bytes : Bytes) :
    ¬ ((∃ l, ofBytes bytes = .ok l) ∧ ∃ l, ofDeterministicBytes bytes = .ok l) ∧
    (((∃ l, ofBytes bytes = .ok l) ∨ ∃ l, ofDeterministicBytes bytes = .ok l) ↔
      ∃ l : InstantLock, l.Fits ∧ l.encode = .ok bytes) := by
  simp only [ofBytes_eq_ok_iff, ofDeterministicBytes_eq_ok_iff]
  constructor
  · rintro ⟨⟨plain, hplain, -, hcode⟩, det, hdet, -, hcode'⟩
    have hodd := (even_size_iff plain).not.mpr (by rw [hplain]; exact Bool.false_ne_true)
    have heven := (even_size_iff det).mpr hdet
    rw [← length_of_encode hcode] at hodd
    rw [← length_of_encode hcode'] at heven
    exact hodd heven
  · constructor
    · rintro (⟨l, -, hfits, hcode⟩ | ⟨l, -, hfits, hcode⟩)
      all_goals exact ⟨l, hfits, hcode⟩
    · rintro ⟨l, hfits, hcode⟩
      cases hform : l.isDeterministic with
      | false => exact .inl ⟨l, hform, hfits, hcode⟩
      | true => exact .inr ⟨l, hform, hfits, hcode⟩

end InstantLock

end QuorumFinality
