import QuorumFinality.Proofs.Wire.Entry

/-!
# The two forms of a quorum entry

An entry that stands alone says nowhere which form it has. The reader goes by the length: what is
shorter than a bound is read in the short form, anything else in the full form. So an entry is read
back if its length is on the right side of the bound.

For the full form it always is, as two signatures alone are longer than that. In the short form the
length depends on the two member counts, each of which takes up to nine bytes, and the bound is too
low by two: with two counts of nine bytes the short form reaches it. Such an entry can be written,
but its bytes are read in the full form, which they are too short for.

## Main definitions

* `QuorumEntry.Fits` — entries whose parts can be read in their form

## Main results

* `QuorumEntry.ofBytes_eq_ok_iff` — what is read as an entry that stands alone
* `QuorumEntry.ofBytes_eq_ok_iff_encode_eq` — it is written back as the bytes it came from
* `QuorumEntry.ofBytes_encode_eq_ok_iff` — which entries are read back
* `QuorumEntry.not_forall_ofBytes_encode` — not those of the short form with two large counts
-/

namespace QuorumFinality

open Decoder

namespace CompactSize

/-- Only counts beyond thirty-two bits take more than five bytes. -/
theorem size_le_five_iff (n : UInt64) : size n ≤ 5 ↔ n.toNat < 2 ^ 32 := by
  unfold size
  repeat' split
  all_goals omega

/-- They take nine. -/
theorem size_eq_nine_iff (n : UInt64) : size n = 9 ↔ ¬ size n ≤ 5 := by
  unfold size
  repeat' split
  all_goals omega

end CompactSize

/-! ### The short form -/

namespace LegacyQuorumEntry

instance : CanonicalWire LegacyQuorumEntry where
  Readable _ := True
  reads_decode := by
    refine Reads.congr (.bind reads_decode fun version => .bind reads_decode fun type =>
      .bind reads_decode fun quorumHash => .bind CompactSize.reads_decode fun signersCount =>
        .bind CompactSize.reads_decode fun validMembersCount =>
          .bind reads_decode fun publicKey => .pure _) ?_
    rintro ⟨version, type, quorumHash, signersCount, validMembersCount, publicKey⟩ code
    change _ ↔ True ∧ code = Wire.encode version ++ Wire.encode type ++ Wire.encode quorumHash ++
      CompactSize.encode signersCount ++ CompactSize.encode validMembersCount ++
      Wire.encode publicKey
    simp [Readable]

instance : SizedWire LegacyQuorumEntry where
  size_eq e := by
    change _ = (Wire.encode e.version ++ Wire.encode e.type ++ Wire.encode e.quorumHash ++
      CompactSize.encode e.signersCount ++ CompactSize.encode e.validMembersCount ++
      Wire.encode e.publicKey).length
    simp only [List.length_append, length_encode, CompactSize.length_encode]
    rfl

theorem size_eq_add (e : LegacyQuorumEntry) : Wire.size e =
    83 + CompactSize.size e.signersCount + CompactSize.size e.validMembersCount := by
  change 2 + 1 + 32 + _ + _ + 48 = _
  omega

/-- **The short form is short** unless both counts are beyond thirty-two bits. -/
theorem size_lt_legacyLimit_iff (e : LegacyQuorumEntry) : Wire.size e < QuorumEntry.legacyLimit ↔
    e.signersCount.toNat < 2 ^ 32 ∨ e.validMembersCount.toNat < 2 ^ 32 := by
  have hsigners := CompactSize.size_eq_nine_iff e.signersCount
  have hvalid := CompactSize.size_eq_nine_iff e.validMembersCount
  have hsigners_le := CompactSize.size_le e.signersCount
  have hvalid_le := CompactSize.size_le e.validMembersCount
  rw [← CompactSize.size_le_five_iff, ← CompactSize.size_le_five_iff, size_eq_add,
    show QuorumEntry.legacyLimit = 100 from rfl]
  omega

/-- Even the longest short form is shorter than any full form. -/
theorem size_le (e : LegacyQuorumEntry) : Wire.size e ≤ 101 := by
  have hsigners := CompactSize.size_le e.signersCount
  have hvalid := CompactSize.size_le e.validMembersCount
  rw [size_eq_add]
  omega

end LegacyQuorumEntry

/-! ### The full form -/

instance : SizedWire FullQuorumEntry where
  size_eq e := by
    have hindex : (if isRotatedVersion e.version then Wire.encode (e.quorumIndex.getD 0)
        else []).length = if isRotatedVersion e.version then 2 else 0 := by
      split
      · exact length_encode _
      · rfl
    change _ = (e.encodeWithCounts e.signersCount e.validMembersCount).length
    simp only [FullQuorumEntry.encodeWithCounts, List.length_append, length_encode,
      CompactSize.length_encode, hindex]
    rfl

/-- The keys, the digest and the signatures alone make the full form long. -/
theorem FullQuorumEntry.lt_size (e : FullQuorumEntry) : 272 < Wire.size e := by
  change 272 < 2 + 1 + 32 + _ + _ + _ + _ + _ + 48 + 32 + 96 + 96
  omega

/-! ### Either form -/

namespace QuorumEntry

/-- The parts of the entry can be read in its form. -/
def Fits : QuorumEntry → Prop
  | legacy _ => True
  | full e => e.Fits

/-- **What is read as an entry that stands alone.** It is the wire form of the entry, and its length
is that of the form. -/
theorem ofBytes_eq_ok_iff {bytes : Bytes} {q : QuorumEntry} : ofBytes bytes = .ok q ↔
    (q.Fits ∧ bytes = Wire.encode q) ∧ (bytes.length < legacyLimit ↔ q.isLegacy = true) := by
  unfold ofBytes
  by_cases hlength : bytes.length < legacyLimit
  · rw [if_pos hlength, reads_decode.map_all_eq_ok_iff]
    cases q with
    | legacy e => simp [hlength, Fits, isLegacy, Wire.encode, Readable]
    | full e => simp [hlength, isLegacy]
  · rw [if_neg hlength, reads_decode.map_all_eq_ok_iff]
    cases q with
    | legacy e => simp [hlength, isLegacy]
    | full e => simp [hlength, Fits, isLegacy, Wire.encode, Readable]

/-- **What is read is written back as the bytes it came from,** in either form. In the full form
the bit sets have the length of the type, and there is a position in the versions that have one. -/
theorem ofBytes_eq_ok_iff_encode_eq (bytes : Bytes) :
    (∀ e, ofBytes bytes = .ok (legacy e) ↔
      Wire.encode (legacy e) = bytes ∧ bytes.length < 100) ∧
    ∀ e, ofBytes bytes = .ok (full e) ↔
      Wire.encode (full e) = bytes ∧ e.signers.length = e.type.bitsetLength ∧
        e.validMembers.length = e.type.bitsetLength ∧
        (e.quorumIndex.isSome ↔ e.version = 2 ∨ e.version = 4) := by
  constructor
  · intro e
    rw [ofBytes_eq_ok_iff, eq_comm (a := bytes)]
    simp [Fits, isLegacy, legacyLimit]
  · intro e
    have hrotated : isRotatedVersion e.version = true ↔ e.version = 2 ∨ e.version = 4 := by
      simp [isRotatedVersion]
    rw [ofBytes_eq_ok_iff, Fits, ← hrotated, ← Bool.eq_iff_iff]
    constructor
    · rintro ⟨⟨⟨hsigners, hvalid, hindex⟩, rfl⟩, -⟩
      exact ⟨rfl, hsigners, hvalid, hindex⟩
    · rintro ⟨rfl, hsigners, hvalid, hindex⟩
      have hlength : (Wire.encode (full e)).length = Wire.size e := length_encode e
      have hlong := e.lt_size
      refine ⟨⟨⟨hsigners, hvalid, hindex⟩, rfl⟩, ?_⟩
      rw [hlength, legacyLimit, isLegacy, iff_false_right Bool.false_ne_true]
      omega

/-- **Which entries are read back.** An entry in the short form is, unless both counts are beyond
thirty-two bits; then its bytes are no entry at all. An entry in the full form is, if its bit sets
have the length of its type and it has a position exactly if its version asks for one. -/
theorem ofBytes_encode_eq_ok_iff (short : LegacyQuorumEntry) (long : FullQuorumEntry) :
    (∀ q, ofBytes (Wire.encode (legacy short)) = .ok q ↔ q = legacy short ∧
      (short.signersCount.toNat < 2 ^ 32 ∨ short.validMembersCount.toNat < 2 ^ 32)) ∧
    (ofBytes (Wire.encode (full long)) = .ok (full long) ↔ long.Fits) := by
  constructor
  · intro q
    have hlength : (Wire.encode (legacy short)).length = Wire.size short := length_encode short
    rw [← short.size_lt_legacyLimit_iff, ofBytes_eq_ok_iff, hlength]
    cases q with
    | legacy e =>
      have heq : Wire.encode (legacy short) = Wire.encode (legacy e) ↔ legacy e = legacy short := by
        constructor
        · intro h
          rw [eq_of_encode_eq (α := LegacyQuorumEntry) trivial trivial h]
        · intro h
          rw [h]
      simp [Fits, isLegacy, heq]
    | full e =>
      -- no full form is as short as the bytes are
      have hne : Wire.encode (legacy short) ≠ Wire.encode (full e) := by
        intro h
        have hlength' : Wire.size short = Wire.size e := by
          rw [← hlength, h]
          exact length_encode e
        have hshort := short.size_le
        have hlong := e.lt_size
        omega
      simp [hne]
  · have hlength : (Wire.encode (full long)).length = Wire.size long := length_encode long
    have hlong : ¬ Wire.size long < legacyLimit := by
      have hsize := long.lt_size
      rw [show legacyLimit = 100 from rfl]
      omega
    rw [ofBytes_eq_ok_iff, hlength]
    simp [Fits, isLegacy, hlong]

/-- An entry in the short form with the least counts that are beyond thirty-two bits. -/
def longestShort : LegacyQuorumEntry where
  version := 1
  type := .llmq50_60
  quorumHash := ⟨FixedBytes.replicate 32 4⟩
  signersCount := 0x100000000
  validMembersCount := 0x100000000
  publicKey := FixedBytes.zero 48

/-- **The bound is too low.** There is an entry in the short form of a hundred and one bytes, and
the reader runs out of bytes in search of its bit sets. -/
theorem not_forall_ofBytes_encode :
    (Wire.encode (legacy longestShort)).length = 101 ∧
    ofBytes (Wire.encode (legacy longestShort)) = .error .unexpectedEnd ∧
    ¬ ∀ q : QuorumEntry, q.Fits → ofBytes (Wire.encode q) = .ok q := by
  have hrefused : ofBytes (Wire.encode (legacy longestShort)) = .error .unexpectedEnd := by
    decide +kernel
  refine ⟨by decide +kernel, hrefused, fun hall => ?_⟩
  have hread := hall (legacy longestShort) trivial
  rw [hrefused] at hread
  contradiction

end QuorumEntry

end QuorumFinality
