import QuorumFinality.Proofs.Store.Run
import QuorumFinality.Proofs.Wire.Entry

/-!
# What the digests of a quorum cover

Two digests are made of a complete commitment. One is a leaf of the Merkle tree over the quorums and
covers the whole entry but for the two member counts, which are said and not counted. The other one
is what the members and the quorum sign: it covers who is valid and which keys came of it, and
neither the version, the signers nor the signatures.

The fields are hashed one behind the other with nothing in between. What tells them apart is that
each of them has the length that the fields before it call for: the sets of members have the length
of the type, and the position of a rotated quorum is there exactly if the version asks for it.

## Main results

* `FullQuorumEntry.entryPreimage_inj` — what the leaf covers
* `FullQuorumEntry.commitmentPreimage_inj` — what is signed
* `FullQuorumEntry.preimages_eq_iff` — both
-/

namespace QuorumFinality

namespace FullQuorumEntry

/-- The entry with the size of its quorum in place of the counts that it declares. -/
def withFullCounts (e : FullQuorumEntry) : FullQuorumEntry :=
  { e with
    signersCount := UInt64.ofNat e.type.memberCount
    validMembersCount := UInt64.ofNat e.type.memberCount }

/-- What is hashed for the leaf is what is sent for the entry with these counts. -/
theorem entryPreimage_full (e : FullQuorumEntry) :
    (QuorumEntry.full e).entryPreimage = Wire.encode e.withFullCounts :=
  rfl

variable {e e' : FullQuorumEntry}

theorem Fits.withFullCounts (h : e.Fits) : e.withFullCounts.Fits :=
  ⟨h.length_signers, h.length_validMembers, h.isSome_quorumIndex⟩

/-- Entries are the same with the size of their quorum as counts exactly if they differ in the
counts at most. -/
theorem withFullCounts_eq_iff :
    e.withFullCounts = e'.withFullCounts ↔
      e' = { e with
        signersCount := e'.signersCount
        validMembersCount := e'.validMembersCount } := by
  cases e
  cases e'
  constructor
  · intro h
    obtain ⟨rfl, rfl, rfl, rfl, -, rfl, -, rfl, rfl, rfl, rfl, rfl⟩ := FullQuorumEntry.mk.inj h
    rfl
  · intro h
    obtain ⟨rfl, rfl, rfl, rfl, -, rfl, -, rfl, rfl, rfl, rfl, rfl⟩ := FullQuorumEntry.mk.inj h
    rfl

/-- **The leaf covers all but the counts.** -/
theorem entryPreimage_inj (h : e.Fits) (h' : e'.Fits) :
    (QuorumEntry.full e).entryPreimage = (QuorumEntry.full e').entryPreimage ↔
      e' = { e with
        signersCount := e'.signersCount
        validMembersCount := e'.validMembersCount } := by
  rw [entryPreimage_full, entryPreimage_full, ← withFullCounts_eq_iff]
  exact ⟨eq_of_encode_eq h.withFullCounts h'.withFullCounts, congrArg Wire.encode⟩

/-- **What is signed** covers the quorum, its valid members and the keys. The sets of valid members
are told from what follows by the type, which comes first. -/
theorem commitmentPreimage_inj (h : e.validMembers.length = e.type.bitsetLength)
    (h' : e'.validMembers.length = e'.type.bitsetLength) :
    e.commitmentPreimage = e'.commitmentPreimage ↔
      e.type = e'.type ∧ e.quorumHash = e'.quorumHash ∧ e.validMembers = e'.validMembers ∧
        e.publicKey = e'.publicKey ∧ e.vvecHash = e'.vvecHash := by
  constructor
  · intro heq
    simp only [commitmentPreimage, List.append_assoc] at heq
    obtain ⟨htype, heq⟩ := encode_append_inj trivial trivial heq
    obtain ⟨hquorum, heq⟩ := encode_append_inj trivial trivial heq
    obtain ⟨-, heq⟩ := CompactSize.reads_decode.append_inj rfl rfl heq
    have hlength : e.validMembers.length = e'.validMembers.length := by rw [h, h', htype]
    obtain ⟨hmembers, heq⟩ := List.append_inj heq hlength
    obtain ⟨hkey, heq⟩ := encode_append_inj trivial trivial heq
    exact ⟨htype, hquorum, hmembers, hkey, eq_of_encode_eq trivial trivial heq⟩
  · rintro ⟨htype, hquorum, hmembers, hkey, hvvec⟩
    rw [commitmentPreimage, commitmentPreimage, htype, hquorum, hmembers, hkey, hvvec]

/-- **What the two digests of a commitment are made of** covers all fields but the member counts in
the one case, and the five fields that are signed in the other one. -/
theorem preimages_eq_iff (h : e.Fits) (h' : e'.Fits) :
    ((QuorumEntry.full e).entryPreimage = (QuorumEntry.full e').entryPreimage ↔
      e' = { e with
        signersCount := e'.signersCount
        validMembersCount := e'.validMembersCount }) ∧
    (e.commitmentPreimage = e'.commitmentPreimage ↔
      e.type = e'.type ∧ e.quorumHash = e'.quorumHash ∧ e.validMembers = e'.validMembers ∧
        e.publicKey = e'.publicKey ∧ e.vvecHash = e'.vvecHash) :=
  ⟨entryPreimage_inj h h', commitmentPreimage_inj h.length_validMembers h'.length_validMembers⟩

/-- A rotated quorum at two positions: the leaves differ, and what is signed does not. -/
theorem preimages_eq_iff_sample :
    let rotated : FullQuorumEntry := { Sample.quorum with version := 2, quorumIndex := some 0 }
    let other : FullQuorumEntry := { rotated with quorumIndex := some 1, signersCount := 3 }
    (QuorumEntry.full rotated).entryPreimage ≠ (QuorumEntry.full other).entryPreimage ∧
      rotated.commitmentPreimage = other.commitmentPreimage := by
  intro rotated other
  have hrotated : rotated.Fits := ⟨by decide, by decide, rfl⟩
  have hother : other.Fits := ⟨hrotated.length_signers, hrotated.length_validMembers, rfl⟩
  have hiff := preimages_eq_iff hrotated hother
  refine ⟨fun heq => ?_, hiff.2.mpr ⟨rfl, rfl, rfl, rfl, rfl⟩⟩
  exact absurd (congrArg quorumIndex (hiff.1.mp heq)) (by decide)

end FullQuorumEntry

end QuorumFinality
