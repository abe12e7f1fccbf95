import QuorumFinality.Proofs.Quorum.Validation

/-!
# The verdict on a quorum

A quorum is asked again and again, by every pass and with lists of any block, until it is found
valid. What a single attempt can do is said once, in `Quorum.verify_cases`: a verified quorum is not
looked at, a wrong list is refused, the short form is not valid, and otherwise the two signatures
decide and their outcome is noted. From there it follows what many attempts can do. They leave the
entry and its digests alone, so the verdict of each of them rests on the entry and on its own list.

The members of a quorum and the bits of its signers are two lists that are matched by their places.
There may be fewer members than bits, never more. What is required here of the signers is said by
places alone, so that it does not depend on how the two lists are walked through.

## Main definitions

* `FullQuorumEntry.signerPlaces` — the places of the members whose bit is set
* `FullQuorumEntry.IsEndorsed` — what the list at its block has to say of an entry
* `Quorum.verifyAll` — a quorum after any number of attempts
* `Quorum.Verdict` — what one more attempt says of it, and leaves of it

## Main results

* `FullQuorumEntry.map_getElem?_signerPlaces` — the members that sign are those at the places of the
  bits
* `Quorum.verify_cases` — what an attempt can do
* `Quorum.isVerified_verifyAll_iff` — when a quorum is verified
* `Quorum.verdict_of_verifyAll` — the verdict on a quorum, whatever was attempted before
-/

namespace QuorumFinality

/-! ### Members and bits -/

/-- Matching a list with flags keeps what stands at the places of the flags that are set. -/
theorem map_some_filter_zip {α : Type} (l : List α) (flags : List Bool) :
    (((l.zip flags).filter Prod.snd).map Prod.fst).map some =
      ((List.range l.length).filter fun i => flags[i]?.getD false).map fun i => l[i]? := by
  induction l generalizing flags with
  | nil => rfl
  | cons a l ih =>
    cases flags with
    | nil => simp
    | cons flag flags =>
      have hrest := ih flags
      rw [List.length_cons, List.range_succ_eq_map, List.zip_cons_cons, List.filter_cons,
        List.filter_cons, List.filter_map]
      cases flag <;> simpa [Function.comp_def] using hrest

namespace FullQuorumEntry

variable (scheme : SignatureScheme) (entry : FullQuorumEntry) (list : MasternodeList)

/-- Whether the bit of a place is set among the signers. The lowest bit of the first byte stands for
the first place. -/
def hasSignerBit (i : Nat) : Bool :=
  entry.signers[i / 8]?.any fun byte => byte.toNat.testBit (i % 8)

/-- The places of the members whose bit is set, of those that are drawn from the list. -/
def signerPlaces : List Nat :=
  (List.range (list.quorumMembers (.full entry)).length).filter entry.hasSignerBit

/-- The operator key of the member at a place, if there is one and its key can be decoded. -/
def keyAt (i : Nat) : Option scheme.Key :=
  (list.quorumMembers (.full entry))[i]?.bind fun m => scheme.decodeKey m.entry.operatorKey

/-- What the list at its block has to say of an entry: some members have signed, the operator keys
at their places can all be decoded, the members' signature is accepted under the sum of these keys,
and that of the quorum under its own key. Both are made over the commitment. -/
structure IsEndorsed : Prop where
  /-- The list is the one at the block of the quorum. -/
  block_eq : list.blockHash.bytes = entry.quorumHash.bytes
  /-- Some members have signed. -/
  signerPlaces_ne_nil : entry.signerPlaces list ≠ []
  /-- The keys of exactly these members accept their signature together. -/
  members : ∃ keys key, (entry.signerPlaces list).map (entry.keyAt scheme list) = keys.map some ∧
    scheme.sumKeys keys = some key ∧
    scheme.Accepts key entry.commitmentHash.bytes.toList entry.membersSignature
  /-- The key of the quorum accepts its signature. -/
  quorum : entry.SignedByQuorum scheme

theorem length_quorumMembers_le :
    (list.quorumMembers (.full entry)).length ≤ entry.type.memberCount := by
  rw [MasternodeList.quorumMembers, MasternodeList.topMasternodes, List.length_map]
  exact List.length_take_le _ _

/-- There is a flag for every member, and it is the bit of its place. -/
theorem getElem?_signerBits {i : Nat} (h : i < entry.type.memberCount) :
    entry.signerBits[i]? = some (entry.hasSignerBit i) := by
  rw [signerBits, memberBits, List.getElem?_map, List.getElem?_range h, Option.map_some,
    hasSignerBit]
  cases entry.signers[i / 8]? <;> rfl

/-- **The members that sign are those at the places of the bits.** -/
theorem map_getElem?_signerPlaces : (Quorum.signingMembers list entry).map some =
    (entry.signerPlaces list).map fun i => (list.quorumMembers (.full entry))[i]? := by
  rw [Quorum.signingMembers, map_some_filter_zip, signerPlaces]
  refine congrArg (List.map _) (List.filter_congr fun i hi => ?_)
  have hlt := Nat.lt_of_lt_of_le (List.mem_range.mp hi) (entry.length_quorumMembers_le list)
  rw [entry.getElem?_signerBits hlt, Option.getD_some]

/-- To go through the members that sign is to go through their places. -/
theorem map_keyAt_signerPlaces : (entry.signerPlaces list).map (entry.keyAt scheme list) =
    (Quorum.signingMembers list entry).map fun m => scheme.decodeKey m.entry.operatorKey := by
  have hmembers := congrArg
    (List.map fun m => Option.bind m fun m => scheme.decodeKey m.entry.operatorKey)
    (entry.map_getElem?_signerPlaces list)
  rw [List.map_map, List.map_map] at hmembers
  exact hmembers.symm

/-- An entry is endorsed by the list at its block exactly if both signatures are found valid. -/
theorem isEndorsed_iff : entry.IsEndorsed scheme list ↔
    list.blockHash.bytes = entry.quorumHash.bytes ∧ entry.SignedByMembers scheme list ∧
      entry.SignedByQuorum scheme := by
  constructor
  · rintro ⟨hblock, -, ⟨keys, key, hkeys, hsum⟩, hquorum⟩
    rw [map_keyAt_signerPlaces] at hkeys
    exact ⟨hblock, ⟨keys, key, hkeys, hsum⟩, hquorum⟩
  · rintro ⟨hblock, ⟨keys, key, hkeys, hsum, haccepts⟩, hquorum⟩
    rw [← map_keyAt_signerPlaces] at hkeys
    refine ⟨hblock, fun hnone => ?_, ⟨keys, key, hkeys, hsum, haccepts⟩, hquorum⟩
    -- without a signer there is no key, and no sum of keys
    rw [hnone, List.map_nil, eq_comm, List.map_eq_nil_iff] at hkeys
    simp [hkeys, SignatureScheme.sumKeys] at hsum

end FullQuorumEntry

namespace Quorum

variable {scheme : SignatureScheme} {q : Quorum} {list : MasternodeList}

/-! ### One attempt -/

theorem isVerified_record (q : Quorum) (result : Except QuorumFault Unit) :
    (q.record result).isVerified = result.toBool := by
  cases result <;> simp [record, isVerified, VerificationStatus.ofResult, Except.toBool]

variable (scheme q list) in
/-- **What an attempt can do.** A verified quorum is not looked at. A list of another block is
refused, and a quorum in the short form is not valid; neither leaves a trace. Otherwise the two
signatures decide, and what they say is noted. -/
theorem verify_cases :
    (q.isVerified ∧ q.verify scheme list = (q, .ok true)) ∨
    (¬ q.isVerified ∧ list.blockHash.bytes ≠ q.entry.quorumHash.bytes ∧
      q.verify scheme list = (q, .error (.wrongList list.blockHash q.entry.quorumHash))) ∨
    (¬ q.isVerified ∧ list.blockHash.bytes = q.entry.quorumHash.bytes ∧ q.entry.isLegacy ∧
      q.verify scheme list = (q, .ok false)) ∨
    (¬ q.isVerified ∧ list.blockHash.bytes = q.entry.quorumHash.bytes ∧ ¬ q.entry.isLegacy ∧
      q.verify scheme list =
        (q.record (q.validate scheme list), .ok (q.validate scheme list).toBool)) := by
  by_cases hverified : q.isVerified
  · exact .inl ⟨hverified, if_pos hverified⟩
  refine .inr ?_
  simp only [verify, hverified, checkList]
  by_cases hblock : list.blockHash.bytes = q.entry.quorumHash.bytes
  · by_cases hlegacy : q.entry.isLegacy <;> simp [hblock, hlegacy]
  · simp [hblock]

/-- An attempt changes nothing but the status. -/
theorem exists_status_verify (scheme : SignatureScheme) (q : Quorum) (list : MasternodeList) :
    ∃ status, (q.verify scheme list).1 = { q with status := status } := by
  obtain ⟨-, h⟩ | ⟨-, -, h⟩ | ⟨-, -, -, h⟩ | ⟨-, -, -, h⟩ := q.verify_cases scheme list
  · exact ⟨q.status, by rw [h]⟩
  · exact ⟨q.status, by rw [h]⟩
  · exact ⟨q.status, by rw [h]⟩
  · exact ⟨_, congrArg Prod.fst h⟩

variable (scheme q list) in
/-- A quorum is verified after an attempt exactly if the attempt says that it is valid. -/
theorem isVerified_verify_iff :
    (q.verify scheme list).1.isVerified ↔ (q.verify scheme list).2 = .ok true := by
  obtain ⟨hverified, h⟩ | ⟨hverified, -, h⟩ | ⟨hverified, -, -, h⟩ | ⟨-, -, -, h⟩ :=
    q.verify_cases scheme list
  · simp [h, hverified]
  · simp [h, hverified]
  · simp [h, hverified]
  · rw [h, isVerified_record, Except.ok.injEq]

/-- The signatures of a quorum with its own digests are valid exactly if it is endorsed. -/
theorem validate_eq_ok_iff_isEndorsed (hdigest : q.commitmentHash = q.entry.commitmentHash) :
    q.validate scheme list = .ok () ↔
      ∃ entry, q.entry = .full entry ∧ entry.IsEndorsed scheme list := by
  simp only [validate_eq_ok_iff scheme hdigest, FullQuorumEntry.isEndorsed_iff]
  constructor
  · rintro ⟨hblock, entry, hentry, hsigned⟩
    exact ⟨entry, hentry, by rwa [hentry] at hblock, hsigned⟩
  · rintro ⟨entry, hentry, hblock, hsigned⟩
    exact ⟨by rwa [hentry], entry, hentry, hsigned⟩

/-- **A quorum is found valid if it was before or is endorsed now.** -/
theorem verify_eq_ok_true_iff (hdigest : q.commitmentHash = q.entry.commitmentHash) :
    (q.verify scheme list).2 = .ok true ↔
      q.isVerified ∨ ∃ entry, q.entry = .full entry ∧ entry.IsEndorsed scheme list := by
  rw [← validate_eq_ok_iff_isEndorsed hdigest]
  obtain ⟨hverified, h⟩ | ⟨hverified, hblock, h⟩ | ⟨hverified, -, hlegacy, h⟩ |
    ⟨hverified, -, -, h⟩ := q.verify_cases scheme list
  · simp [h, hverified]
  · have hinvalid : q.validate scheme list ≠ .ok () := fun hvalid =>
      hblock ((validate_eq_ok_iff scheme hdigest).mp hvalid).1
    simp [h, hverified, hinvalid]
  · have hinvalid : q.validate scheme list ≠ .ok () := by
      intro hvalid
      obtain ⟨-, entry, hentry, -⟩ := (validate_eq_ok_iff scheme hdigest).mp hvalid
      simp [hentry, QuorumEntry.isLegacy] at hlegacy
    simp [h, hverified, hinvalid]
  · simp only [h, hverified, Except.ok.injEq]
    cases q.validate scheme list <;> simp [Except.toBool]

/-- An attempt is refused exactly if the quorum is still open and the list is of another block. -/
theorem verify_eq_error_iff {fault : QuorumFault} :
    (q.verify scheme list).2 = .error fault ↔
      fault = .wrongList list.blockHash q.entry.quorumHash ∧ ¬ q.isVerified ∧
        list.blockHash.bytes ≠ q.entry.quorumHash.bytes := by
  obtain ⟨hverified, h⟩ | ⟨hverified, hblock, h⟩ | ⟨hverified, hblock, -, h⟩ |
    ⟨hverified, hblock, -, h⟩ := q.verify_cases scheme list
  · simp [h, hverified]
  · simp [h, hverified, hblock, eq_comm]
  · simp [h, hblock]
  · simp [h, hblock]

/-- What is refused or has the short form stays as it is. -/
theorem verify_eq_self
    (h : (∃ fault, (q.verify scheme list).2 = .error fault) ∨ q.entry.isLegacy) :
    (q.verify scheme list).1 = q := by
  obtain ⟨-, heq⟩ | ⟨-, -, heq⟩ | ⟨-, -, -, heq⟩ | ⟨-, -, hfull, heq⟩ := q.verify_cases scheme list
  · rw [heq]
  · rw [heq]
  · rw [heq]
  · simp [heq, hfull] at h

/-- **An attempt with the same list says the same again** and leaves the quorum as it is. -/
theorem verify_verify : (q.verify scheme list).1.verify scheme list = q.verify scheme list := by
  obtain ⟨-, h⟩ | ⟨-, -, h⟩ | ⟨-, -, -, h⟩ | ⟨-, hblock, hfull, h⟩ := q.verify_cases scheme list
  · rw [h, h]
  · rw [h, h]
  · rw [h, h]
  · rw [h]
    -- the second attempt asks the same signatures, unless the first one has found them valid
    obtain ⟨hverified, h'⟩ | ⟨-, hother, -⟩ | ⟨-, -, hlegacy, -⟩ | ⟨-, -, -, h'⟩ :=
      (q.record (q.validate scheme list)).verify_cases scheme list
    · rw [isVerified_record] at hverified
      rw [h', hverified]
    · exact absurd hblock hother
    · exact absurd hlegacy hfull
    · exact h'

/-! ### Any number of attempts -/

/-- A quorum after attempts with some lists, one after another. -/
def verifyAll (scheme : SignatureScheme) (q : Quorum) (lists : List MasternodeList) : Quorum :=
  lists.foldl (fun q list => (q.verify scheme list).1) q

theorem exists_status_verifyAll (scheme : SignatureScheme) (q : Quorum)
    (lists : List MasternodeList) :
    ∃ status, q.verifyAll scheme lists = { q with status := status } := by
  induction lists generalizing q with
  | nil => exact ⟨q.status, rfl⟩
  | cons list lists ih =>
    obtain ⟨status, hfirst⟩ := q.exists_status_verify scheme list
    obtain ⟨status', hrest⟩ := ih (q.verify scheme list).1
    exact ⟨status', by rw [verifyAll, List.foldl_cons, ← verifyAll, hrest, hfirst]⟩

/-- **A quorum is verified as soon as one of the lists endorses it,** and stays so. -/
theorem isVerified_verifyAll_iff (hdigest : q.commitmentHash = q.entry.commitmentHash)
    {lists : List MasternodeList} :
    (q.verifyAll scheme lists).isVerified ↔ q.isVerified ∨
      ∃ entry, q.entry = .full entry ∧ ∃ list ∈ lists, entry.IsEndorsed scheme list := by
  induction lists generalizing q with
  | nil => simp [verifyAll]
  | cons list lists ih =>
    have hfirst := (q.isVerified_verify_iff scheme list).trans (verify_eq_ok_true_iff hdigest)
    obtain ⟨status, hstatus⟩ := q.exists_status_verify scheme list
    have hentry : (q.verify scheme list).1.entry = q.entry := by rw [hstatus]
    have hown : (q.verify scheme list).1.commitmentHash =
        (q.verify scheme list).1.entry.commitmentHash := by rw [hstatus, hdigest]
    have hrest := ih hown
    rw [verifyAll, List.foldl_cons, ← verifyAll, hrest, hfirst, hentry, or_assoc]
    simp only [List.mem_cons, or_and_right, exists_or, exists_eq_left, and_or_left]

/-- What an attempt with a list says of a quorum that earlier attempts have left, and what it leaves
of it. -/
structure Verdict (scheme : SignatureScheme) (entry : QuorumEntry) (earlier : List MasternodeList)
    (list : MasternodeList) (q : Quorum) : Prop where
  /-- The quorum is valid exactly if it was found valid before or the list endorses it now. -/
  valid_iff : (q.verify scheme list).2 = .ok true ↔
    q.isVerified ∨ ∃ full, entry = .full full ∧ full.IsEndorsed scheme list
  /-- It was found valid before exactly if one of the earlier lists has endorsed it. -/
  isVerified_iff : q.isVerified ↔
    ∃ full, entry = .full full ∧ ∃ list ∈ earlier, full.IsEndorsed scheme list
  /-- The list is refused exactly if the quorum was not found valid before and the list is of another
  block. -/
  refused_iff : ∀ fault, (q.verify scheme list).2 = .error fault ↔
    fault = .wrongList list.blockHash entry.quorumHash ∧ ¬ q.isVerified ∧
      list.blockHash.bytes ≠ entry.quorumHash.bytes
  /-- Nothing but the status changes. -/
  only_status : ∃ status, (q.verify scheme list).1 = { q with status := status }
  /-- If the list is refused or the entry has the short form, then not even the status does. -/
  unchanged : (∃ fault, (q.verify scheme list).2 = .error fault) ∨ entry.isLegacy →
    (q.verify scheme list).1 = q
  /-- A second attempt with the list says the same and leaves the same. -/
  again : (q.verify scheme list).1.verify scheme list = q.verify scheme list

/-- **The verdict on a quorum,** whatever was attempted before: it rests on the entry and on the
lists that the attempts were made with, and on nothing else. -/
theorem verdict_of_verifyAll (scheme : SignatureScheme) (entry : QuorumEntry)
    (earlier : List MasternodeList) (list : MasternodeList) :
    Verdict scheme entry earlier list ((ofEntry entry).verifyAll scheme earlier) := by
  obtain ⟨status, hq⟩ := (ofEntry entry).exists_status_verifyAll scheme earlier
  have hverified : ((ofEntry entry).verifyAll scheme earlier).isVerified ↔
      ∃ full, entry = .full full ∧ ∃ list ∈ earlier, full.IsEndorsed scheme list := by
    rw [isVerified_verifyAll_iff rfl, isVerified_ofEntry, Bool.false_eq_true, false_or]
    rfl
  generalize (ofEntry entry).verifyAll scheme earlier = q at hq hverified ⊢
  have hentry : q.entry = entry := congrArg Quorum.entry hq
  have hdigest : q.commitmentHash = q.entry.commitmentHash := by
    rw [hentry]
    exact congrArg Quorum.commitmentHash hq
  refine ⟨?_, hverified, fun fault => ?_, q.exists_status_verify scheme list, fun h => ?_,
    verify_verify⟩
  · rw [verify_eq_ok_true_iff hdigest, hentry]
  · rw [verify_eq_error_iff, hentry]
  · exact verify_eq_self (hentry.symm ▸ h)

end Quorum

end QuorumFinality
