import QuorumFinality.Proofs.MasternodeList.QuorumRoot

/-!
# When the declared root of the quorums is believed

A difference that commits to quorums declares their root. Once the quorums have changed, the root is
calculated and compared with the declared one, and a difference that declares another root is
refused. There are two gates before the comparison. The digest of an entry in the short form is not
the one that the coinbase commits to, so as soon as there is *any* such entry nothing is compared and
the declared root is taken over: it is not enough that some of the quorums have the full form. And
nothing is compared if there are no quorums, although their root is known to be null.

## Main results

* `MasternodeList.quorumRoot_of_apply` — the roots of a list after a difference
* `MasternodeList.not_forall_quorumRoot_eq` — behind either gate a wrong root is accepted
-/

namespace QuorumFinality

namespace MasternodeList

variable {list next : MasternodeList} {diff : ListDiff} {payload : CoinbasePayload}
  {quorums : QuorumMap}

/-! ### After a difference -/

/-- No quorums have the null root. -/
theorem quorumRootOf_of_quorumCount_eq_zero (h : quorumCount quorums = 0) :
    quorumRootOf quorums = Hash.null := by
  rw [← length_quorumLeaves, List.length_eq_zero_iff] at h
  rw [quorumRootOf, h]
  exact congrArg Hash.mk Merkle.root.eq_1

/-- Behind a gate the declared root does not matter. -/
theorem exists_apply_of_gate (hpayload : diff.coinbasePayload? = some payload)
    (hversion : 2 ≤ payload.version.toNat)
    (hmasternodes : masternodeRootOf (applyMasternodes list.masternodes diff) =
      payload.masternodeRoot)
    (hgate : quorumCount (applyQuorums list.network list.quorums diff) = 0 ∨
      hasLegacy (applyQuorums list.network list.quorums diff) = true) :
    ∃ next, list.apply diff = .ok next ∧
      next.quorums = applyQuorums list.network list.quorums diff := by
  obtain ⟨root, hroot⟩ := exists_acceptQuorumRoot_of_gate payload.quorumRoot hgate
  exact ⟨_, (apply_eq_map hpayload hversion hmasternodes).trans (congrArg _ hroot), rfl⟩

/-- **The roots of a list after a difference that commits to quorums.** The list notes the declared
root. If it has an entry in the short form, its own root is the declared one unseen; otherwise it is
the calculated one, which is null over no quorums, and over some quorums it is the declared one as
well. A difference with the right masternodes that leads to some quorums, all of them in the full
form, but under another root than the calculated one is refused with both roots. If it leads to no
quorums, or to any in the short form, it is accepted whatever root it declares. -/
theorem quorumRoot_of_apply (hpayload : diff.coinbasePayload? = some payload)
    (hversion : 2 ≤ payload.version.toNat) :
    (∀ next, list.apply diff = .ok next →
      next.declaredQuorumRoot = payload.quorumRoot ∧
      (hasLegacy next.quorums = true → next.quorumRoot = payload.quorumRoot) ∧
      (hasLegacy next.quorums = false → next.quorumRoot = quorumRootOf next.quorums ∧
        (quorumCount next.quorums = 0 → quorumRootOf next.quorums = Hash.null) ∧
        (quorumCount next.quorums ≠ 0 → quorumRootOf next.quorums = payload.quorumRoot))) ∧
    (masternodeRootOf (applyMasternodes list.masternodes diff) = payload.masternodeRoot →
      quorumCount (applyQuorums list.network list.quorums diff) ≠ 0 →
      hasLegacy (applyQuorums list.network list.quorums diff) = false →
      quorumRootOf (applyQuorums list.network list.quorums diff) ≠ payload.quorumRoot →
      list.apply diff = .error (.quorumRootMismatch payload.quorumRoot
        (quorumRootOf (applyQuorums list.network list.quorums diff)))) ∧
    (masternodeRootOf (applyMasternodes list.masternodes diff) = payload.masternodeRoot →
      quorumCount (applyQuorums list.network list.quorums diff) = 0 ∨
        hasLegacy (applyQuorums list.network list.quorums diff) = true →
      ∃ next, list.apply diff = .ok next) := by
  refine ⟨fun next hnext => ?_, fun hmasternodes hcount hlegacy hne => ?_,
    fun hmasternodes hgate => ?_⟩
  · obtain ⟨hdeclared, haccept⟩ := acceptQuorumRoot_of_apply hpayload hversion hnext
    refine ⟨hdeclared, ?_⟩
    obtain ⟨hlegacy, hroot⟩ | ⟨hlegacy, hroot, hsome⟩ := acceptQuorumRoot_cases haccept
    · exact ⟨fun _ => hroot, fun hfull => absurd (hlegacy.symm.trans hfull) (by decide)⟩
    · exact ⟨fun hshort => absurd (hlegacy.symm.trans hshort) (by decide),
        fun _ => ⟨hroot, quorumRootOf_of_quorumCount_eq_zero, hsome⟩⟩
  · rw [apply_eq_map hpayload hversion hmasternodes, acceptQuorumRoot_eq_error hcount hlegacy hne]
    rfl
  · obtain ⟨next, hnext, -⟩ := exists_apply_of_gate hpayload hversion hmasternodes hgate
    exact ⟨next, hnext⟩

/-- The sample has three quorums in the full form under the root that is declared. -/
theorem quorumRoot_of_apply_sample :
    (numberedDiff [3, 2, 1]).coinbasePayload? = some numberedPayload ∧
    2 ≤ numberedPayload.version.toNat ∧
    (∃ next, (empty .regtest).apply (numberedDiff [3, 2, 1]) = .ok next ∧
      quorumCount next.quorums = 3 ∧ hasLegacy next.quorums = false) ∧
    (∀ next, (empty .regtest).apply (numberedDiff [3, 2, 1]) = .ok next →
      next.declaredQuorumRoot = numberedPayload.quorumRoot ∧
      (hasLegacy next.quorums = true → next.quorumRoot = numberedPayload.quorumRoot) ∧
      (hasLegacy next.quorums = false → next.quorumRoot = quorumRootOf next.quorums ∧
        (quorumCount next.quorums = 0 → quorumRootOf next.quorums = Hash.null) ∧
        (quorumCount next.quorums ≠ 0 →
          quorumRootOf next.quorums = numberedPayload.quorumRoot))) ∧
    (masternodeRootOf (applyMasternodes OrderedMap.empty (numberedDiff [3, 2, 1])) =
        numberedPayload.masternodeRoot →
      quorumCount (numberedQuorums [3, 2, 1]) ≠ 0 →
      hasLegacy (numberedQuorums [3, 2, 1]) = false →
      quorumRootOf (numberedQuorums [3, 2, 1]) ≠ numberedPayload.quorumRoot →
      (empty .regtest).apply (numberedDiff [3, 2, 1]) = .error (.quorumRootMismatch
        numberedPayload.quorumRoot (quorumRootOf (numberedQuorums [3, 2, 1])))) ∧
    (masternodeRootOf (applyMasternodes OrderedMap.empty (numberedDiff [3, 2, 1])) =
        numberedPayload.masternodeRoot →
      quorumCount (numberedQuorums [3, 2, 1]) = 0 ∨
        hasLegacy (numberedQuorums [3, 2, 1]) = true →
      ∃ next, (empty .regtest).apply (numberedDiff [3, 2, 1]) = .ok next) := by
  obtain ⟨next, hnext, hquorums⟩ := exists_adopts_numberedDiff [3, 2, 1] (by decide)
  refine ⟨rfl, by decide, ⟨next, hnext.apply_eq, ?_, hnext.hasLegacy_eq⟩,
    quorumRoot_of_apply rfl (by decide)⟩
  rw [hquorums]
  decide

/-! ### Behind the gates -/

/-- An entry in the short form. -/
def shortQuorum : QuorumEntry :=
  .legacy {
    version := 1
    type := .llmq50_60
    quorumHash := ⟨FixedBytes.replicate 32 4⟩
    signersCount := 50
    validMembersCount := 50
    publicKey := FixedBytes.zero 48 }

/-- A difference that brings a quorum in the full form and one in the short form, under a root that
is not theirs. -/
def mixedDiff : ListDiff :=
  { numberedDiff [] with newQuorums := [numberedQuorum 3, shortQuorum] }

/-- The digest of the entry in the short form. -/
def shortLeaf : Merkle.Node :=
  node 0xda158ce4115d128eade97938d06f760219a0cedfa354ad846a3f2b9d6aeedc58

/-- The calculated root of the two quorums. -/
theorem quorumRootOf_mixedDiff :
    quorumRootOf (applyQuorums .regtest OrderedMap.empty mixedDiff) =
      ⟨node 0x6805138a303d57cee0b4fb15e599e6b26d0cb33beabc473ad50dacbeb10649e2⟩ := by
  have hshort : shortQuorum.entryHash = ⟨shortLeaf⟩ := by decide +kernel
  have hhashes : entryHashes (applyQuorums .regtest OrderedMap.empty mixedDiff) =
      [⟨numberedLeaf 3⟩, ⟨shortLeaf⟩] := by
    rw [← entryHash_numberedQuorum 3 (by decide), ← hshort]
    rfl
  have hsorted : [(⟨numberedLeaf 3⟩ : QuorumEntryHash), ⟨shortLeaf⟩].Pairwise
      fun a b => (compare a b).isLE := by decide +kernel
  have hparents : Merkle.parents [numberedLeaf 3, shortLeaf] =
      [node 0x6805138a303d57cee0b4fb15e599e6b26d0cb33beabc473ad50dacbeb10649e2] := by
    decide +kernel
  rw [quorumRootOf, quorumLeaves_of_pairwise (hhashes ▸ hsorted), hhashes]
  refine congrArg Hash.mk ?_
  change Merkle.root [numberedLeaf 3, shortLeaf] = _
  rw [Merkle.root_of_one_lt_length (by decide), hparents]
  exact Merkle.root.eq_2 _

/-- The root that is declared. -/
theorem quorumRoot_numberedPayload : numberedPayload.quorumRoot =
    ⟨node 0x91fe90f4b6797fded291c206f49f88254fa2dc2b093c3c96cf99da8992bc96d3⟩ := by
  obtain ⟨hparents, hroot⟩ := parents_numberedLeaf
  refine congrArg Hash.mk ?_
  rw [Merkle.root_of_one_lt_length (by decide), hparents,
    Merkle.root_of_one_lt_length (by decide), hroot]
  exact Merkle.root.eq_2 _

/-- **A wrong root is accepted behind either gate.** One entry in the short form among some in the
full form is enough for a list to take over a root that is not the calculated one, and a list
without quorums notes a root that is not the null one. -/
theorem not_forall_quorumRoot_eq :
    (¬ ∀ (list : MasternodeList) (diff : ListDiff) (payload : CoinbasePayload)
      (next : MasternodeList),
      diff.coinbasePayload? = some payload → 2 ≤ payload.version.toNat →
      list.apply diff = .ok next →
      ¬ (quorumCount next.quorums ≠ 0 ∧
        ∀ q ∈ next.quorums.values.flatten, q.entry.isLegacy = true) →
      next.quorumRoot = next.declaredQuorumRoot ∧
        next.declaredQuorumRoot = payload.quorumRoot ∧
        payload.quorumRoot = quorumRootOf next.quorums) ∧
    ¬ ∀ (list : MasternodeList) (diff : ListDiff) (payload : CoinbasePayload)
      (next : MasternodeList),
      diff.coinbasePayload? = some payload → 2 ≤ payload.version.toNat →
      list.apply diff = .ok next → quorumCount next.quorums = 0 →
      next.quorumRoot = next.declaredQuorumRoot ∧
        next.declaredQuorumRoot = payload.quorumRoot ∧
        payload.quorumRoot = quorumRootOf next.quorums := by
  have hversion : 2 ≤ numberedPayload.version.toNat := by decide
  refine ⟨fun hall => ?_, fun hall => ?_⟩
  · have hmixed : ∃ next, (empty .regtest).apply mixedDiff = .ok next ∧
        next.quorums = applyQuorums .regtest OrderedMap.empty mixedDiff :=
      exists_apply_of_gate rfl hversion masternodeRootOf_empty (.inr (by decide))
    obtain ⟨next, hnext, hquorums⟩ := hmixed
    have hfull : ¬ (quorumCount next.quorums ≠ 0 ∧
        ∀ q ∈ next.quorums.values.flatten, q.entry.isLegacy = true) := by
      rw [hquorums]
      decide
    obtain ⟨-, -, hroot⟩ := hall _ _ _ _ rfl hversion hnext hfull
    rw [hquorums, quorumRoot_numberedPayload, quorumRootOf_mixedDiff] at hroot
    exact absurd hroot (by decide +kernel)
  · have hnone : ∃ next, (empty .regtest).apply (numberedDiff []) = .ok next ∧
        next.quorums = numberedQuorums [] :=
      exists_apply_of_gate rfl hversion masternodeRootOf_empty (.inl (by decide))
    obtain ⟨next, hnext, hquorums⟩ := hnone
    have hcount : quorumCount next.quorums = 0 := by
      rw [hquorums]
      decide
    obtain ⟨-, -, hroot⟩ := hall _ _ _ _ rfl hversion hnext hcount
    rw [quorumRootOf_of_quorumCount_eq_zero hcount, quorumRoot_numberedPayload] at hroot
    exact absurd hroot (by decide +kernel)

end MasternodeList

end QuorumFinality
