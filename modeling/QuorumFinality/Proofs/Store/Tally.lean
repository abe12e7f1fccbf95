import QuorumFinality.Proofs.Store.Checked
import QuorumFinality.Proofs.Store.Latch

/-!
# What a pass counts

A pass over the quorums reports how many of them are verified. It does not look at the statuses when
it is done: the count is kept while the quorums are out of the latest list, and it goes up whenever
an attempt finds a quorum valid. A quorum that was verified before may lose its status on the way,
and then it must not be counted. That the count is right is therefore a fact about every single
attempt, carried through the buckets.

The report is compared here with two ways of counting afterwards, over all that the map holds and
over the types of the network. They agree because no type is stray in a list that differences led
to.

## Main definitions

* `Store.statusAlone` — the status that a quorum gets when it is verified by itself

## Main results

* `Store.attempt_eq` — a pass does to a quorum what verifying it by itself does
* `Store.Reached.length_verifiedQuorums` — the verified quorums of the latest list
* `Store.Reached.verifyCurrent_report` — what a pass reports and touches
-/

namespace QuorumFinality

/-- Quorums that are the same up to their statuses differ in the status at most. -/
theorem Quorum.eq_of_forget_eq {q q' : Quorum} (h : q'.forget = q.forget) :
    q' = { q with status := q'.status } := by
  obtain ⟨hentry, -, hcommitment, hdigest⟩ := Quorum.mk.inj h
  cases q'
  cases hentry
  cases hcommitment
  cases hdigest
  rfl

namespace Store

variable (scheme : SignatureScheme)

/-- The status of a quorum once it has been verified by itself. If the list at its block is missing
the quorum is skipped. -/
def statusAlone (s : Store) (q : Quorum) : VerificationStatus :=
  match s.verifyQuorum scheme q with
  | (_, .error (.missingQuorumList hash)) => .skipped (.missedList hash)
  | (q', _) => q'.status

theorem status_attempt (s : Store) (q : Quorum) :
    (s.attempt scheme q).status = s.statusAlone scheme q := by
  unfold attempt statusAlone verifyNext
  cases s.verifyQuorum scheme q with
  | mk q' result =>
    cases result with
    | ok valid => cases valid <;> rfl
    | error error => cases error <;> rfl

/-- **An attempt** changes the status as verifying the quorum by itself does, and nothing else. -/
theorem attempt_eq (s : Store) (q : Quorum) :
    s.attempt scheme q = { q with status := s.statusAlone scheme q } := by
  rw [← status_attempt]
  exact Quorum.eq_of_forget_eq (s.forget_verifyNext scheme (.ok 0) q)

variable {scheme} {config : StoreConfig} {history : List ListDiff} {s : Store}

/-- Going over the types of the network finds as many verified quorums as there are in the map. -/
theorem Reached.length_verifiedQuorums (h : Reached scheme config history s) :
    s.tip.verifiedQuorums.length = s.tip.quorums.values.flatten.countP Quorum.isVerified := by
  rw [MasternodeList.verifiedQuorums, ← List.countP_eq_length_filter]
  exact h.wellFormed_tip.allQuorums_perm.countP_eq _

/-- **What a pass reports and touches.** However it ends, it has changed nothing but the statuses of
the quorums of the latest list. If it ends with a count, then that many quorums are verified now,
and each quorum has the status that it gets when it is verified by itself on the store as it was. -/
theorem Reached.verifyCurrent_report (h : Reached scheme config history s) :
    (s.verifyCurrent scheme).1 =
        { s with tip := { s.tip with quorums := (s.verifyCurrent scheme).1.tip.quorums } } ∧
      MasternodeList.forgetIn (s.verifyCurrent scheme).1.tip.quorums =
        MasternodeList.forgetIn s.tip.quorums ∧
      ∀ count, (s.verifyCurrent scheme).2 = .ok count →
        count = (s.verifyCurrent scheme).1.tip.quorums.values.flatten.countP Quorum.isVerified ∧
        count = (s.verifyCurrent scheme).1.tip.verifiedQuorums.length ∧
        ∀ type i q, s.quorumAt type i = some q →
          (s.verifyCurrent scheme).1.quorumAt type i =
            some { q with status := s.statusAlone scheme q } := by
  refine ⟨rfl, congrArg MasternodeList.quorums (s.forget_tip_verifyCurrent scheme),
    fun count hcount => ?_⟩
  obtain ⟨-, hverified⟩ := quorums_verifyCurrent scheme hcount
  refine ⟨hverified, ?_, fun type i q hq => ?_⟩
  · rw [hverified]
    exact (h.step .verify).length_verifiedQuorums.symm
  · rw [quorumAt, quorumsOfType_of_verifyCurrent scheme hcount, List.getElem?_map, ← quorumAt, hq,
      Option.map_some, attempt_eq]

/-- The quorum of the sample is verified by a pass and counted. -/
theorem Reached.verifyCurrent_report_sample :
    ∃ s, Store.build Sample.config Sample.chain = .ok s ∧
      (s.verifyCurrent Sample.scheme).1.tip.verifiedQuorums.length = 1 := by
  obtain ⟨s, hbuild, hdecide⟩ := Sample.exists_build
  obtain ⟨hany, -⟩ := of_decide_eq_true hdecide
  obtain ⟨count, hcount, hone⟩ := any_toOption_iff.mp hany
  have hreached : Reached Sample.scheme Sample.config Sample.chain s := .build hbuild
  obtain ⟨-, -, hreport⟩ := hreached.verifyCurrent_report
  exact ⟨s, hbuild, (hreport count hcount).2.1.symm.trans (of_decide_eq_true hone)⟩

end Store

end QuorumFinality
