import Mathlib.Data.List.DropRight
import QuorumFinality.Proofs.MasternodeList.Forget
import QuorumFinality.Proofs.MasternodeList.WellFormed

/-!
# The turnover of quorums

A difference names the quorums of all types one behind the other, and each arrival pushes out one
quorum of its type if there are enough of them. In a list that differences led to, a type never has
more quorums than may be active. Then it is all the same whether the oldest quorum goes with each
arrival or the surplus goes in the end: those that stay are the last ones of a queue, in which the
arrivals of the type stand behind the quorums that were not deleted. So what becomes of a type can
be told without the others.

A quorum that stays is the one that was there, with the outcome of the last attempt to verify it.
One that is deleted and arrives again is a new one.

## Main definitions

* `ListDiff.queue` — the quorums of a type that are left and that arrive, oldest first

## Main results

* `ListDiff.drop_pushedOut_eq_rtake` — pushing out one by one leaves the last ones
* `MasternodeList.get?_quorums_of_apply` — what a list keeps for a type after a difference
-/

namespace QuorumFinality

namespace ListDiff

variable {diff : ListDiff} {network : Network} {type : QuorumType} {bucket : List Quorum}

/-- The quorums of a type that a difference does not delete, and behind them the ones it brings. -/
def queue (diff : ListDiff) (type : QuorumType) (bucket : List Quorum) : List Quorum :=
  diff.kept type bucket ++
    (diff.newQuorums.filter fun entry => entry.type = type).map Quorum.ofEntry

/-- **Pushing out one by one leaves the last ones,** if there were not too many at first. -/
theorem drop_pushedOut_eq_rtake (hlength : bucket.length ≤ type.activeCount) :
    (diff.kept type bucket ++ diff.arrivals network type).drop
        (diff.pushedOut network type bucket) =
      (diff.kept type bucket ++ diff.arrivals network type).rtake type.activeCount := by
  have hkept : (diff.kept type bucket).length ≤ bucket.length := List.length_filter_le _ _
  have hcount : diff.pushedOut network type bucket =
      (diff.kept type bucket ++ diff.arrivals network type).length - type.activeCount := by
    rw [pushedOut, List.length_append]
    omega
  rw [hcount, List.rtake]

/-- Of a type that the network does not have, nothing arrives. -/
theorem arrivals_of_not_mem (h : type ∉ network.quorumTypes) : diff.arrivals network type = [] :=
  if_neg h

theorem kept_append_arrivals_of_mem (h : type ∈ network.quorumTypes) :
    diff.kept type bucket ++ diff.arrivals network type = diff.queue type bucket := by
  rw [arrivals, if_pos h, queue]

end ListDiff

namespace MasternodeList

variable {list next reached : MasternodeList} {diff : ListDiff} {network : Network}
  {type : QuorumType}

/-! ### What is kept for a type -/

/-- After the changes of a difference, a type with quorums has them in the map, and one without is
left out. -/
theorem get?_applyQuorums (network : Network) (quorums : QuorumMap) (diff : ListDiff)
    (type : QuorumType) :
    (applyQuorums network quorums diff).get? type =
      if bucket (applyQuorums network quorums diff) type = [] then none
      else some (bucket (applyQuorums network quorums diff) type) := by
  cases hget : (applyQuorums network quorums diff).get? type with
  | none => rw [bucket, hget, Option.getD_none, if_pos rfl]
  | some b => rw [bucket, hget, Option.getD_some, if_neg (ne_nil_of_get?_applyQuorums hget)]

/-- The quorums change if the list says afterwards that the coinbase committed to them. -/
theorem quorums_of_apply (h : list.apply diff = .ok next) (hactive : next.quorumsActive = true) :
    next.quorums = applyQuorums list.network list.quorums diff := by
  obtain ⟨payload, -, -, ⟨hquorums, rfl⟩ | ⟨_, -, -, rfl⟩⟩ := apply_cases h
  · rw [show payload.hasQuorums = true from hactive] at hquorums
    contradiction
  · rfl

/-- There are as many quorums of a type in lists that differ in statuses only. -/
theorem length_quorumsOfType_of_forget_eq (h : list.forget = reached.forget) (type : QuorumType) :
    (list.quorumsOfType type).length = (reached.quorumsOfType type).length := by
  have hlength := congrArg (fun l => (l.quorumsOfType type).length) h
  simpa only [quorumsOfType_forget, List.length_map] using hlength

/-- A type has not more quorums than may be active, whether the network has it or not. -/
theorem WellFormed.length_quorumsOfType_le (h : list.WellFormed) (type : QuorumType) :
    (list.quorumsOfType type).length ≤ type.activeCount := by
  by_cases hnil : list.quorumsOfType type = []
  · rw [hnil]
    exact Nat.zero_le _
  · exact (h.isBucket_quorumsOfType hnil).length_le

/-- A type that the network does not have has no quorums. -/
theorem WellFormed.quorumsOfType_eq_nil (h : list.WellFormed)
    (htype : type ∉ list.network.quorumTypes) : list.quorumsOfType type = [] := by
  by_contra hne
  exact htype (h.isBucket_quorumsOfType hne).type_mem

/-! ### After a difference -/

/-- **A type keeps the last quorums of its queue,** as many as may be active, once an accepted
difference has changed the quorums of a list that differences led to. It is left out if there are
none, or if the network does not have the type. Attempts to verify quorums may have been made before
the difference; those that stay keep the outcome. -/
theorem get?_quorums_of_apply {diffs : List ListDiff}
    (hreached : (empty network).applyAll diffs = .ok reached)
    (hlist : list.forget = reached.forget) (h : list.apply diff = .ok next)
    (hactive : next.quorumsActive = true) (type : QuorumType) :
    next.quorums.get? type =
      if type ∈ network.quorumTypes ∧
        (diff.queue type (list.quorumsOfType type)).rtake type.activeCount ≠ [] then
        some ((diff.queue type (list.quorumsOfType type)).rtake type.activeCount)
      else none := by
  have hwell : reached.WellFormed := (wellFormed_empty network).of_applyAll hreached
  have hlength := length_quorumsOfType_of_forget_eq hlist type
  have hnetwork : reached.network = network := network_of_applyAll hreached
  have hnetwork' : list.network = network := by
    rw [← network_forget, hlist, network_forget, hnetwork]
  have hbucket : bucket (applyQuorums network list.quorums diff) type =
      (diff.kept type (list.quorumsOfType type) ++ diff.arrivals network type).rtake
        type.activeCount := by
    rw [bucket_applyQuorums]
    exact ListDiff.drop_pushedOut_eq_rtake (hlength.trans_le (hwell.length_quorumsOfType_le type))
  rw [quorums_of_apply h hactive, hnetwork', get?_applyQuorums, hbucket]
  by_cases htype : type ∈ network.quorumTypes
  · rw [ListDiff.kept_append_arrivals_of_mem htype]
    simp only [htype, true_and, ne_eq, ite_not]
  · -- there were no quorums of the type, and none arrive
    have hnone : list.quorumsOfType type = [] := by
      rw [← hnetwork] at htype
      rw [hwell.quorumsOfType_eq_nil htype] at hlength
      exact List.length_eq_zero_iff.mp hlength
    have hkept : diff.kept type [] = [] := rfl
    rw [hnone, hkept, ListDiff.arrivals_of_not_mem htype, List.append_nil, List.rtake_nil,
      if_pos rfl, if_neg fun hmem => htype hmem.1]

/-- A quorum of a type in the short form, whose root is believed. -/
def sampleShortForm (type : QuorumType) (n : UInt8) : QuorumEntry :=
  .legacy ⟨1, type, ⟨FixedBytes.replicate 32 n⟩, 1, 1, FixedBytes.zero 48⟩

/-- A difference that changes nothing but quorums. -/
def sampleTurnover (deleted : List UInt8) (new : List UInt8) : ListDiff where
  baseBlockHash := Hash.null
  blockHash := Hash.null
  totalTransactions := 1
  merkleHashes := []
  merkleFlags := []
  coinbaseTx := ⟨3, 0, [], [], some (.coinbase ⟨2, 1, Hash.null, Hash.null, none, none, none⟩)⟩
  deletedMasternodes := []
  newMasternodes := []
  deletedQuorums := deleted.map fun n => ⟨.test, (sampleShortForm .test n).quorumHash⟩
  newQuorums := new.map (sampleShortForm .test)

/-- Two quorums may be active. Both have been verified; one is deleted and arrives again, so it has
been pushed behind the other one, and its status is what it was at first. -/
theorem get?_quorums_of_apply_sample : ∃ reached list next : MasternodeList,
    (empty .regtest).applyAll [sampleTurnover [] [1, 2]] = .ok reached ∧
    list.forget = reached.forget ∧ list.apply (sampleTurnover [1] [1]) = .ok next ∧
    next.quorumsActive = true ∧
    ((next.quorumsOfType .test).map fun q => (q.entry, q.isVerified)) =
      [(sampleShortForm .test 2, true), (sampleShortForm .test 1, false)] ∧
    next.quorums.get? .test =
      if QuorumType.test ∈ Network.regtest.quorumTypes ∧
        ((sampleTurnover [1] [1]).queue .test (list.quorumsOfType .test)).rtake
          QuorumType.test.activeCount ≠ [] then
        some (((sampleTurnover [1] [1]).queue .test (list.quorumsOfType .test)).rtake
          QuorumType.test.activeCount)
      else none := by
  obtain ⟨reached, hreached, htests⟩ := any_toOption_iff.mp (by decide +kernel :
    ((empty .regtest).applyAll [sampleTurnover [] [1, 2]]).toOption.any fun reached =>
      let list := { reached with
        quorums := reached.quorums.mapValues (List.map fun q => q.record (.ok ())) }
      (list.forget = reached.forget : Bool) &&
        (list.apply (sampleTurnover [1] [1])).toOption.any fun next =>
          next.quorumsActive = true ∧
          ((next.quorumsOfType .test).map fun q => (q.entry, q.isVerified)) =
            [(sampleShortForm .test 2, true), (sampleShortForm .test 1, false)])
  obtain ⟨hforget, happly⟩ := Bool.and_eq_true_iff.mp htests
  obtain ⟨next, hnext, htests⟩ := any_toOption_iff.mp happly
  obtain ⟨hactive, hquorums⟩ := of_decide_eq_true htests
  exact ⟨reached, _, next, hreached, of_decide_eq_true hforget, hnext, hactive, hquorums,
    get?_quorums_of_apply hreached (of_decide_eq_true hforget) hnext hactive .test⟩

end MasternodeList

end QuorumFinality
