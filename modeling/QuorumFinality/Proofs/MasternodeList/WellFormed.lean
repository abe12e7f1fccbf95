import Mathlib.Data.List.Perm.Subperm
import QuorumFinality.Proofs.MasternodeList.Buckets
import QuorumFinality.Proofs.Store.Run

/-!
# Lists that differences lead to

A list has room for much that no difference leads to: a masternode under another's registration, a
digest of another entry, a quorum of a type that the network does not have. The last of these would
go unnoticed by everything that goes over the types of the network, but it would count and have a
leaf in the tree. `WellFormed` says that there is nothing of the kind, and it is an invariant: a
difference that is accepted keeps it, whatever it deletes, replaces, pushes out or leaves alone.

Nothing here keeps a quorum from standing twice in its bucket; that is not excluded by differences
either.

## Main definitions

* `MasternodeList.IsBucket` — what a map may hold for a type
* `MasternodeList.WellFormed` — lists without anything stray

## Main results

* `MasternodeList.WellFormed.of_apply` — a difference keeps the invariant
* `MasternodeList.WellFormed.allQuorums_perm` — going over the types of the network misses nothing
* `MasternodeList.wellFormed_of_applyAll` — differences lead to nothing else from the empty list
-/

namespace QuorumFinality

namespace OrderedMap

variable {κ α : Type} [Ord κ] [Std.LawfulEqOrd κ]

theorem nodup_keys (m : OrderedMap κ α) : m.keys.Nodup := by
  refine List.pairwise_map.mpr (m.sorted.imp fun {a b} hlt heq => ?_)
  rw [heq, Std.ReflOrd.compare_self] at hlt
  contradiction

/-- Going over keys in any order finds everything that is kept under them, provided that no key is
missing and none is listed twice. -/
theorem flatMap_get?_perm (m : OrderedMap κ (List α)) {keys : List κ} (hnodup : keys.Nodup)
    (hkeys : ∀ k a, m.get? k = some a → k ∈ keys) :
    (keys.flatMap fun k => (m.get? k).getD []).Perm m.values.flatten := by
  have hsub : m.keys ⊆ keys := by
    intro k hk
    obtain ⟨e, he, rfl⟩ := List.mem_map.mp hk
    exact hkeys e.1 e.2 (mem_entries_iff.mp he)
  obtain ⟨listed, hlisted, hsublist⟩ := List.subperm_of_subset m.nodup_keys hsub
  obtain ⟨others, hothers⟩ := hsublist.exists_perm_append
  have hperm : keys.Perm (m.keys ++ others) := hothers.trans (hlisted.append_right others)
  have hnone : others.flatMap (fun k => (m.get? k).getD []) = [] := by
    refine List.flatMap_eq_nil_iff.mpr fun k hk => ?_
    cases hget : m.get? k with
    | none => rfl
    | some a =>
      have hmem : k ∈ m.keys := List.mem_map_of_mem (mem_entries_iff.mpr hget)
      exact absurd rfl ((List.nodup_append.mp (hperm.nodup hnodup)).2.2 k hmem k hk)
  have hown : m.keys.flatMap (fun k => (m.get? k).getD []) = m.values.flatten := by
    rw [OrderedMap.keys, values, List.flatMap_map, List.flatMap]
    refine congrArg List.flatten (List.map_congr_left fun e he => ?_)
    rw [mem_entries_iff.mp (show (e.1, e.2) ∈ m.entries from he), Option.getD_some]
  have hall := hperm.flatMap_right fun k => (m.get? k).getD []
  rwa [List.flatMap_append, hnone, hown, List.append_nil] at hall

end OrderedMap

namespace MasternodeList

/-! ### Quorums under their types -/

/-- What the map of quorums may hold for a type: the network has the type, there are quorums, not
more of them than may be active, and each of them is of the type and has its own digests. -/
structure IsBucket (network : Network) (type : QuorumType) (bucket : List Quorum) : Prop where
  /-- The network has the type. -/
  type_mem : type ∈ network.quorumTypes
  /-- A type without quorums is left out. -/
  ne_nil : bucket ≠ []
  /-- There are not more quorums than may be active at once. -/
  length_le : bucket.length ≤ type.activeCount
  /-- Each quorum is of the type. -/
  type_eq : ∀ q ∈ bucket, q.entry.type = type
  /-- The digests are those of the entry. -/
  digests_eq : ∀ q ∈ bucket,
    q.entryHash = q.entry.entryHash ∧ q.commitmentHash = q.entry.commitmentHash

/-- A list without anything stray: each masternode stands under its registration, each quorum under
its type, all digests are those of the entries, and the masternodes have the declared root. -/
structure WellFormed (list : MasternodeList) : Prop where
  /-- A masternode stands under its registration. -/
  key_eq : ∀ e ∈ list.masternodes.entries, e.1 = e.2.entry.proTxHash
  /-- A masternode has the digests of its entry and of its confirmation. -/
  digests_eq : ∀ e ∈ list.masternodes.entries, e.2 = Masternode.ofEntry e.2.entry
  /-- The masternodes have the root that was declared. -/
  verify_eq : list.verify = true
  /-- It is the root that the list notes. -/
  masternodeRoot_eq : list.masternodeRoot = list.declaredMasternodeRoot
  /-- What is kept for a type may be kept for it. -/
  isBucket : ∀ type bucket, list.quorums.get? type = some bucket →
    IsBucket list.network type bucket

variable {list next last : MasternodeList} {diff : ListDiff} {network : Network}
  {type : QuorumType}

/-! ### The invariant -/

theorem wellFormed_empty (network : Network) : (empty network).WellFormed where
  key_eq := by simp [empty, OrderedMap.empty]
  digests_eq := by simp [empty, OrderedMap.empty]
  verify_eq := decide_eq_true masternodeRootOf_empty
  masternodeRoot_eq := rfl
  isBucket := by simp [empty]

/-- The quorums of a type, if there are any, may be kept for it. -/
theorem WellFormed.isBucket_quorumsOfType (h : list.WellFormed)
    (hne : list.quorumsOfType type ≠ []) :
    IsBucket list.network type (list.quorumsOfType type) := by
  cases hget : list.quorums.get? type with
  | none => simp [quorumsOfType, hget] at hne
  | some bucket =>
    rw [quorumsOfType, hget]
    exact h.isBucket type bucket hget

/-- Quorums of a type after a difference, seen from one bucket to the next. -/
theorem isBucket_of_drop {before after : List Quorum}
    (hbefore : before ≠ [] → IsBucket network type before)
    (hafter : after = (diff.kept type before ++ diff.arrivals network type).drop
      (diff.pushedOut network type before))
    (hne : after ≠ []) : IsBucket network type after := by
  have hlimit : before.length ≤ type.activeCount := by
    by_cases hnil : before = []
    · simp [hnil]
    · exact (hbefore hnil).length_le
  have hkept : (diff.kept type before).length ≤ before.length := List.length_filter_le _ _
  -- whatever is there now was there before or has just arrived
  have hmem : ∀ q ∈ after, (q ∈ before ∧ IsBucket network type before) ∨
      q ∈ diff.arrivals network type := by
    intro q hq
    rw [hafter] at hq
    rcases List.mem_append.mp (List.mem_of_mem_drop hq) with hq | hq
    · have hq : q ∈ before := (List.mem_filter.mp hq).1
      exact .inl ⟨hq, hbefore (List.ne_nil_of_mem hq)⟩
    · exact .inr hq
  refine ⟨?_, hne, ?_, fun q hq => ?_, fun q hq => ?_⟩
  · obtain ⟨q, hq⟩ := List.exists_mem_of_ne_nil after hne
    rcases hmem q hq with ⟨-, hbucket⟩ | harrived
    · exact hbucket.type_mem
    · exact (ListDiff.of_mem_arrivals harrived).1
  · rw [hafter, List.length_drop, List.length_append, ListDiff.pushedOut]
    omega
  · rcases hmem q hq with ⟨hq, hbucket⟩ | harrived
    · exact hbucket.type_eq q hq
    · exact (ListDiff.of_mem_arrivals harrived).2.1
  · rcases hmem q hq with ⟨hq, hbucket⟩ | harrived
    · exact hbucket.digests_eq q hq
    · rw [(ListDiff.of_mem_arrivals harrived).2.2]
      exact ⟨rfl, rfl⟩

/-- No type is kept without quorums after a change of the quorums. -/
theorem ne_nil_of_get?_applyQuorums {quorums : QuorumMap} {bucket : List Quorum}
    (h : (applyQuorums network quorums diff).get? type = some bucket) : bucket ≠ [] := by
  rw [applyQuorums, OrderedMap.get?_filter, Option.filter_eq_some_iff] at h
  rintro rfl
  simpa using h.2

/-- **A difference keeps the invariant.** -/
theorem WellFormed.of_apply (hlist : list.WellFormed) (h : list.apply diff = .ok next) :
    next.WellFormed := by
  have hkey := forall_mem_applyMasternodes hlist.key_eq (fun _ => rfl) diff
  have hdigests := forall_mem_applyMasternodes hlist.digests_eq (fun _ => rfl) diff
  obtain ⟨payload, -, hroot, ⟨-, rfl⟩ | ⟨quorumRoot, -, -, rfl⟩⟩ := apply_cases h
  · exact ⟨hkey, hdigests, decide_eq_true hroot, rfl, hlist.isBucket⟩
  · refine ⟨hkey, hdigests, decide_eq_true hroot, rfl, fun type after hget => ?_⟩
    have hbefore : bucket list.quorums type ≠ [] →
        IsBucket list.network type (bucket list.quorums type) := hlist.isBucket_quorumsOfType
    have hafter := bucket_applyQuorums list.network list.quorums diff type
    rw [bucket, hget] at hafter
    exact isBucket_of_drop hbefore hafter (ne_nil_of_get?_applyQuorums hget)

theorem WellFormed.of_applyAll {diffs : List ListDiff} (hlist : list.WellFormed)
    (h : list.applyAll diffs = .ok last) : last.WellFormed :=
  applyAll_keeps (fun _ _ _ hl hnext => hl.of_apply hnext) hlist h

/-! ### What the invariant is good for -/

/-- A quorum has the digests of its entry. -/
theorem WellFormed.digests_of_mem (h : list.WellFormed) :
    ∀ q ∈ list.quorumsOfType type,
      q.entryHash = q.entry.entryHash ∧ q.commitmentHash = q.entry.commitmentHash := by
  intro q hq
  exact (h.isBucket_quorumsOfType (List.ne_nil_of_mem hq)).digests_eq q hq

theorem nodup_quorumTypes (network : Network) : network.quorumTypes.Nodup := by
  cases network <;> decide

/-- **Going over the types of the network misses nothing** and finds nothing twice. -/
theorem WellFormed.allQuorums_perm (h : list.WellFormed) :
    list.allQuorums.Perm list.quorums.values.flatten :=
  list.quorums.flatMap_get?_perm (nodup_quorumTypes list.network) fun type bucket hget =>
    (h.isBucket type bucket hget).type_mem

/-- The masternodes after differences have the root that the last one declares. -/
theorem masternodeRoot_of_applyAll {diffs : List ListDiff}
    (h : list.applyAll (diffs ++ [diff]) = .ok last) :
    diff.coinbasePayload?.map CoinbasePayload.masternodeRoot = some last.masternodeRoot := by
  obtain ⟨next, -, hlast⟩ := applyAll_concat_eq_ok_iff.mp h
  obtain ⟨payload, hpayload, -, ⟨-, rfl⟩ | ⟨_, -, -, rfl⟩⟩ := apply_cases hlast <;>
    rw [hpayload, Option.map_some]

/-- **Differences lead to well-formed lists** from the empty one: to lists with the root that the
last difference declares, and in which every quorum is found by going over the types of the
network. -/
theorem wellFormed_of_applyAll {diffs : List ListDiff}
    (h : (empty network).applyAll diffs = .ok last) :
    last.WellFormed ∧ last.network = network ∧
      (∀ diff, diffs.getLast? = some diff →
        diff.coinbasePayload?.map CoinbasePayload.masternodeRoot = some last.masternodeRoot) ∧
      last.allQuorums.Perm last.quorums.values.flatten ∧
      last.allQuorums.length = quorumCount last.quorums := by
  have hwell : last.WellFormed := (wellFormed_empty network).of_applyAll h
  refine ⟨hwell, network_of_applyAll h, fun diff hdiff => ?_, hwell.allQuorums_perm,
    hwell.allQuorums_perm.length_eq⟩
  obtain ⟨init, rfl⟩ := List.getLast?_eq_some_iff.mp hdiff
  exact masternodeRoot_of_applyAll h

/-- A masternode and a quorum, the second of which the third difference leaves alone. -/
theorem wellFormed_of_applyAll_sample : ∃ last,
    (empty .regtest).applyAll (Sample.chain.take 3) = .ok last ∧
    last.masternodes.size = 1 ∧ quorumCount last.quorums = 1 ∧
    last.WellFormed ∧ last.network = .regtest ∧
      (∀ diff, (Sample.chain.take 3).getLast? = some diff →
        diff.coinbasePayload?.map CoinbasePayload.masternodeRoot = some last.masternodeRoot) ∧
      last.allQuorums.Perm last.quorums.values.flatten ∧
      last.allQuorums.length = quorumCount last.quorums := by
  obtain ⟨last, hlast, hsize⟩ := any_toOption_iff.mp (by decide +kernel :
    ((empty .regtest).applyAll (Sample.chain.take 3)).toOption.any fun last =>
      last.masternodes.size = 1 ∧ quorumCount last.quorums = 1)
  obtain ⟨hmasternodes, hquorums⟩ := of_decide_eq_true hsize
  exact ⟨last, hlast, hmasternodes, hquorums, wellFormed_of_applyAll hlast⟩

end MasternodeList

end QuorumFinality
