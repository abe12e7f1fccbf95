import QuorumFinality.Proofs.MasternodeList.Forget
import QuorumFinality.Proofs.MasternodeList.WellFormed

/-!
# Snapshots

A list can be given away as a single difference that names every masternode and every quorum. The
history is lost on the way: which quorums were deleted or pushed out, and by which differences.
Nothing else is, as long as the last coinbase commits to the quorums. The masternodes arrive in the
order of their registrations and each of them behind the others. The quorums arrive in the order of
the network, which is not that of the types, but those of one type arrive oldest first; and none is
pushed out, because there never were more of them than may be active. So the same masternodes and
quorums are reached at once, and the roots are accepted again, be they calculated or believed.

What a snapshot does not carry are the statuses of the quorums. They are as before any attempt to
verify one, and this is how differences leave them.

## Main definitions

* `Quorum.reset`, `MasternodeList.reset` — with the statuses as they were before any attempt
* `MasternodeList.Commits` — lists whose coinbase commits to them

## Main results

* `MasternodeList.applyMasternodes_toDiff`, `MasternodeList.applyQuorums_toDiff` — the changes of a
  snapshot
* `MasternodeList.Commits.exists_ofDiff_eq` — what a snapshot leads to
* `MasternodeList.ofDiff_toDiff` — a list that differences led to is made again from its snapshot
-/

namespace QuorumFinality

/-- A list that is there for one key only is found once by going over the keys. -/
theorem flatMap_ite_eq {κ α : Type} [DecidableEq κ] {keys : List κ} (hnodup : keys.Nodup) (k : κ)
    (l : List α) : keys.flatMap (fun k' => if k' = k then l else []) = if k ∈ keys then l else [] := by
  induction keys with
  | nil => rfl
  | cons k' keys ih =>
    obtain ⟨hk', hkeys⟩ := List.nodup_cons.mp hnodup
    rw [List.flatMap_cons, ih hkeys]
    by_cases heq : k' = k
    · subst heq
      rw [if_pos rfl, if_neg hk', List.append_nil, if_pos List.mem_cons_self]
    · rw [if_neg heq, List.nil_append]
      simp [Ne.symm heq]

/-- A quorum with the status that it arrived with. -/
def Quorum.reset (q : Quorum) : Quorum :=
  { q with status := Quorum.initialStatus q.entry }

namespace MasternodeList

variable {list next reached : MasternodeList} {diff : ListDiff} {network : Network}
  {type : QuorumType}

/-- A list in which each quorum has the status that it arrived with. -/
def reset (list : MasternodeList) : MasternodeList :=
  { list with quorums := list.quorums.mapValues (List.map Quorum.reset) }

/-- Resetting looks at no status. -/
theorem reset_forget (list : MasternodeList) : list.forget.reset = list.reset := by
  have hquorums : (forgetIn list.quorums).mapValues (List.map Quorum.reset) =
      list.quorums.mapValues (List.map Quorum.reset) := by
    rw [forgetIn, OrderedMap.mapValues_mapValues]
    congr 1
    funext bucket
    rw [Function.comp_apply, List.map_map]
    rfl
  rw [reset, reset]
  exact congrArg (fun quorums => { list with quorums := quorums }) hquorums

/-- Differences leave nothing to reset. -/
theorem IsFresh.reset_eq (h : list.IsFresh) : list.reset = list := by
  have hquorums : list.quorums.mapValues (List.map Quorum.reset) = list.quorums := by
    refine OrderedMap.mapValues_eq_self fun type bucket hget => ?_
    refine (List.map_congr_left fun q hq => ?_).trans (List.map_id _)
    have hq' : q ∈ list.quorumsOfType type := by rwa [quorumsOfType, hget]
    rw [h type q hq']
    rfl
  rw [reset, hquorums]

/-! ### The changes of a snapshot -/

/-- A snapshot names everything that the list holds and deletes nothing. -/
theorem changes_of_toDiff (h : list.toDiff = .ok diff) :
    (diff.deletedMasternodes = [] ∧
      diff.newMasternodes = list.masternodes.values.map Masternode.entry) ∧
    diff.deletedQuorums = [] ∧ diff.newQuorums = list.allQuorums.map Quorum.entry := by
  unfold toDiff at h
  split at h
  · contradiction
  · rw [← Except.ok.inj h]
    exact ⟨⟨rfl, rfl⟩, rfl, rfl⟩

/-- **The masternodes of a list are made again from nothing,** as each of them arrives behind those
with a smaller registration. -/
theorem applyMasternodes_toDiff (hlist : list.WellFormed) (h : list.toDiff = .ok diff) :
    applyMasternodes OrderedMap.empty diff = list.masternodes := by
  obtain ⟨⟨hdeleted, hnew⟩, -, -⟩ := changes_of_toDiff h
  have hentries : applyMasternodes OrderedMap.empty diff =
      OrderedMap.ofList list.masternodes.entries := by
    rw [applyMasternodes, hdeleted, hnew, OrderedMap.values, List.foldl_map, List.foldl_map]
    refine List.foldl_ext _ _ _ fun map e he => ?_
    rw [← hlist.digests_eq e he, ← hlist.key_eq e he]
  rw [hentries, OrderedMap.ofList_entries]

/-- Among the quorums of all types, those of a type are found by their entries. -/
theorem WellFormed.filter_allQuorums (hlist : list.WellFormed)
    (htype : type ∈ list.network.quorumTypes) :
    list.allQuorums.filter (fun q => q.entry.type = type) = list.quorumsOfType type := by
  have htypes : ∀ t, ∀ q ∈ list.quorumsOfType t, q.entry.type = t := fun t q hq =>
    (hlist.isBucket_quorumsOfType (List.ne_nil_of_mem hq)).type_eq q hq
  have hone (t : QuorumType) : (list.quorumsOfType t).filter (fun q => q.entry.type = type) =
      if t = type then list.quorumsOfType type else [] := by
    by_cases heq : t = type
    · subst heq
      rw [if_pos rfl, List.filter_eq_self]
      exact fun q hq => decide_eq_true (htypes t q hq)
    · rw [if_neg heq, List.filter_eq_nil_iff]
      intro q hq hdec
      rw [← of_decide_eq_true hdec, htypes t q hq] at heq
      exact heq rfl
  rw [allQuorums, List.filter_flatMap, funext hone, flatMap_ite_eq (nodup_quorumTypes _),
    if_pos htype]

/-- What arrives with a snapshot are the quorums of the list, as they once arrived. -/
theorem arrivals_toDiff (hlist : list.WellFormed) (hfresh : list.IsFresh)
    (h : list.toDiff = .ok diff) (type : QuorumType) :
    diff.arrivals list.network type = list.quorumsOfType type := by
  obtain ⟨-, -, hnew⟩ := changes_of_toDiff h
  rw [ListDiff.arrivals]
  split
  · rename_i htype
    rw [hnew, List.filter_map, List.map_map]
    change (list.allQuorums.filter fun q => q.entry.type = type).map _ = _
    rw [hlist.filter_allQuorums htype]
    refine (List.map_congr_left fun q hq => ?_).trans (List.map_id _)
    exact (hfresh type q hq).symm
  · rename_i htype
    refine (List.eq_nil_iff_forall_not_mem.mpr fun q hq => ?_).symm
    exact htype (hlist.isBucket_quorumsOfType (List.ne_nil_of_mem hq)).type_mem

/-- Maps that keep no type without quorums are equal if they hold the same quorums of all types. -/
theorem eq_of_bucket_eq {quorums quorums' : QuorumMap}
    (hne : ∀ type b, quorums.get? type = some b → b ≠ [])
    (hne' : ∀ type b, quorums'.get? type = some b → b ≠ [])
    (h : ∀ type, bucket quorums type = bucket quorums' type) : quorums = quorums' := by
  refine OrderedMap.ext_get? fun type => ?_
  have hbucket := h type
  unfold bucket at hbucket
  cases hget : quorums.get? type with
  | none =>
    cases hget' : quorums'.get? type with
    | none => rfl
    | some b' =>
      rw [hget, hget'] at hbucket
      exact absurd hbucket.symm (hne' type b' hget')
  | some b =>
    cases hget' : quorums'.get? type with
    | none =>
      rw [hget, hget'] at hbucket
      exact absurd hbucket (hne type b hget)
    | some b' =>
      rw [hget, hget'] at hbucket
      exact congrArg some hbucket

/-- **The quorums of a list are made again from nothing,** as none of them pushes out another. -/
theorem applyQuorums_toDiff (hlist : list.WellFormed) (hfresh : list.IsFresh)
    (h : list.toDiff = .ok diff) :
    applyQuorums list.network OrderedMap.empty diff = list.quorums := by
  refine eq_of_bucket_eq (fun type b hget => ne_nil_of_get?_applyQuorums hget)
    (fun type b hget => (hlist.isBucket type b hget).ne_nil) fun type => ?_
  have harrivals : diff.arrivals list.network type = bucket list.quorums type :=
    arrivals_toDiff hlist hfresh h type
  have hlength : (bucket list.quorums type).length ≤ type.activeCount := by
    by_cases hnil : bucket list.quorums type = []
    · rw [hnil]
      exact Nat.zero_le _
    · exact (hlist.isBucket_quorumsOfType hnil).length_le
  have hkept : diff.kept type (bucket OrderedMap.empty type) = [] := rfl
  have hpushed : diff.pushedOut list.network type (bucket OrderedMap.empty type) = 0 := by
    rw [ListDiff.pushedOut, harrivals, hkept, List.length_nil]
    omega
  rw [bucket_applyQuorums, hkept, hpushed, harrivals, List.nil_append, List.drop_zero]

/-! ### The list of a snapshot -/

/-- A snapshot leads to the block of the list. -/
theorem block_of_toDiff (h : list.toDiff = .ok diff) :
    diff.baseBlockHash = list.baseBlockHash ∧ diff.blockHash = list.blockHash ∧
      list.coinbaseTx = some diff.coinbaseTx ∧
      list.coinbaseProof.getD CoinbaseProof.empty =
        ⟨diff.totalTransactions, diff.merkleHashes, diff.merkleFlags⟩ := by
  unfold toDiff at h
  split at h
  · contradiction
  · rename_i coinbaseTx hcoinbaseTx
    rw [← Except.ok.inj h]
    exact ⟨rfl, rfl, hcoinbaseTx, rfl⟩

/-- A snapshot carries no statuses. -/
theorem toDiff_forget (list : MasternodeList) : list.forget.toDiff = list.toDiff := by
  have hquorums : list.forget.allQuorums.map Quorum.entry = list.allQuorums.map Quorum.entry := by
    rw [allQuorums, allQuorums, List.map_flatMap, List.map_flatMap]
    refine congrArg (fun f => list.network.quorumTypes.flatMap f) (funext fun type => ?_)
    rw [quorumsOfType_forget, List.map_map]
    rfl
  rw [toDiff, hquorums]
  rfl

/-- The coinbase of the list commits to its masternodes and to its quorums, and the list notes what
the coinbase declares. -/
structure Commits (list : MasternodeList) (payload : CoinbasePayload) : Prop where
  /-- The list has a coinbase with the payload. -/
  coinbaseTx : list.coinbaseTx.bind Transaction.coinbasePayload? = some payload
  /-- The coinbase is proved to be part of the block. -/
  coinbaseProof : list.coinbaseProof.isSome
  /-- The height is noted. -/
  height : list.height = payload.height
  /-- The coinbase commits to quorums. -/
  hasQuorums : payload.hasQuorums = true
  /-- That it does is noted. -/
  quorumsActive : list.quorumsActive = true
  /-- The masternodes have the root that the coinbase declares. -/
  masternodeRoot : masternodeRootOf list.masternodes = payload.masternodeRoot
  /-- The declared root of the masternodes is noted. -/
  declaredMasternodeRoot : list.declaredMasternodeRoot = payload.masternodeRoot
  /-- The quorums are accepted under the root that the coinbase declares. -/
  quorumRoot : acceptQuorumRoot list.quorums payload.quorumRoot = .ok list.quorumRoot
  /-- The declared root of the quorums is noted. -/
  declaredQuorumRoot : list.declaredQuorumRoot = payload.quorumRoot

/-- This is so whenever the last difference commits to quorums. -/
theorem commits_of_apply (h : list.apply diff = .ok next) (hactive : next.quorumsActive = true) :
    ∃ payload, next.Commits payload := by
  obtain ⟨payload, hpayload, hroot, ⟨hquorums, rfl⟩ | ⟨quorumRoot, hquorums, haccept, rfl⟩⟩ :=
    apply_cases h
  · rw [show payload.hasQuorums = true from hactive] at hquorums
    contradiction
  · exact ⟨payload, hpayload, rfl, rfl, hquorums, hactive, hroot, rfl, haccept, rfl⟩

section

variable {payload : CoinbasePayload}

theorem Commits.coinbasePayload?_eq (h : list.Commits payload) (hdiff : list.toDiff = .ok diff) :
    diff.coinbasePayload? = some payload := by
  obtain ⟨-, -, hcoinbaseTx, -⟩ := block_of_toDiff hdiff
  have hpayload := h.coinbaseTx
  rwa [hcoinbaseTx, Option.bind_some] at hpayload

/-- The empty list becomes the list, but for the masternodes, the quorums and their roots, when it
is moved to the block of the snapshot. -/
theorem Commits.advance_empty (h : list.Commits payload) (hdiff : list.toDiff = .ok diff) :
    (empty list.network).advance diff payload =
      { list with
        masternodes := OrderedMap.empty
        quorums := OrderedMap.empty
        masternodeRoot := Hash.null
        quorumRoot := Hash.null
        declaredQuorumRoot := Hash.null } := by
  obtain ⟨hbase, hblock, hcoinbaseTx, hproof⟩ := block_of_toDiff hdiff
  obtain ⟨proof, hsome⟩ := Option.isSome_iff_exists.mp h.coinbaseProof
  rw [hsome, Option.getD_some] at hproof
  have hnull : (empty list.network).baseBlockHash = Hash.null := rfl
  rw [advance, if_pos hnull, hbase, hblock, ← hcoinbaseTx, ← hproof, ← hsome, ← h.height,
    ← h.declaredMasternodeRoot, h.hasQuorums, ← h.quorumsActive]
  rfl

/-- **The list of a snapshot** is the list itself, if the coinbase of the list commits to it. -/
theorem Commits.exists_ofDiff_eq (h : list.Commits payload) (hlist : list.WellFormed)
    (hfresh : list.IsFresh) :
    ∃ snapshot, list.toDiff = .ok snapshot ∧ ofDiff snapshot list.network = .ok list := by
  obtain ⟨snapshot, hsnapshot⟩ : ∃ snapshot, list.toDiff = .ok snapshot := by
    obtain ⟨coinbaseTx, hcoinbaseTx, -⟩ := Option.bind_eq_some_iff.mp h.coinbaseTx
    rw [toDiff, hcoinbaseTx]
    exact ⟨_, rfl⟩
  have hmasternodes := applyMasternodes_toDiff hlist hsnapshot
  have hquorums := applyQuorums_toDiff hlist hfresh hsnapshot
  have hroot : payload.masternodeRoot = list.masternodeRoot :=
    h.declaredMasternodeRoot.symm.trans hlist.masternodeRoot_eq.symm
  refine ⟨snapshot, hsnapshot, ?_⟩
  rw [ofDiff, apply_eq_map (h.coinbasePayload?_eq hsnapshot) (of_decide_eq_true h.hasQuorums),
    h.advance_empty hsnapshot]
  · change (acceptQuorumRoot (applyQuorums list.network OrderedMap.empty snapshot)
      payload.quorumRoot).map _ = _
    rw [hquorums, h.quorumRoot]
    change Except.ok { list with
      masternodes := applyMasternodes OrderedMap.empty snapshot
      masternodeRoot := payload.masternodeRoot
      quorums := applyQuorums list.network OrderedMap.empty snapshot
      declaredQuorumRoot := payload.quorumRoot } = _
    rw [hmasternodes, hquorums, hroot, ← h.declaredQuorumRoot]
  · change masternodeRootOf (applyMasternodes OrderedMap.empty snapshot) = _
    rw [hmasternodes, h.masternodeRoot]

end

/-- **A list is made again from its snapshot** if differences led to it from the empty list and the
last one commits to the quorums. Only the statuses of the quorums, which may have changed since
then, are as they were at first. -/
theorem ofDiff_toDiff {diffs : List ListDiff}
    (hreached : (empty network).applyAll diffs = .ok reached)
    (hlist : list.forget = reached.forget) (hactive : list.quorumsActive = true) :
    ∃ snapshot, list.toDiff = .ok snapshot ∧ ofDiff snapshot list.network = .ok list.reset ∧
      list.reset = reached := by
  have hfresh : reached.IsFresh := isFresh_of_applyAll hreached
  have hwell : reached.WellFormed := (wellFormed_empty network).of_applyAll hreached
  have hreset : list.reset = reached := by
    rw [← reset_forget, hlist, reset_forget, hfresh.reset_eq]
  have htoDiff : list.toDiff = reached.toDiff := by
    rw [← toDiff_forget, hlist, toDiff_forget]
  have hnetwork : list.network = reached.network := by
    rw [← network_forget, hlist, network_forget]
  have hactive' : reached.quorumsActive = true := by
    rw [← hreset]
    exact hactive
  rw [hreset, htoDiff, hnetwork]
  rcases List.eq_nil_or_concat diffs with rfl | ⟨init, last, rfl⟩
  · -- the empty list commits to no quorums
    rw [← Except.ok.inj hreached] at hactive'
    contradiction
  · rw [List.concat_eq_append, applyAll_concat_eq_ok_iff] at hreached
    obtain ⟨before, -, hlast⟩ := hreached
    obtain ⟨payload, hcommits⟩ := commits_of_apply hlast hactive'
    obtain ⟨snapshot, hsnapshot, hrebuilt⟩ := hcommits.exists_ofDiff_eq hwell hfresh
    exact ⟨snapshot, hsnapshot, hrebuilt, rfl⟩

/-- The quorum of the second block has been verified since, and comes back as it arrived. -/
theorem ofDiff_toDiff_sample : ∃ reached list : MasternodeList,
    (empty .regtest).applyAll (Sample.chain.take 2) = .ok reached ∧
    list.forget = reached.forget ∧ list.quorumsActive = true ∧
    list.verifiedQuorums.length = 1 ∧ list.reset.verifiedQuorums.length = 0 ∧
    ∃ snapshot, list.toDiff = .ok snapshot ∧ ofDiff snapshot list.network = .ok list.reset ∧
      list.reset = reached := by
  obtain ⟨reached, hreached, htests⟩ := any_toOption_iff.mp (by decide +kernel :
    ((empty .regtest).applyAll (Sample.chain.take 2)).toOption.any fun reached =>
      let list := { reached with
        quorums := reached.quorums.mapValues (List.map fun q => q.record (.ok ())) }
      list.forget = reached.forget ∧ list.quorumsActive = true ∧
        list.verifiedQuorums.length = 1 ∧ list.reset.verifiedQuorums.length = 0)
  obtain ⟨hforget, hactive, hverified, hreset⟩ := of_decide_eq_true htests
  exact ⟨reached, _, hreached, hforget, hactive, hverified, hreset,
    ofDiff_toDiff hreached hforget hactive⟩

end MasternodeList

end QuorumFinality
