import QuorumFinality.Proofs.MasternodeList.Forget
import QuorumFinality.Proofs.Quorum.Verdict
import QuorumFinality.Store.Verification

/-!
# A pass over the quorums

A pass over the quorums of the latest list writes to their statuses and to nothing else, however it
ends. The configuration, the base and the pending differences are not touched at all, and the latest
list is the same up to statuses.

While a pass goes on, the quorums are not in the store, so that the latest list can be asked for and
changed at once. This cannot be noticed, because a quorum is verified by the block and the
masternodes of a list. A pass that is not ended by a quorum is therefore no more than the single
attempts, each made on the store as it was before the pass, and what it counts along the way are the
quorums that are verified in the end.

## Main definitions

* `Store.forget` — a store without the statuses of its latest list
* `MasternodeList.bare` — a list without its quorums
* `Store.attempt` — a quorum when a pass has come to it
* `Store.NeverEnds` — no quorum is the end of a pass

## Main results

* `Store.forget_verifyCurrent` — a pass leaves the store as it is, up to statuses
* `Store.map_listAtHeight_setTip` — what a store answers when another latest list is put in
* `Store.verifyQuorum_withoutQuorums` — taking the quorums out cannot be noticed
* `Store.mem_verifyCurrent` — where the quorums after a pass come from
* `Store.quorums_verifyCurrent` — a pass that ends by itself attempts each quorum by itself
* `Store.exists_verifyCurrent_eq_ok` — a pass that nothing ends comes to its own end
-/

namespace QuorumFinality

variable (scheme : SignatureScheme)

theorem Quorum.forget_verify (q : Quorum) (list : MasternodeList) :
    (q.verify scheme list).1.forget = q.forget := by
  obtain ⟨status, h⟩ := q.exists_status_verify scheme list
  rw [h]
  rfl

namespace Store

variable (s : Store)

/-! ### One quorum -/

theorem forget_verifyQuorum (q : Quorum) : (s.verifyQuorum scheme q).1.forget = q.forget := by
  unfold verifyQuorum
  split
  · rfl
  · exact Quorum.forget_verify scheme q _

theorem forget_verifyNext (tally : Tally) (q : Quorum) :
    (s.verifyNext scheme tally q).2.forget = q.forget := by
  have hq := s.forget_verifyQuorum scheme q
  unfold verifyNext
  split
  · rfl
  · split <;> rename_i h <;> simp only [h] at hq <;> exact hq

/-! ### The whole pass -/

theorem map_forget_verifyBucket (tally : Tally) (bucket : List Quorum) :
    (s.verifyBucket scheme tally bucket).2.map Quorum.forget = bucket.map Quorum.forget := by
  induction bucket generalizing tally with
  | nil => rfl
  | cons q rest ih => simp [verifyBucket, forget_verifyNext, ih]

/-- **A pass changes statuses only.** -/
theorem forget_tip_verifyCurrent : (s.verifyCurrent scheme).1.tip.forget = s.tip.forget := by
  refine MasternodeList.forget_setQuorums s.tip (OrderedMap.ext ?_)
  simp only [MasternodeList.forgetIn, OrderedMap.mapValues]
  generalize s.tip.quorums.entries = entries
  generalize (Except.ok 0 : Tally) = tally
  induction entries generalizing tally with
  | nil => rfl
  | cons e rest ih => simp [OrderedMap.mapAccumEntries, map_forget_verifyBucket, ih]

/-! ### Stores up to statuses -/

/-- A store as if nobody had tried to verify the quorums of its latest list. -/
def forget : Store :=
  { s with tip := s.tip.forget }

@[simp] theorem config_forget : s.forget.config = s.config := rfl

@[simp] theorem base_forget : s.forget.base = s.base := rfl

@[simp] theorem diffs_forget : s.forget.diffs = s.diffs := rfl

@[simp] theorem tip_forget : s.forget.tip = s.tip.forget := rfl

@[simp] theorem heights_forget : s.forget.heights = s.heights := rfl

@[simp] theorem tipHeight_forget : s.forget.tipHeight = s.tipHeight := rfl

@[simp] theorem forget_forget : s.forget.forget = s.forget := by
  rw [forget, tip_forget, MasternodeList.forget_forget]
  rfl

/-- **A pass over the quorums** leaves the store as it is, up to statuses. -/
theorem forget_verifyCurrent : (s.verifyCurrent scheme).1.forget = s.forget := by
  rw [forget, forget_tip_verifyCurrent]
  rfl

end Store

/-! ### Another latest list -/

namespace Store

variable {α : Type} {f : MasternodeList → α} (s : Store) {tip : MasternodeList}

/-- A store answers with its latest list or with one that it makes from the base. So if another
latest list is put in, whoever cannot tell the two apart cannot tell the answers apart. -/
theorem map_listAtHeight_setTip (hheight : tip.height = s.tip.height) (hf : f tip = f s.tip)
    (height : UInt32) :
    (listAtHeight { s with tip } height).map f = (s.listAtHeight height).map f := by
  have hset : listAtHeight { s with tip } height =
      if height.toNat < s.baseHeight.toNat ∨ s.tipHeight.toNat < height.toNat then
        .error (.heightOutOfRange height s.baseHeight s.tipHeight)
      else if height = s.tipHeight then .ok tip
      else s.base.applyAll (s.diffsUpTo height) := by
    rw [listAtHeight, show tipHeight { s with tip } = s.tipHeight from hheight]
    rfl
  rw [hset, listAtHeight]
  by_cases hout : height.toNat < s.baseHeight.toNat ∨ s.tipHeight.toNat < height.toNat
  · rw [if_pos hout, if_pos hout]
  · rw [if_neg hout, if_neg hout]
    by_cases htip : height = s.tipHeight
    · rw [if_pos htip, if_pos htip]
      exact congrArg Except.ok hf
    · rw [if_neg htip, if_neg htip]

theorem map_listAtBlock_setTip (hheight : tip.height = s.tip.height) (hf : f tip = f s.tip)
    (block : BlockHash) :
    (listAtBlock { s with tip } block).map f = (s.listAtBlock block).map f := by
  simp only [listAtBlock]
  by_cases hbase : block = s.base.blockHash
  · rw [if_pos hbase, if_pos hbase]
  · rw [if_neg hbase, if_neg hbase]
    cases s.diffs.find? fun d => d.2.blockHash = block with
    | none => rfl
    | some d => exact s.map_listAtHeight_setTip hheight hf d.1

theorem map_listAtQuorum_setTip (hheight : tip.height = s.tip.height) (hf : f tip = f s.tip)
    (quorum : QuorumHash) :
    (listAtQuorum { s with tip } quorum).map f = (s.listAtQuorum quorum).map f := by
  have hblock := s.map_listAtBlock_setTip hheight hf quorum.retype
  unfold listAtQuorum
  obtain ⟨error, h, h'⟩ | ⟨list, list', h, h', hlist⟩ := map_eq_map_iff.mp hblock
  · rw [h, h']
  · rw [h, h']
    exact congrArg Except.ok hlist

end Store

/-! ### Without the quorums -/

/-- A list without its quorums. -/
def MasternodeList.bare (list : MasternodeList) : MasternodeList :=
  { list with quorums := OrderedMap.empty }

@[simp] theorem MasternodeList.height_bare (list : MasternodeList) :
    list.bare.height = list.height := rfl

@[simp] theorem MasternodeList.bare_bare (list : MasternodeList) : list.bare.bare = list.bare :=
  rfl

/-- Verifying a quorum does not look at the quorums of the list. -/
theorem Quorum.verify_bare (q : Quorum) (list : MasternodeList) :
    q.verify scheme list.bare = q.verify scheme list := rfl

namespace Store

/-- **Taking the quorums out cannot be noticed** by a quorum that is being verified. -/
theorem verifyQuorum_withoutQuorums (s : Store) (q : Quorum) :
    s.withoutQuorums.verifyQuorum scheme q = s.verifyQuorum scheme q := by
  have hlist : (s.withoutQuorums.listAtQuorum q.entry.quorumHash).map MasternodeList.bare =
      (s.listAtQuorum q.entry.quorumHash).map MasternodeList.bare := by
    have hbare : s.withoutQuorums = { s with tip := s.tip.bare } := rfl
    rw [hbare]
    exact s.map_listAtQuorum_setTip s.tip.height_bare s.tip.bare_bare _
  unfold verifyQuorum
  obtain ⟨error, h, h'⟩ | ⟨bare, list, h, h', hbare⟩ := map_eq_map_iff.mp hlist
  · rw [h, h']
  · have hverify : q.verify scheme bare = q.verify scheme list := by
      rw [← Quorum.verify_bare, hbare, Quorum.verify_bare]
    simp only [h, h', hverify]

/-! ### Attempts -/

theorem verifyNext_withoutQuorums (s : Store) (tally : Tally) (q : Quorum) :
    s.withoutQuorums.verifyNext scheme tally q = s.verifyNext scheme tally q := by
  simp only [verifyNext, verifyQuorum_withoutQuorums]

theorem mem_verifyBucket {s : Store} {tally : Tally} {bucket : List Quorum} {q : Quorum}
    (h : q ∈ (s.verifyBucket scheme tally bucket).2) :
    ∃ tally', ∃ q' ∈ bucket, q = (s.verifyNext scheme tally' q').2 := by
  induction bucket generalizing tally with
  | nil => simp [verifyBucket] at h
  | cons first rest ih =>
    rcases List.mem_cons.mp h with rfl | h
    · exact ⟨tally, first, List.mem_cons_self, rfl⟩
    · obtain ⟨tally', q', hq', rfl⟩ := ih h
      exact ⟨tally', q', List.mem_cons_of_mem _ hq', rfl⟩

/-- **A quorum after a pass** is what has become of one that was there before, when the pass came to
it. This is so however the pass ends. -/
theorem mem_verifyCurrent {s : Store} {q : Quorum}
    (h : q ∈ (s.verifyCurrent scheme).1.tip.quorums.values.flatten) :
    ∃ tally, ∃ q' ∈ s.tip.quorums.values.flatten, q = (s.verifyNext scheme tally q').2 := by
  obtain ⟨b, hb, hq⟩ := List.mem_flatten.mp h
  obtain ⟨e, he, rfl⟩ := List.mem_map.mp hb
  obtain ⟨tally, e', he', rfl⟩ := OrderedMap.mem_mapAccumEntries he
  obtain ⟨tally', q', hq', rfl⟩ := mem_verifyBucket scheme hq
  exact ⟨tally', q', List.mem_flatten.mpr ⟨e'.2, List.mem_map_of_mem he', hq'⟩,
    by rw [verifyNext_withoutQuorums]⟩

/-- A quorum when a pass that has not ended has come to it. -/
def attempt (s : Store) (q : Quorum) : Quorum :=
  (s.verifyNext scheme (.ok 0) q).2

variable {s : Store} {tally : Tally} {n : Nat}

/-- An attempt that comes to a result says whether the quorum is verified afterwards. -/
theorem isVerified_verifyQuorum {q q' : Quorum} {valid : Bool}
    (h : s.verifyQuorum scheme q = (q', .ok valid)) : q'.isVerified = valid := by
  cases hlist : s.listAtQuorum q.entry.quorumHash with
  | error error =>
    rw [verifyQuorum, hlist] at h
    cases h
  | ok list =>
    have hquorum : s.verifyQuorum scheme q =
        ((q.verify scheme list).1, (q.verify scheme list).2.mapError .invalidQuorum) := by
      rw [verifyQuorum, hlist]
    rw [hquorum] at h
    obtain ⟨rfl, hresult⟩ := Prod.mk.inj h
    have hvalid : (q.verify scheme list).2 = .ok valid := by
      cases hverify : (q.verify scheme list).2 with
      | error fault =>
        rw [hverify] at hresult
        change Except.error (ListError.invalidQuorum fault) = _ at hresult
        contradiction
      | ok valid' =>
        rw [hverify] at hresult
        exact congrArg Except.ok (Except.ok.inj hresult)
    rw [Bool.eq_iff_iff, Quorum.isVerified_verify_iff, hvalid, Except.ok.injEq]

/-- A pass that does not end at a quorum has attempted it, and counts it if it is verified now. -/
theorem verifyNext_eq_ok {q : Quorum} (h : (s.verifyNext scheme tally q).1 = .ok n) :
    ∃ count, tally = .ok count ∧ (s.verifyNext scheme tally q).2 = s.attempt scheme q ∧
      n = count + [s.attempt scheme q].countP Quorum.isVerified := by
  cases tally with
  | error error => cases h
  | ok count =>
    refine ⟨count, rfl, ?_⟩
    unfold attempt
    cases hq : s.verifyQuorum scheme q with
    | mk q' result =>
      cases result with
      | ok valid =>
        have hvalid := isVerified_verifyQuorum scheme hq
        cases valid <;> simp_all [verifyNext]
      | error error =>
        cases error <;> simp_all [verifyNext, Quorum.isVerified]

/-- The same for the quorums of a type. -/
theorem verifyBucket_eq_ok {bucket : List Quorum}
    (h : (s.withoutQuorums.verifyBucket scheme tally bucket).1 = .ok n) :
    ∃ count, tally = .ok count ∧
      (s.withoutQuorums.verifyBucket scheme tally bucket).2 = bucket.map (s.attempt scheme) ∧
      n = count + (bucket.map (s.attempt scheme)).countP Quorum.isVerified := by
  induction bucket generalizing tally with
  | nil => exact ⟨n, h, rfl, rfl⟩
  | cons q rest ih =>
    simp only [verifyBucket, verifyNext_withoutQuorums] at h ⊢
    obtain ⟨count', hnext, hrest, hn⟩ := ih h
    obtain ⟨count, rfl, hq, hcount⟩ := verifyNext_eq_ok scheme hnext
    refine ⟨count, rfl, by rw [hrest, hq, List.map_cons], ?_⟩
    rw [hn, hcount, Nat.add_assoc, ← List.countP_append, List.singleton_append, List.map_cons]

/-- The same for the quorums of all types. -/
theorem mapAccumEntries_eq_ok {entries : List (QuorumType × List Quorum)}
    (h : (OrderedMap.mapAccumEntries (s.withoutQuorums.verifyBucket scheme) tally entries).1 =
      .ok n) :
    ∃ count, tally = .ok count ∧
      (OrderedMap.mapAccumEntries (s.withoutQuorums.verifyBucket scheme) tally entries).2 =
        entries.map (fun e => (e.1, e.2.map (s.attempt scheme))) ∧
      n = count + (entries.flatMap fun e => e.2.map (s.attempt scheme)).countP
        Quorum.isVerified := by
  induction entries generalizing tally with
  | nil => exact ⟨n, h, rfl, rfl⟩
  | cons e rest ih =>
    simp only [OrderedMap.mapAccumEntries] at h ⊢
    obtain ⟨count', hbucket, hrest, hn⟩ := ih h
    obtain ⟨count, rfl, he, hcount⟩ := verifyBucket_eq_ok scheme hbucket
    refine ⟨count, rfl, by rw [hrest, he, List.map_cons], ?_⟩
    rw [hn, hcount, Nat.add_assoc, ← List.countP_append, List.flatMap_cons]

/-- **A pass that ends by itself** has attempted each quorum by itself, on the store as it was
before, and the count is that of the quorums that are verified now. -/
theorem quorums_verifyCurrent (h : (s.verifyCurrent scheme).2 = .ok n) :
    (s.verifyCurrent scheme).1.tip.quorums =
        s.tip.quorums.mapValues (List.map (s.attempt scheme)) ∧
      n = (s.verifyCurrent scheme).1.tip.quorums.values.flatten.countP Quorum.isVerified := by
  obtain ⟨count, hcount, hentries, hn⟩ := mapAccumEntries_eq_ok scheme h
  obtain rfl : 0 = count := Except.ok.inj hcount
  have hquorums : (s.verifyCurrent scheme).1.tip.quorums =
      s.tip.quorums.mapValues (List.map (s.attempt scheme)) := OrderedMap.ext hentries
  refine ⟨hquorums, ?_⟩
  rw [hn, Nat.zero_add, hquorums, OrderedMap.values_mapValues, OrderedMap.values, List.map_map]
  rfl

theorem quorumsOfType_of_verifyCurrent (h : (s.verifyCurrent scheme).2 = .ok n)
    (type : QuorumType) :
    (s.verifyCurrent scheme).1.tip.quorumsOfType type =
      (s.tip.quorumsOfType type).map (s.attempt scheme) := by
  rw [MasternodeList.quorumsOfType, (quorums_verifyCurrent scheme h).1, OrderedMap.get?_mapValues,
    MasternodeList.quorumsOfType]
  cases s.tip.quorums.get? type <;> rfl

/-! ### Passes that nothing ends -/

/-- No quorum ends a pass over the store. -/
def NeverEnds (s : Store) : Prop :=
  ∀ count q, ∃ count', s.verifyNext scheme (.ok count) q = (.ok count', s.attempt scheme q)

theorem NeverEnds.exists_verifyBucket (h : s.NeverEnds scheme) (count : Nat)
    (bucket : List Quorum) :
    ∃ count', (s.withoutQuorums.verifyBucket scheme (.ok count) bucket).1 = .ok count' := by
  induction bucket generalizing count with
  | nil => exact ⟨count, rfl⟩
  | cons q rest ih =>
    obtain ⟨count', hq⟩ := h count q
    obtain ⟨count'', hrest⟩ := ih count'
    exact ⟨count'', by simp only [verifyBucket, verifyNext_withoutQuorums, hq, hrest]⟩

/-- A pass that nothing ends comes to an end of its own. -/
theorem exists_verifyCurrent_eq_ok (h : s.NeverEnds scheme) :
    ∃ count, (s.verifyCurrent scheme).2 = .ok count := by
  unfold verifyCurrent OrderedMap.mapAccum
  simp only
  generalize s.tip.quorums.entries = entries
  generalize 0 = count
  induction entries generalizing count with
  | nil => exact ⟨count, rfl⟩
  | cons e rest ih =>
    obtain ⟨count', he⟩ := h.exists_verifyBucket scheme count e.2
    simp only [OrderedMap.mapAccumEntries, he]
    exact ih count'

/-- **A pass that nothing ends** attempts each quorum by itself. -/
theorem quorumsOfType_verifyCurrent (h : s.NeverEnds scheme) (type : QuorumType) :
    (s.verifyCurrent scheme).1.tip.quorumsOfType type =
      (s.tip.quorumsOfType type).map (s.attempt scheme) := by
  obtain ⟨count, hcount⟩ := exists_verifyCurrent_eq_ok scheme h
  exact quorumsOfType_of_verifyCurrent scheme hcount type

end Store

end QuorumFinality
