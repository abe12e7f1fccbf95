import QuorumFinality.Proofs.MasternodeList.WellFormed
import QuorumFinality.Proofs.Quorum.Validation
import QuorumFinality.Proofs.Store.History

/-!
# Verified quorums were checked

The status "verified" outlives what it rests on: it is set while the quorums are out of the latest
list, differences carry it along, and the list that a quorum was checked against is folded away.
But it is never set for another reason. Each quorum of the latest list that is verified was once
checked against one of the lists that the history went through, the one at its block; its members
and the quorum itself have signed the commitment of its entry.

The heights of the history need not ascend for this. A store may then answer with a wrong list, but
every list that it answers with is one of its history, and a quorum refuses those that are not at
its block.

## Main definitions

* `Store.CheckedWithin` — a quorum was checked against a list of a history

## Main results

* `Store.Remembers.listAtQuorum_replay` — each list that a store answers with is one of its history
* `Store.isVerified_verifyNext` — a pass verifies nothing that it has not checked
* `Store.Reached.wellFormed_tip` — the latest list is one that differences lead to, up to statuses
* `Store.signed_of_isVerified` — verified quorums were checked
-/

namespace QuorumFinality

open MasternodeList

variable {scheme : SignatureScheme} {list : MasternodeList} {q : Quorum}

/-! ### One quorum -/

/-- Neither the statuses of the list nor that of the quorum matter for its validity. -/
theorem Quorum.validate_forget (q : Quorum) (list : MasternodeList) :
    q.forget.validate scheme list.forget = q.validate scheme list := rfl

/-- Only a quorum that is valid becomes verified. -/
theorem Quorum.isVerified_verify (h : (q.verify scheme list).1.isVerified) :
    q.isVerified ∨ q.validate scheme list = .ok () := by
  obtain ⟨hverified, -⟩ | ⟨-, -, heq⟩ | ⟨-, -, -, heq⟩ | ⟨-, -, -, heq⟩ :=
    q.verify_cases scheme list
  · exact .inl hverified
  · rw [heq] at h
    exact .inl h
  · rw [heq] at h
    exact .inl h
  · rw [heq, isVerified_record] at h
    cases hresult : q.validate scheme list with
    | ok _ => exact .inr rfl
    | error fault => simp [hresult, Except.toBool] at h

/-! ### Well-formed lists -/

namespace MasternodeList

variable {network : Network} {type : QuorumType}

/-- Whether quorums may be kept for a type does not depend on their statuses. -/
theorem isBucket_map_forget {bucket : List Quorum} :
    IsBucket network type (bucket.map Quorum.forget) ↔ IsBucket network type bucket := by
  constructor
  · intro h
    refine ⟨h.type_mem, fun hnil => h.ne_nil (by rw [hnil, List.map_nil]),
      by simpa using h.length_le,
      fun q hq => h.type_eq q.forget (List.mem_map_of_mem hq),
      fun q hq => h.digests_eq q.forget (List.mem_map_of_mem hq)⟩
  · intro h
    refine ⟨h.type_mem, fun hnil => h.ne_nil (List.map_eq_nil_iff.mp hnil),
      by simpa using h.length_le, ?_, ?_⟩
    · exact List.forall_mem_map.mpr h.type_eq
    · exact List.forall_mem_map.mpr h.digests_eq

/-- Nor does it matter to the list as a whole what its quorums have been noted as. -/
theorem wellFormed_forget : list.forget.WellFormed ↔ list.WellFormed := by
  constructor
  · intro h
    refine ⟨h.key_eq, h.digests_eq, h.verify_eq, h.masternodeRoot_eq, fun type bucket hget => ?_⟩
    refine isBucket_map_forget.mp (h.isBucket type (bucket.map Quorum.forget) ?_)
    rw [forget, get?_forgetIn, hget, Option.map_some]
  · intro h
    refine ⟨h.key_eq, h.digests_eq, h.verify_eq, h.masternodeRoot_eq, fun type bucket hget => ?_⟩
    rw [forget, get?_forgetIn, Option.map_eq_some_iff] at hget
    obtain ⟨bucket, hget, rfl⟩ := hget
    exact isBucket_map_forget.mpr (h.isBucket type bucket hget)

end MasternodeList

namespace Store

variable {config : StoreConfig} {folded history : List ListDiff} {s : Store} {diff : ListDiff}
  {network : Network}

/-- **A pass verifies nothing that it has not checked** against the list that the store has for the
block of the quorum. -/
theorem isVerified_verifyNext {tally : Tally}
    (h : (s.verifyNext scheme tally q).2.isVerified) :
    q.isVerified ∨ ∃ list, s.listAtQuorum q.entry.quorumHash = .ok list ∧
      q.validate scheme list = .ok () := by
  cases tally with
  | error error => exact .inl h
  | ok count =>
    cases hlist : s.listAtQuorum q.entry.quorumHash with
    | error error =>
      -- without a list the status stays, or a reason is noted why it was not checked
      simp only [verifyNext, verifyQuorum, hlist] at h
      split at h <;> rename_i hresult <;>
        simp only [Prod.mk.injEq, reduceCtorEq, and_false, Except.error.injEq] at hresult
      · simp [Quorum.isVerified] at h
      · exact .inl (hresult.1 ▸ h)
    | ok list =>
      -- whatever the attempt says of the pass, the quorum is left as it was after the attempt
      have hnext : (s.verifyNext scheme (.ok count) q).2 = (q.verify scheme list).1 := by
        simp only [verifyNext, verifyQuorum, hlist]
        generalize q.verify scheme list = attempt
        obtain ⟨q', _ | _ | _⟩ := attempt <;> rfl
      exact (Quorum.isVerified_verify (hnext ▸ h)).imp_right fun hvalid => ⟨list, rfl, hvalid⟩

/-! ### The lists of a history -/

/-- A quorum was checked against one of the lists that a history went through. -/
def CheckedWithin (scheme : SignatureScheme) (network : Network) (history : List ListDiff)
    (q : Quorum) : Prop :=
  ∃ before list, before <+: history ∧ before ≠ [] ∧
    (MasternodeList.empty network).applyAll before = .ok list ∧ q.validate scheme list = .ok ()

theorem CheckedWithin.append (h : CheckedWithin scheme network history q) (later : List ListDiff) :
    CheckedWithin scheme network (history ++ later) q := by
  obtain ⟨before, list, hstart, hrest⟩ := h
  exact ⟨before, list, hstart.trans (List.prefix_append history later), hrest⟩

/-- Whether a quorum was checked does not depend on its status. -/
theorem CheckedWithin.of_forget {q' : Quorum} (hforget : q.forget = q'.forget)
    (h : CheckedWithin scheme network history q') : CheckedWithin scheme network history q := by
  obtain ⟨before, list, hstart, hne, hlist, hvalid⟩ := h
  refine ⟨before, list, hstart, hne, hlist, ?_⟩
  rw [← Quorum.validate_forget, hforget, Quorum.validate_forget, hvalid]

/-- What is made from the base by the first pending differences is a list of the history. -/
theorem Remembers.replay_of_prefix (h : Remembers config folded s) {diffs : List ListDiff}
    (hstart : diffs <+: s.pending) (hlist : s.base.applyAll diffs = .ok list) :
    ∃ before, before <+: folded ++ s.pending ∧ before ≠ [] ∧
      (MasternodeList.empty config.network).applyAll before = .ok list :=
  ⟨folded ++ diffs, (List.prefix_append_right_inj folded).mpr hstart,
    by simp [h.folded_ne_nil], applyAll_append_eq_ok_iff.mpr ⟨s.base, h.base_eq, hlist⟩⟩

theorem Remembers.listAtHeight_replay (h : Remembers config folded s) {height : UInt32}
    (hlist : s.listAtHeight height = .ok list) :
    ∃ before replayed, before <+: folded ++ s.pending ∧ before ≠ [] ∧
      (MasternodeList.empty config.network).applyAll before = .ok replayed ∧
      replayed.forget = list.forget := by
  unfold listAtHeight at hlist
  split at hlist
  · contradiction
  · split at hlist
    · obtain ⟨replayed, hreplayed, hforget⟩ := h.tip_eq
      obtain ⟨before, hstart, hne, hbefore⟩ :=
        h.replay_of_prefix (List.prefix_refl s.pending) hreplayed
      exact ⟨before, replayed, hstart, hne, hbefore, by rw [hforget, Except.ok.inj hlist]⟩
    · obtain ⟨before, hstart, hne, hbefore⟩ :=
        h.replay_of_prefix ((List.takeWhile_prefix _).map Prod.snd) hlist
      exact ⟨before, list, hstart, hne, hbefore, rfl⟩

/-- **Each list that a store answers with is one of its history,** up to statuses. -/
theorem Remembers.listAtQuorum_replay (h : Remembers config folded s) {quorum : QuorumHash}
    (hlist : s.listAtQuorum quorum = .ok list) :
    ∃ before replayed, before <+: folded ++ s.pending ∧ before ≠ [] ∧
      (MasternodeList.empty config.network).applyAll before = .ok replayed ∧
      replayed.forget = list.forget := by
  have hblock : s.listAtBlock quorum.retype = .ok list := by
    unfold listAtQuorum at hlist
    split at hlist
    · contradiction
    · exact hlist
  unfold listAtBlock at hblock
  split at hblock
  · obtain rfl := Except.ok.inj hblock
    obtain ⟨before, hstart, hne, hbefore⟩ := h.replay_of_prefix List.nil_prefix rfl
    exact ⟨before, s.base, hstart, hne, hbefore, rfl⟩
  · split at hblock
    · contradiction
    · exact h.listAtHeight_replay hblock

/-! ### Runs -/

/-- Differences alone verify nothing. -/
theorem isVerified_eq_false_of_applyAll {diffs : List ListDiff}
    (h : (MasternodeList.empty network).applyAll diffs = .ok list) :
    ∀ type, ∀ q ∈ list.quorumsOfType type, q.isVerified = false := by
  intro type q hq
  rw [isFresh_of_applyAll h type q hq, Quorum.isVerified_ofEntry]

/-- The latest list after a difference is what it makes of the one before. -/
theorem apply_tip_of_addDiff {s' : Store} (h : s.addDiff diff = (s', .ok ())) :
    s.tip.apply diff = .ok s'.tip := by
  unfold addDiff at h
  split at h
  · simp at h
  · split at h
    · simp at h
    · rename_i tip htip
      simp only [prune, Prod.mk.injEq] at h
      rw [htip, ← h.1]

theorem applyAll_tip_of_addDiffs {s' : Store} {diffs : List ListDiff}
    (h : s.addDiffs diffs = .ok s') : s.tip.applyAll diffs = .ok s'.tip := by
  induction diffs generalizing s with
  | nil =>
    rw [← Except.ok.inj h]
    rfl
  | cons diff diffs ih =>
    unfold addDiffs at h
    split at h
    · rename_i next hnext
      exact applyAll_cons_eq_ok_iff.mpr ⟨next.tip, apply_tip_of_addDiff hnext, ih h⟩
    · contradiction

/-- A quorum that is found valid by a list of the store was checked within its history. -/
theorem Remembers.checkedWithin (h : Remembers config folded s)
    (hlist : s.listAtQuorum q.entry.quorumHash = .ok list)
    (hvalid : q.validate scheme list = .ok ()) :
    CheckedWithin scheme config.network (folded ++ s.pending) q := by
  obtain ⟨before, replayed, hstart, hne, hbefore, hforget⟩ := h.listAtQuorum_replay hlist
  refine ⟨before, replayed, hstart, hne, hbefore, ?_⟩
  rw [← Quorum.validate_forget, hforget, Quorum.validate_forget, hvalid]

/-- **A verified quorum was checked within the history.** -/
theorem Reached.checkedWithin (h : Reached scheme config history s) :
    ∀ q ∈ s.tip.quorums.values.flatten, q.isVerified →
      CheckedWithin scheme config.network history q := by
  induction h with
  | build hbuild =>
    obtain ⟨-, -, first, rest, base, rfl, hbase, hrest⟩ := build_cases hbuild
    have htip := applyAll_cons_eq_ok_iff.mpr ⟨base, hbase, applyAll_tip_of_addDiffs hrest⟩
    intro q hq hverified
    obtain ⟨type, hq⟩ := mem_flatten_values_iff.mp hq
    rw [isVerified_eq_false_of_applyAll htip type q hq] at hverified
    contradiction
  | @step history s hs op ih =>
    intro q hq hverified
    obtain ⟨folded, rfl, hremembers⟩ := hs.remembers
    cases op with
    | add diff =>
      obtain ⟨error, hrefused, -⟩ | ⟨_, s', haccepted, -, htip, -⟩ := hremembers.addDiff_cases diff
      · simp only [Store.step, hrefused] at hq
        exact (ih q hq hverified).append _
      · simp only [Store.step, haccepted] at hq
        obtain ⟨type, hq⟩ := mem_flatten_values_iff.mp hq
        rcases mem_quorumsOfType_apply htip hq with hq | hq
        · exact (ih q (mem_flatten_values_iff.mpr ⟨type, hq⟩) hverified).append _
        · rw [(ListDiff.of_mem_arrivals hq).2.2, Quorum.isVerified_ofEntry] at hverified
          contradiction
    | verify =>
      obtain ⟨tally, q', hq', rfl⟩ := mem_verifyCurrent scheme hq
      have hforget := s.forget_verifyNext scheme tally q'
      refine CheckedWithin.append (CheckedWithin.of_forget hforget ?_) _
      rcases isVerified_verifyNext hverified with hbefore | ⟨list, hlist, hvalid⟩
      · exact ih q' hq' hbefore
      · exact hremembers.checkedWithin hlist hvalid

/-- The latest list has nothing stray in it. -/
theorem Reached.wellFormed_tip (h : Reached scheme config history s) : s.tip.WellFormed := by
  obtain ⟨folded, -, hs⟩ := h.remembers
  obtain ⟨list, hlist, hforget⟩ := hs.tip_eq
  have hwell : list.WellFormed :=
    ((wellFormed_empty config.network).of_applyAll hs.base_eq).of_applyAll hlist
  rw [← wellFormed_forget, ← hforget]
  exact wellFormed_forget.mpr hwell

/-- A quorum of the latest list has the digests of its entry. -/
theorem Reached.commitmentHash_eq (h : Reached scheme config history s) :
    ∀ q ∈ s.tip.quorums.values.flatten, q.commitmentHash = q.entry.commitmentHash := by
  intro q hq
  obtain ⟨type, hq⟩ := mem_flatten_values_iff.mp hq
  exact (h.wellFormed_tip.digests_of_mem q hq).2

/-- **Verified quorums were checked.** A verified quorum of the latest list has the full form, and
among the lists that the history went through there is the one at its block, against which it is
valid: the members whose bit is set have signed the commitment of its entry together, and the quorum
has signed it with its own key. -/
theorem signed_of_isVerified (h : Reached scheme config history s)
    (hq : q ∈ s.tip.quorums.values.flatten) (hverified : q.isVerified) :
    ∃ entry before list, q.entry = .full entry ∧ before <+: history ∧ before ≠ [] ∧
      (MasternodeList.empty config.network).applyAll before = .ok list ∧
      list.blockHash.bytes = q.entry.quorumHash.bytes ∧ q.validate scheme list = .ok () ∧
      entry.SignedByMembers scheme list ∧ entry.SignedByQuorum scheme := by
  obtain ⟨before, list, hstart, hne, hlist, hvalid⟩ := h.checkedWithin q hq hverified
  obtain ⟨hblock, entry, hentry, hmembers, hquorum⟩ :=
    (Quorum.validate_eq_ok_iff scheme (h.commitmentHash_eq q hq)).mp hvalid
  exact ⟨entry, before, list, hentry, hstart, hne, hlist, hblock, hvalid, hmembers, hquorum⟩

/-- The quorum of the sample after a pass. -/
theorem signed_of_isVerified_sample : ∃ s q, Reached Sample.scheme Sample.config Sample.chain s ∧
    q ∈ s.tip.quorums.values.flatten ∧ q.isVerified ∧
    ∃ entry before list, q.entry = .full entry ∧ before <+: Sample.chain ∧ before ≠ [] ∧
      (MasternodeList.empty .regtest).applyAll before = .ok list ∧
      list.blockHash.bytes = q.entry.quorumHash.bytes ∧ q.validate Sample.scheme list = .ok () ∧
      entry.SignedByMembers Sample.scheme list ∧ entry.SignedByQuorum Sample.scheme := by
  obtain ⟨s, hs, hstatuses, -⟩ := Sample.exists_verified
  obtain ⟨q, hq, hstatus⟩ := List.map_eq_singleton_iff.mp hstatuses
  have hmem : q ∈ s.tip.quorums.values.flatten :=
    mem_flatten_values_iff.mpr ⟨.test, by simp [hq]⟩
  have hverified : q.isVerified := by simp [Quorum.isVerified, hstatus]
  exact ⟨s, q, hs, hmem, hverified, signed_of_isVerified hs hmem hverified⟩

end Store

end QuorumFinality
