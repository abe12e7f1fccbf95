import QuorumFinality.Proofs.Store.Latch

/-!
# The list at a block

A store knows its pending differences by their heights as well as by their blocks. Asked for a block
it looks for the first difference that leads there and goes on with the height of that one. A height
that two differences share would lead it astray, to a list at another block; quorums would then be
checked against masternodes that are not their members. With ascending heights the way there and
back arrives where it started: the list is that of the history up to the difference which was found.

A block that is not retained is the only reason for having no list. So a quorum can always be
verified or skipped, and a pass over the quorums comes to its end.

## Main definitions

* `Store.UpToBlock` — a history up to a block of the window

## Main results

* `Store.Reached.listAtBlock_replay` — the list at a block is that of the history up to it
* `Store.listAtBlock_eq_replay` — what a store answers about blocks
-/

namespace QuorumFinality

open MasternodeList

namespace Store

/-- A history up to a block: what has been folded, if the base is at the block, and otherwise also
what is pending up to the first difference that leads to the block. -/
inductive UpToBlock (s : Store) (block : BlockHash) : List ListDiff → List ListDiff → Prop
  /-- The base is at the block. -/
  | base {folded : List ListDiff} (hblock : s.base.blockHash = block) :
      UpToBlock s block (folded ++ s.pending) folded
  /-- A pending difference is the first one that leads to the block. -/
  | pending {folded before after : List ListDiff} {diff : ListDiff}
      (hbase : s.base.blockHash ≠ block) (hsplit : s.pending = before ++ diff :: after)
      (hbefore : ∀ d ∈ before, d.blockHash ≠ block) (hblock : diff.blockHash = block) :
      UpToBlock s block (folded ++ s.pending) (folded ++ before ++ [diff])

variable {scheme : SignatureScheme} {config : StoreConfig} {history : List ListDiff} {s : Store}
  {list : MasternodeList} {block : BlockHash}

/-- **The list at a block is that of the history up to it,** up to statuses. -/
theorem Reached.listAtBlock_replay (h : Reached scheme config history s) (hasc : Ascending history)
    (hlist : s.listAtBlock block = .ok list) :
    ∃ part replayed, s.UpToBlock block history part ∧
      (MasternodeList.empty config.network).applyAll part = .ok replayed ∧
      list.forget = replayed.forget := by
  obtain ⟨folded, rfl, hs⟩ := h.remembers
  by_cases hbase : block = s.base.blockHash
  · rw [listAtBlock, if_pos hbase, Except.ok.injEq] at hlist
    exact ⟨folded, s.base, .base hbase.symm, hs.base_eq, by rw [hlist]⟩
  · rw [listAtBlock, if_neg hbase] at hlist
    cases hfind : s.diffs.find? fun d => d.2.blockHash = block with
    | none => simp [hfind] at hlist
    | some d =>
      obtain ⟨hblock, before, after, hsplit, hbefore⟩ := List.find?_eq_some_iff_append.mp hfind
      simp only [hfind] at hlist
      obtain ⟨list', replayed, hlist', hreplay, hforget⟩ := h.listAtHeight_of_split hs hasc hsplit
      obtain rfl : list = list' := Except.ok.inj (hlist.symm.trans hlist')
      have hpending : s.pending = before.map Prod.snd ++ d.2 :: after.map Prod.snd := by
        simp [Store.pending, hsplit]
      have hothers : ∀ e ∈ before.map Prod.snd, e.blockHash ≠ block :=
        List.forall_mem_map.mpr fun e he => by simpa using hbefore e he
      exact ⟨_, replayed, .pending (Ne.symm hbase) hpending hothers (of_decide_eq_true hblock),
        hreplay, hforget⟩

/-- **What a store answers about blocks.** It has a list exactly for the blocks that it retains, and
calls any other block unknown. The list is at the block, and it is that of the history up to the
block, statuses apart. For the block of a quorum the answer is the same, only that a block which is
not retained is called missing. So a pass over the quorums is never ended by one of them. -/
theorem listAtBlock_eq_replay (h : Reached scheme config history s) (hasc : Ascending history) :
    (∀ block, (∃ list, s.listAtBlock block = .ok list) ↔
      block = s.base.blockHash ∨ ∃ d ∈ s.diffs, d.2.blockHash = block) ∧
    (∀ block error, s.listAtBlock block = .error error ↔
      error = .unknownBlock block ∧ ¬ s.Retains block) ∧
    (∀ block list, s.listAtBlock block = .ok list → list.blockHash = block ∧
      ∃ part replayed, s.UpToBlock block history part ∧
        (MasternodeList.empty config.network).applyAll part = .ok replayed ∧
        list.forget = replayed.forget) ∧
    (∀ quorum list, s.listAtQuorum quorum = .ok list ↔ s.listAtBlock quorum.retype = .ok list) ∧
    (∀ quorum error, s.listAtQuorum quorum = .error error ↔
      error = .missingQuorumList quorum ∧ ¬ s.Retains quorum.retype) ∧
    ∃ count, (s.verifyCurrent scheme).2 = .ok count := by
  have hends : s.NeverEnds scheme := fun count q => ⟨_, h.verifyNext_eq hasc count q⟩
  refine ⟨fun block => ?_, fun block error => ?_, fun block list hlist => ?_,
    fun quorum list => ?_, fun quorum error => ?_, exists_verifyCurrent_eq_ok scheme hends⟩
  · change _ ↔ s.Retains block
    obtain ⟨hretained, list, hlist, -⟩ | ⟨hunknown, herror⟩ := h.listAtBlock_cases hasc block
    · simp [hlist, hretained]
    · simp [herror, hunknown]
  · obtain ⟨hretained, list, hlist, -⟩ | ⟨hunknown, herror⟩ := h.listAtBlock_cases hasc block
    · simp [hlist, hretained]
    · simp [herror, hunknown, eq_comm]
  · obtain ⟨-, list', hlist', hblock⟩ | ⟨-, herror⟩ := h.listAtBlock_cases hasc block
    · obtain rfl : list = list' := Except.ok.inj (hlist.symm.trans hlist')
      exact ⟨hblock, h.listAtBlock_replay hasc hlist⟩
    · simp [herror] at hlist
  · obtain ⟨-, list', hlist', -⟩ | ⟨-, herror⟩ := h.listAtBlock_cases hasc quorum.retype
    · simp only [listAtQuorum, hlist']
    · simp [listAtQuorum, herror]
  · obtain ⟨hretained, list, hlist, -⟩ | ⟨hmissing, herror⟩ := h.listAtQuorum_cases hasc quorum
    · simp [hlist, hretained]
    · simp [herror, hmissing, eq_comm]

/-- One difference has been folded, so that the first block is no longer retained. -/
theorem listAtBlock_eq_replay_sample : ∃ s history, Reached Sample.scheme Sample.config history s ∧
    Ascending history ∧ s.Retains (Sample.block 9) ∧ ¬ s.Retains (Sample.block 1) ∧
    (∀ block, (∃ list, s.listAtBlock block = .ok list) ↔
      block = s.base.blockHash ∨ ∃ d ∈ s.diffs, d.2.blockHash = block) ∧
    (∀ block error, s.listAtBlock block = .error error ↔
      error = .unknownBlock block ∧ ¬ s.Retains block) ∧
    (∀ block list, s.listAtBlock block = .ok list → list.blockHash = block ∧
      ∃ part replayed, s.UpToBlock block history part ∧
        (MasternodeList.empty .regtest).applyAll part = .ok replayed ∧
        list.forget = replayed.forget) ∧
    (∀ quorum list, s.listAtQuorum quorum = .ok list ↔ s.listAtBlock quorum.retype = .ok list) ∧
    (∀ quorum error, s.listAtQuorum quorum = .error error ↔
      error = .missingQuorumList quorum ∧ ¬ s.Retains quorum.retype) ∧
    ∃ count, (s.verifyCurrent Sample.scheme).2 = .ok count := by
  obtain ⟨s, hbuild, htests⟩ := any_toOption_iff.mp (by decide +kernel :
    (Store.build Sample.config (Sample.chain ++ [Sample.diff 17])).toOption.any fun s =>
      s.Retains (Sample.block 9) ∧ ¬ s.Retains (Sample.block 1))
  obtain ⟨hretained, hgone⟩ := of_decide_eq_true htests
  have hs : Reached Sample.scheme Sample.config (Sample.chain ++ [Sample.diff 17]) s := .build hbuild
  have hasc : Ascending (Sample.chain ++ [Sample.diff 17]) := by decide
  exact ⟨s, _, hs, hasc, hretained, hgone, listAtBlock_eq_replay hs hasc⟩

end Store

end QuorumFinality
