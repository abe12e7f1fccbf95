import QuorumFinality.Proofs.Store.Pass
import QuorumFinality.Proofs.Store.Run

/-!
# What a store remembers of its history

A store keeps a base list, the differences after it, and the latest list. The base is what became
of the differences that have been folded, and the latest list is what the pending ones make of the
base, up to the statuses that a store notes in its latest list and nowhere else. `Remembers` is
this invariant.

It is also why a store cannot be left half changed. `Store.prune` folds into the base a difference
that was accepted long ago, on a list that carried statuses; since no difference looks at a status,
the base accepts it as well.

## Main definitions

* `Store.pending` — the differences after the base
* `Store.Remembers` — the base and the latest list are replays of the history

## Main results

* `Store.fold_eq` — what folding does to a base that the differences lead on from
* `Store.Remembers.addDiff_cases` — what adding a difference can do
* `Store.Remembers.step_cases` — what an operation can do
* `Store.Reached.remembers` — the invariant holds within reach
* `Store.addDiff_atomic` — a difference is accepted as a whole or not at all
-/

namespace QuorumFinality

open MasternodeList

namespace Store

/-- The differences after the base, oldest first. -/
def pending (s : Store) : List ListDiff :=
  s.diffs.map Prod.snd

@[simp] theorem pending_forget (s : Store) : s.forget.pending = s.pending := rfl

/-- The base is a replay of the differences that have been folded, and the latest list is, up to
statuses, what the pending ones make of it. -/
structure Remembers (config : StoreConfig) (folded : List ListDiff) (s : Store) : Prop where
  /-- The configuration is that of the beginning. -/
  config_eq : s.config = config
  /-- The base was made by a difference. -/
  folded_ne_nil : folded ≠ []
  /-- The base is a replay of what has been folded. -/
  base_eq : (MasternodeList.empty config.network).applyAll folded = .ok s.base
  /-- The latest list is a replay of what is pending, up to statuses. -/
  tip_eq : ∃ list, s.base.applyAll s.pending = .ok list ∧ list.forget = s.tip.forget
  /-- Each pending difference is kept with its height. -/
  height_eq : ∀ d ∈ s.diffs, d.2.height? = some d.1

variable {scheme : SignatureScheme} {config : StoreConfig} {folded history : List ListDiff}
  {s s' : Store} {diff : ListDiff} {tip : MasternodeList}

/-! ### Folding -/

/-- **Folding replays.** If the differences lead on from a base, then as many of them are folded as
exceed the limit, and none is refused. -/
theorem fold_eq (limit : Nat) {base last : MasternodeList} {diffs : List (UInt32 × ListDiff)}
    (h : base.applyAll (diffs.map Prod.snd) = .ok last) :
    ∃ base', base.applyAll ((diffs.take (diffs.length + 1 - limit)).map Prod.snd) = .ok base' ∧
      fold limit base diffs = (base', diffs.drop (diffs.length + 1 - limit), .ok ()) := by
  induction diffs generalizing base with
  | nil => exact ⟨base, by simp, by simp [fold]⟩
  | cons d rest ih =>
    obtain ⟨next, hnext, hrest⟩ := applyAll_cons_eq_ok_iff.mp h
    by_cases hlimit : limit < rest.length + 2
    · obtain ⟨base', hbase', hfold⟩ := ih hrest
      have hcount : (d :: rest).length + 1 - limit = rest.length + 1 - limit + 1 := by
        simp only [List.length_cons]
        omega
      refine ⟨base', ?_, ?_⟩
      · rw [hcount, List.take_succ_cons, List.map_cons]
        exact applyAll_cons_eq_ok_iff.mpr ⟨next, hnext, hbase'⟩
      · rw [hcount, List.drop_succ_cons, ← hfold, fold, if_pos hlimit, hnext]
    · have hcount : (d :: rest).length + 1 - limit = 0 := by
        simp only [List.length_cons]
        omega
      refine ⟨base, by rw [hcount]; rfl, ?_⟩
      rw [hcount, fold, if_neg hlimit]
      rfl

/-! ### The invariant -/

/-- A store of one difference remembers it. -/
theorem remembers_of_ofDiff {first : ListDiff} {base : MasternodeList}
    (h : ofDiff first config.network = .ok base) :
    Remembers config [first] { config, base, diffs := [], tip := base } :=
  ⟨rfl, List.cons_ne_nil _ _, applyAll_cons_eq_ok_iff.mpr ⟨base, h, rfl⟩, ⟨base, rfl, rfl⟩,
    by simp⟩

/-- The base is the list of the last difference that has been folded. -/
theorem Remembers.exists_last (h : Remembers config folded s) :
    ∃ init last, folded = init ++ [last] ∧ last.height? = some s.baseHeight ∧
      s.base.blockHash = last.blockHash := by
  obtain rfl | ⟨init, last, rfl⟩ := List.eq_nil_or_concat folded
  · exact absurd rfl h.folded_ne_nil
  · rw [List.concat_eq_append] at h ⊢
    obtain ⟨hheight, hblock⟩ := height?_of_applyAll_concat h.base_eq
    exact ⟨init, last, rfl, hheight, hblock⟩

/-- A difference that leads on from the latest list also leads on from the pending ones. -/
theorem Remembers.applyAll_concat (h : Remembers config folded s)
    (htip : s.tip.apply diff = .ok tip) :
    ∃ list, s.base.applyAll (s.pending ++ [diff]) = .ok list ∧ list.forget = tip.forget := by
  obtain ⟨list, hlist, hforget⟩ := h.tip_eq
  obtain ⟨next, hnext, hforget⟩ := exists_apply_eq_ok_of_forget hforget.symm htip
  exact ⟨next, applyAll_concat_eq_ok_iff.mpr ⟨list, hlist, hnext⟩, hforget⟩

/-- A store that is pruned keeps its history: what leaves the pending differences is folded. -/
theorem Remembers.prune (h : Remembers config folded s) :
    ∃ folded' s', s.prune = (s', .ok ()) ∧ s'.tip = s.tip ∧
      folded' ++ s'.pending = folded ++ s.pending ∧ Remembers config folded' s' := by
  obtain ⟨list, hlist, hforget⟩ := h.tip_eq
  obtain ⟨base, hbase, hfold⟩ := fold_eq s.config.maxLists.toNat hlist
  generalize s.diffs.length + 1 - s.config.maxLists.toNat = n at hbase hfold
  refine ⟨folded ++ (s.diffs.take n).map Prod.snd, { s with base, diffs := s.diffs.drop n },
    by simp only [Store.prune, hfold], rfl, ?_, ?_⟩
  · simp only [pending, List.append_assoc, ← List.map_append, List.take_append_drop]
  · have hsplit : s.pending = (s.diffs.take n).map Prod.snd ++ (s.diffs.drop n).map Prod.snd := by
      rw [← List.map_append, List.take_append_drop]
      rfl
    refine ⟨h.config_eq, by simp [h.folded_ne_nil],
      applyAll_append_eq_ok_iff.mpr ⟨s.base, h.base_eq, hbase⟩, ⟨list, ?_, hforget⟩,
      fun d hd => h.height_eq d (List.mem_of_mem_drop hd)⟩
    rw [hsplit] at hlist
    obtain ⟨base', hbase', hrest⟩ := applyAll_append_eq_ok_iff.mp hlist
    rw [Except.ok.inj (hbase.symm.trans hbase')]
    exact hrest

/-- The store before it is pruned: the difference is pending and its list is the latest one. -/
theorem Remembers.append (h : Remembers config folded s) (htip : s.tip.apply diff = .ok tip) :
    Remembers config folded { s with diffs := s.diffs ++ [(tip.height, diff)], tip } := by
  obtain ⟨list, hlist, hforget⟩ := h.applyAll_concat htip
  refine ⟨h.config_eq, h.folded_ne_nil, h.base_eq, ⟨list, ?_, hforget⟩, fun d hd => ?_⟩
  · simpa [pending] using hlist
  · rcases List.mem_append.mp hd with hd | hd
    · exact h.height_eq d hd
    · rw [List.mem_singleton.mp hd]
      exact height?_of_apply htip

/-- **What adding a difference can do.** Either it does not lead on from the latest list, and the
store stays as it is; or it does, and it is the last of the history. -/
theorem Remembers.addDiff_cases (h : Remembers config folded s) (diff : ListDiff) :
    (∃ error, s.addDiff diff = (s, .error error) ∧
      ¬ (diff.baseBlockHash = s.tip.blockHash ∧ ∃ tip, s.tip.apply diff = .ok tip)) ∨
    ∃ folded' s', s.addDiff diff = (s', .ok ()) ∧ diff.baseBlockHash = s.tip.blockHash ∧
      s.tip.apply diff = .ok s'.tip ∧
      folded' ++ s'.pending = folded ++ s.pending ++ [diff] ∧ Remembers config folded' s' := by
  unfold addDiff
  by_cases hbase : diff.baseBlockHash = s.tip.blockHash
  · cases htip : s.tip.apply diff with
    | error error => exact .inl ⟨error, by simp [hbase], by simp⟩
    | ok tip =>
      obtain ⟨folded', s', hprune, rfl, hpending, hs'⟩ := (h.append htip).prune
      refine .inr ⟨folded', s', by simpa [hbase] using hprune, hbase, rfl, ?_, hs'⟩
      rw [hpending, List.append_assoc]
      simp [pending]
  · exact .inl ⟨.notContiguous s.tip.blockHash diff.baseBlockHash, by simp [hbase],
      fun h => hbase h.1⟩

/-- Adding differences one after another appends them to the history. -/
theorem Remembers.addDiffs {diffs : List ListDiff} (h : Remembers config folded s)
    (hadd : s.addDiffs diffs = .ok s') :
    ∃ folded', folded' ++ s'.pending = folded ++ s.pending ++ diffs ∧
      Remembers config folded' s' := by
  induction diffs generalizing folded s with
  | nil => exact ⟨folded, by simp [Except.ok.inj hadd], Except.ok.inj hadd ▸ h⟩
  | cons diff rest ih =>
    unfold Store.addDiffs at hadd
    obtain ⟨_, hrefused, -⟩ | ⟨folded', next, haccepted, -, -, hpending, hnext⟩ :=
      h.addDiff_cases diff
    · simp [hrefused] at hadd
    · simp only [haccepted] at hadd
      obtain ⟨folded'', hpending', hs'⟩ := ih hnext hadd
      exact ⟨folded'', by rw [hpending', hpending, List.append_assoc]; rfl, hs'⟩

/-- What is remembered is the same for stores that are the same up to statuses. -/
theorem Remembers.of_forget_eq (h : Remembers config folded s) (heq : s'.forget = s.forget) :
    Remembers config folded s' := by
  have hconfig : s'.config = s.config := by
    rw [← config_forget, heq, config_forget]
  have hbase : s'.base = s.base := by
    rw [← base_forget, heq, base_forget]
  have hdiffs : s'.diffs = s.diffs := by
    rw [← diffs_forget, heq, diffs_forget]
  have htip : s'.tip.forget = s.tip.forget := by
    rw [← tip_forget, heq, tip_forget]
  obtain ⟨list, hlist, hforget⟩ := h.tip_eq
  refine ⟨hconfig.trans h.config_eq, h.folded_ne_nil, ?_, ⟨list, ?_, hforget.trans htip.symm⟩, ?_⟩
  · rw [hbase, h.base_eq]
  · rw [pending, hbase, hdiffs]
    exact hlist
  · rw [hdiffs]
    exact h.height_eq

/-- **What an operation can do.** Either nothing is accepted, and the store stays as it is, up to
statuses; or a difference is, which starts at the latest block and makes the latest list. -/
theorem Remembers.step_cases (h : Remembers config folded s) (op : Op) :
    (s.accepted op = [] ∧ (s.step scheme op).forget = s.forget) ∨
    ∃ diff folded', s.accepted op = [diff] ∧ s.addDiff diff = (s.step scheme op, .ok ()) ∧
      diff.baseBlockHash = s.tip.blockHash ∧ s.tip.apply diff = .ok (s.step scheme op).tip ∧
      folded' ++ (s.step scheme op).pending = folded ++ s.pending ++ [diff] ∧
      Remembers config folded' (s.step scheme op) := by
  cases op with
  | add diff =>
    obtain ⟨error, hrefused, -⟩ | ⟨folded', s', haccepted, hs'⟩ := h.addDiff_cases diff
    · exact .inl (by simp only [accepted, Store.step, hrefused, and_self])
    · refine .inr ⟨diff, folded', ?_⟩
      simp only [accepted, Store.step, haccepted]
      exact ⟨trivial, trivial, hs'⟩
  | verify => exact .inl ⟨rfl, s.forget_verifyCurrent scheme⟩

/-- What it takes to build a store: the limit and the differences are enough, the first one makes a
list, and the others can be added to it. -/
theorem build_cases {diffs : List ListDiff} (h : Store.build config diffs = .ok s) :
    StoreConfig.minLists ≤ config.maxLists.toNat ∧ StoreConfig.minLists ≤ diffs.length ∧
      ∃ first rest base, diffs = first :: rest ∧ ofDiff first config.network = .ok base ∧
        addDiffs { config, base, diffs := [], tip := base } rest = .ok s := by
  unfold Store.build at h
  cases hvalid : config.validate with
  | error reason => simp [hvalid] at h
  | ok _ =>
    have hlimit : StoreConfig.minLists ≤ config.maxLists.toNat := by
      unfold StoreConfig.validate at hvalid
      split at hvalid
      · simp at hvalid
      · omega
    simp only [hvalid] at h
    split at h
    · simp at h
    · rename_i hlength
      cases diffs with
      | nil => simp at h
      | cons first rest =>
        obtain ⟨base, hbase, hrest⟩ := bind_eq_ok_iff.mp h
        exact ⟨hlimit, Nat.le_of_not_lt hlength, first, rest, base, rfl, hbase, hrest⟩

/-- **Within reach, a store remembers its history.** -/
theorem Reached.remembers (h : Reached scheme config history s) :
    ∃ folded, history = folded ++ s.pending ∧ Remembers config folded s := by
  induction h with
  | build hbuild =>
    obtain ⟨-, -, first, rest, base, rfl, hbase, hrest⟩ := build_cases hbuild
    obtain ⟨folded, hpending, hs⟩ := (remembers_of_ofDiff hbase).addDiffs hrest
    exact ⟨folded, by rw [hpending]; rfl, hs⟩
  | @step history s _ op ih =>
    obtain ⟨folded, rfl, hs⟩ := ih
    obtain ⟨haccepted, hforget⟩ | ⟨diff, folded', haccepted, -, -, -, hpending, hs'⟩ :=
      hs.step_cases op
    · have hpending : (s.step scheme op).pending = s.pending := by
        rw [← pending_forget, hforget, pending_forget]
      exact ⟨folded, by rw [haccepted, List.append_nil, hpending], hs.of_forget_eq hforget⟩
    · exact ⟨folded', by rw [haccepted, hpending], hs'⟩

/-! ### Atomicity -/

/-- **A difference is accepted as a whole or not at all.** It is accepted exactly if it starts at
the latest block and leads on from the latest list; if it is not, the store is what it was; and
folding, which comes after the store has been changed, never refuses. -/
theorem addDiff_atomic (h : Reached scheme config history s) (diff : ListDiff) :
    ((s.addDiff diff).2 = .ok () ↔
      diff.baseBlockHash = s.tip.blockHash ∧ ∃ tip, s.tip.apply diff = .ok tip) ∧
    (∀ error, (s.addDiff diff).2 = .error error → (s.addDiff diff).1 = s) ∧
    ∀ tip, diff.baseBlockHash = s.tip.blockHash → s.tip.apply diff = .ok tip →
      (prune { s with diffs := s.diffs ++ [(tip.height, diff)], tip }).2 = .ok () := by
  obtain ⟨folded, -, hs⟩ := h.remembers
  refine ⟨?_, ?_, fun tip _ htip => ?_⟩
  · obtain ⟨error, hrefused, hnot⟩ | ⟨_, s', haccepted, hbase, htip, -, -⟩ := hs.addDiff_cases diff
    · simp [hrefused, hnot]
    · simp [haccepted, hbase, htip]
  · intro error herror
    obtain ⟨error', hrefused, -⟩ | ⟨_, _, haccepted, -⟩ := hs.addDiff_cases diff
    · rw [hrefused]
    · simp [haccepted] at herror
  · obtain ⟨_, _, hprune, -⟩ := (hs.append htip).prune
    rw [hprune]

theorem addDiff_atomic_sample : ∃ s, Reached Sample.scheme Sample.config Sample.chain s ∧
    ((s.addDiff (Sample.diff 17)).2 = .ok () ↔
      (Sample.diff 17).baseBlockHash = s.tip.blockHash ∧
        ∃ tip, s.tip.apply (Sample.diff 17) = .ok tip) ∧
    (∀ error, (s.addDiff (Sample.diff 17)).2 = .error error →
      (s.addDiff (Sample.diff 17)).1 = s) ∧
    ∀ tip, (Sample.diff 17).baseBlockHash = s.tip.blockHash →
      s.tip.apply (Sample.diff 17) = .ok tip →
      (prune { s with diffs := s.diffs ++ [(tip.height, Sample.diff 17)], tip }).2 = .ok () := by
  obtain ⟨s, hs⟩ := Sample.exists_reached
  exact ⟨s, hs, addDiff_atomic hs (Sample.diff 17)⟩

end Store

end QuorumFinality
