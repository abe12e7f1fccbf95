import QuorumFinality.Proofs.Store.Window

/-!
# Where a list comes from

A list keeps the block that the first of its differences started from. Whether there has been a
first difference is not noted apart: as long as the list has no such block, it has the null hash in
its place. But the null hash is also what a difference starts from that makes a list out of nothing.
A list that was made by such a difference takes the base of the next one, as if that were the first.

So the base of a list is the first one that is not null among those of its differences, and it is
that of the first difference only if this one has a base or none of the others has. The same holds
of a store, whose base list changes only by the differences that are folded into it.

## Main definitions

* `firstBlock` — the first block of a sequence that is not null

## Main results

* `MasternodeList.baseBlockHash_of_applyAll` — the base of a list after a sequence of differences
* `Store.Reached.exists_folded` — what a run folds into the base list
* `Store.baseBlockHash_stays_iff` — when the base of a list, and that of a store, stays
* `Store.not_forall_baseBlockHash_stays` — it does not always
-/

namespace QuorumFinality

open MasternodeList

/-! ### The first block of a sequence -/

/-- The first block that is not null. It is null only if they all are. -/
def firstBlock (blocks : List BlockHash) : BlockHash :=
  (blocks.find? fun block => block ≠ Hash.null).getD Hash.null

theorem firstBlock_cons (block : BlockHash) (blocks : List BlockHash) :
    firstBlock (block :: blocks) = if block = Hash.null then firstBlock blocks else block := by
  by_cases h : block = Hash.null <;> simp [firstBlock, h]

theorem firstBlock_eq_null_iff {blocks : List BlockHash} :
    firstBlock blocks = Hash.null ↔ ∀ block ∈ blocks, block = Hash.null := by
  induction blocks with
  | nil => simp [firstBlock]
  | cons block blocks ih =>
    rw [firstBlock_cons, List.forall_mem_cons]
    by_cases h : block = Hash.null
    · simp [h, ih]
    · simp [h]

/-- The first block of all stands for the sequence if it is not null, or if they all are. -/
theorem firstBlock_cons_eq_iff {block : BlockHash} {blocks : List BlockHash} :
    firstBlock (block :: blocks) = block ↔
      block ≠ Hash.null ∨ ∀ other ∈ blocks, other = Hash.null := by
  rw [firstBlock_cons]
  by_cases h : block = Hash.null
  · simp [h, firstBlock_eq_null_iff]
  · simp [h]

/-! ### The base of a list -/

namespace MasternodeList

variable {list next last : MasternodeList} {diff : ListDiff} {diffs : List ListDiff}

theorem baseBlockHash_of_apply (h : list.apply diff = .ok next) :
    next.baseBlockHash =
      if list.baseBlockHash = Hash.null then diff.baseBlockHash else list.baseBlockHash := by
  obtain ⟨payload, -, -, ⟨-, rfl⟩ | ⟨_, -, -, rfl⟩⟩ := apply_cases h <;> rfl

/-- **The base of a list** is the first one that is not null, its own and those of the differences
taken in turn. -/
theorem baseBlockHash_of_applyAll (h : list.applyAll diffs = .ok last) :
    last.baseBlockHash =
      firstBlock (list.baseBlockHash :: diffs.map ListDiff.baseBlockHash) := by
  induction diffs generalizing list with
  | nil =>
    rw [← Except.ok.inj h, List.map_nil, firstBlock_cons_eq_iff.mpr (.inr (by simp))]
  | cons diff diffs ih =>
    obtain ⟨next, hnext, hlast⟩ := applyAll_cons_eq_ok_iff.mp h
    rw [ih hlast, baseBlockHash_of_apply hnext, List.map_cons, firstBlock_cons list.baseBlockHash]
    by_cases hnull : list.baseBlockHash = Hash.null
    · rw [if_pos hnull, if_pos hnull]
    · rw [if_neg hnull, if_neg hnull, firstBlock_cons, if_neg hnull]

/-- When a sequence of differences leaves the base of a list as it is. -/
theorem baseBlockHash_eq_iff_of_applyAll (h : list.applyAll diffs = .ok last) :
    last.baseBlockHash = list.baseBlockHash ↔
      list.baseBlockHash ≠ Hash.null ∨ ∀ d ∈ diffs, d.baseBlockHash = Hash.null := by
  rw [baseBlockHash_of_applyAll h, firstBlock_cons_eq_iff]
  simp only [List.forall_mem_map]

/-- A list made of nothing has the base of the difference that made it. -/
theorem baseBlockHash_of_ofDiff {network : Network} (h : ofDiff diff network = .ok list) :
    list.baseBlockHash = diff.baseBlockHash :=
  (baseBlockHash_of_apply h).trans (if_pos rfl)

end MasternodeList

/-! ### The base of a store -/

namespace Store

variable {scheme : SignatureScheme} {config : StoreConfig} {history : List ListDiff} {s : Store}

/-- **What a run folds** are the oldest of the differences that were pending before it or have been
accepted in it, and the base list afterwards is what they make of the base list before. -/
theorem Reached.exists_folded (h : Reached scheme config history s) (ops : List Op) :
    ∃ folded, s.pending ++ s.acceptedAll scheme ops = folded ++ (s.run scheme ops).pending ∧
      s.base.applyAll folded = .ok (s.run scheme ops).base := by
  have hlength := h.length_heights
  have hlength' := (h.run ops).length_heights
  obtain ⟨before, rfl, hs⟩ := h.remembers
  obtain ⟨after, hafter, hs'⟩ := (h.run ops).remembers
  -- the window does not get shorter, so what was folded before the run is not pending after it
  have hle : before.length ≤ after.length := by
    have hheights (s : Store) : s.heights.length = s.pending.length + 1 := by
      simp [heights, pending]
    have hsum := congrArg List.length hafter
    rw [hheights, List.length_append] at hlength
    rw [hheights, hsum, List.length_append] at hlength'
    rw [List.length_append, List.length_append, List.length_append] at hsum
    omega
  rw [List.append_assoc] at hafter
  obtain ⟨folded, rfl⟩ := List.prefix_of_prefix_length_le (List.prefix_append before _)
    (hafter ▸ List.prefix_append after _) hle
  rw [List.append_assoc, List.append_cancel_left_eq] at hafter
  refine ⟨folded, hafter, ?_⟩
  obtain ⟨base, hbase, hfolded⟩ := applyAll_append_eq_ok_iff.mp hs'.base_eq
  rwa [Except.ok.inj (hs.base_eq.symm.trans hbase)]

/-- **When the base stays.** The base of a list that was made of nothing is that of the first
difference exactly if that one is not null or the bases of all others are. The base of a store
stays in a run exactly if it is not null or the bases of all differences are that are folded. -/
theorem baseBlockHash_stays_iff {network : Network} {first : ListDiff} {rest : List ListDiff}
    {list : MasternodeList}
    (hlist : (MasternodeList.empty network).applyAll (first :: rest) = .ok list)
    (hs : Reached scheme config history s) (ops : List Op) :
    (list.baseBlockHash = first.baseBlockHash ↔
      first.baseBlockHash ≠ Hash.null ∨ ∀ d ∈ rest, d.baseBlockHash = Hash.null) ∧
    ∃ folded, s.pending ++ s.acceptedAll scheme ops = folded ++ (s.run scheme ops).pending ∧
      ((s.run scheme ops).base.baseBlockHash = s.base.baseBlockHash ↔
        s.base.baseBlockHash ≠ Hash.null ∨ ∀ d ∈ folded, d.baseBlockHash = Hash.null) := by
  constructor
  · obtain ⟨made, hmade, hrest⟩ := applyAll_cons_eq_ok_iff.mp hlist
    have hiff := baseBlockHash_eq_iff_of_applyAll hrest
    rwa [baseBlockHash_of_ofDiff hmade] at hiff
  · obtain ⟨folded, hpending, hfolded⟩ := hs.exists_folded ops
    exact ⟨folded, hpending, baseBlockHash_eq_iff_of_applyAll hfolded⟩

/-- The first difference of the sample starts from nothing, and the second one at the first block.
The list of both has that block for its base. -/
theorem exists_applyAll_sample : ∃ list,
    (MasternodeList.empty .regtest).applyAll [Sample.diff 1, Sample.diff 2] = .ok list ∧
    decide (list.baseBlockHash = Sample.block 1) :=
  any_toOption_iff.mp (by decide +kernel)

/-- So does the store of the sample once the second difference is folded. -/
theorem exists_folded_sample : ∃ s, Store.build Sample.config Sample.chain = .ok s ∧
    decide (s.base.baseBlockHash = Hash.null ∧
      (s.run Sample.scheme [.add (Sample.diff 17)]).base.baseBlockHash = Sample.block 1) :=
  any_toOption_iff.mp (by decide +kernel)

theorem baseBlockHash_stays_iff_sample : ∃ list s,
    (MasternodeList.empty .regtest).applyAll [Sample.diff 1, Sample.diff 2] = .ok list ∧
    Reached Sample.scheme Sample.config Sample.chain s ∧
    (list.baseBlockHash = (Sample.diff 1).baseBlockHash ↔
      (Sample.diff 1).baseBlockHash ≠ Hash.null ∨
        ∀ d ∈ [Sample.diff 2], d.baseBlockHash = Hash.null) ∧
    ∃ folded, s.pending ++ s.acceptedAll Sample.scheme [.add (Sample.diff 17)] =
        folded ++ (s.run Sample.scheme [.add (Sample.diff 17)]).pending ∧
      ((s.run Sample.scheme [.add (Sample.diff 17)]).base.baseBlockHash = s.base.baseBlockHash ↔
        s.base.baseBlockHash ≠ Hash.null ∨ ∀ d ∈ folded, d.baseBlockHash = Hash.null) := by
  obtain ⟨list, hlist, -⟩ := exists_applyAll_sample
  obtain ⟨s, hbuild, -⟩ := exists_folded_sample
  have hs : Reached Sample.scheme Sample.config Sample.chain s := .build hbuild
  exact ⟨list, s, hlist, hs, baseBlockHash_stays_iff hlist hs [.add (Sample.diff 17)]⟩

/-- **The base does not always stay,** neither that of a list nor that of a store: a difference that
starts from nothing leaves it to the next one. -/
theorem not_forall_baseBlockHash_stays :
    (¬ ∀ (network : Network) (first : ListDiff) (rest : List ListDiff) (list : MasternodeList),
      (MasternodeList.empty network).applyAll (first :: rest) = .ok list →
        list.baseBlockHash = first.baseBlockHash) ∧
    ¬ ∀ (config : StoreConfig) (history : List ListDiff) (s : Store) (ops : List Op),
      Reached Sample.scheme config history s →
        (s.run Sample.scheme ops).base.baseBlockHash = s.base.baseBlockHash := by
  constructor
  · intro hstays
    obtain ⟨list, hlist, hbase⟩ := exists_applyAll_sample
    have hfirst := hstays .regtest (Sample.diff 1) [Sample.diff 2] list hlist
    rw [of_decide_eq_true hbase] at hfirst
    exact absurd hfirst (by decide)
  · intro hstays
    obtain ⟨s, hbuild, hbase⟩ := exists_folded_sample
    obtain ⟨hbefore, hafter⟩ := of_decide_eq_true hbase
    have hrun := hstays Sample.config Sample.chain s [.add (Sample.diff 17)] (.build hbuild)
    rw [hbefore, hafter] at hrun
    exact absurd hrun (by decide)

end Store

end QuorumFinality
