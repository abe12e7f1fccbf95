import Mathlib.Data.List.DropRight
import QuorumFinality.Proofs.Store.Window

/-!
# The window of a store

A store is told about blocks one after another and keeps those at the end. What it is told leads
from block to block: a difference is only accepted if it starts at the latest block. So does what
it keeps, since the base list is that of the last block which has been folded. And it keeps as many
blocks as it may, or all of them, whatever has been refused in between.

## Main definitions

* `Leads` — differences that lead from one block to another
* `Store.IsWindow` — a store keeps the end of a history

## Main results

* `Store.Reached.exists_leads` — a history leads to the latest block
* `Store.isWindow_of_reached` — a store keeps the end of its history
-/

namespace QuorumFinality

open MasternodeList

/-! ### From block to block -/

/-- Differences that lead from one block to another: the first one starts at the one, each other one
at the block of its predecessor, and the block of the last one is the other. -/
def Leads (start : BlockHash) : List ListDiff → BlockHash → Prop
  | [], stop => start = stop
  | diff :: rest, stop => diff.baseBlockHash = start ∧ Leads diff.blockHash rest stop

theorem leads_append_iff {start stop : BlockHash} {diffs diffs' : List ListDiff} :
    Leads start (diffs ++ diffs') stop ↔
      ∃ mid, Leads start diffs mid ∧ Leads mid diffs' stop := by
  induction diffs generalizing start with
  | nil => simp [Leads]
  | cons diff diffs ih =>
    rw [List.cons_append, Leads, ih]
    simp only [Leads, and_assoc, exists_and_left]

theorem leads_concat_iff {start stop : BlockHash} {diffs : List ListDiff} {diff : ListDiff} :
    Leads start (diffs ++ [diff]) stop ↔
      Leads start diffs diff.baseBlockHash ∧ diff.blockHash = stop := by
  rw [leads_append_iff]
  constructor
  · rintro ⟨mid, hdiffs, rfl, hstop⟩
    exact ⟨hdiffs, hstop⟩
  · rintro ⟨hdiffs, hstop⟩
    exact ⟨diff.baseBlockHash, hdiffs, rfl, hstop⟩

namespace Store

variable {scheme : SignatureScheme} {config : StoreConfig} {folded history : List ListDiff}
  {s s' : Store}

/-- Differences that are added to a store lead on from its latest block. -/
theorem Remembers.leads_of_addDiffs {diffs : List ListDiff} (h : Remembers config folded s)
    (hadd : s.addDiffs diffs = .ok s') : Leads s.tip.blockHash diffs s'.tip.blockHash := by
  induction diffs generalizing folded s with
  | nil => rw [← Except.ok.inj hadd, Leads]
  | cons diff rest ih =>
    unfold Store.addDiffs at hadd
    obtain ⟨_, hrefused, -⟩ | ⟨_, next, haccepted, hbase, htip, -, hnext⟩ := h.addDiff_cases diff
    · simp [hrefused] at hadd
    · simp only [haccepted] at hadd
      have hrest := ih hnext hadd
      rw [blockHash_of_apply htip] at hrest
      exact ⟨hbase, hrest⟩

/-- **A history leads to the latest block** of the store. -/
theorem Reached.exists_leads (h : Reached scheme config history s) :
    ∃ start, Leads start history s.tip.blockHash := by
  induction h with
  | build hbuild =>
    obtain ⟨-, -, first, rest, base, rfl, hbase, hrest⟩ := build_cases hbuild
    have hleads := (remembers_of_ofDiff hbase).leads_of_addDiffs hrest
    rw [blockHash_of_apply hbase] at hleads
    exact ⟨first.baseBlockHash, rfl, hleads⟩
  | @step history s hs op ih =>
    obtain ⟨start, hleads⟩ := ih
    obtain ⟨_, -, hremembers⟩ := hs.remembers
    refine ⟨start, ?_⟩
    obtain ⟨haccepted, hforget⟩ | ⟨diff, _, haccepted, -, hbase, htip, -⟩ :=
      hremembers.step_cases op
    · have hblock : (s.step scheme op).tip.blockHash = s.tip.blockHash := by
        rw [← blockHash_forget, ← tip_forget, hforget, tip_forget, blockHash_forget]
      rw [haccepted, List.append_nil, hblock]
      exact hleads
    · rw [haccepted, leads_concat_iff, hbase]
      exact ⟨hleads, (blockHash_of_apply htip).symm⟩

/-! ### The window -/

/-- The store keeps the end of a history. -/
structure IsWindow (config : StoreConfig) (history : List ListDiff) (s : Store) : Prop where
  /-- The pending differences lead from the base to the latest block. -/
  leads : Leads s.base.blockHash s.pending s.tip.blockHash
  /-- Each of them is kept with the height in its coinbase. -/
  height_eq : ∀ d ∈ s.diffs, d.2.height? = some d.1
  /-- The heights are the last ones of the history, and as many as may be kept. -/
  heights_eq : s.heights.map some =
    (history.map ListDiff.height?).rtake (min history.length config.maxLists.toNat)
  /-- There are never too few lists. -/
  minLists_le : StoreConfig.minLists ≤ s.heights.length
  /-- Nor are there too many. -/
  le_maxLists : s.heights.length ≤ config.maxLists.toNat

/-- What is pending leads on from the block of the base. -/
theorem Remembers.leads_pending (h : Remembers config folded s) {start stop : BlockHash}
    (hleads : Leads start (folded ++ s.pending) stop) :
    Leads s.base.blockHash s.pending stop := by
  obtain ⟨mid, hfolded, hpending⟩ := leads_append_iff.mp hleads
  obtain ⟨init, last, rfl, -, hbase⟩ := h.exists_last
  rwa [hbase, (leads_concat_iff.mp hfolded).2]

/-- Each difference of a history has a height, and the heights of the window are the last ones. -/
theorem Remembers.suffix_map_height? (h : Remembers config folded s) :
    s.heights.map some <:+ (folded ++ s.pending).map ListDiff.height? := by
  obtain ⟨list, hlist, -⟩ := h.tip_eq
  obtain ⟨init, -, hheights⟩ := h.filterMap_height?
  have hall : ∀ height ∈ (folded ++ s.pending).map ListDiff.height?, height.isSome := by
    refine List.forall_mem_map.mpr fun d hd => Option.isSome_iff_exists.mpr ?_
    exact exists_height?_of_applyAll (applyAll_append_eq_ok_iff.mpr ⟨s.base, h.base_eq, hlist⟩) d hd
  have hmap : ((folded ++ s.pending).filterMap ListDiff.height?).map some =
      (folded ++ s.pending).map ListDiff.height? := by
    rw [List.map_filterMap_some_eq_filter_map_isSome, List.filter_eq_self.mpr hall]
  rw [← hmap, hheights, List.map_append]
  exact List.suffix_append _ _

/-- **A store keeps the end of its history.** -/
theorem isWindow_of_reached (h : Reached scheme config history s) : IsWindow config history s := by
  have hlength := h.length_heights
  obtain ⟨hlimit, hcount⟩ := h.minLists_le
  obtain ⟨start, hleads⟩ := h.exists_leads
  obtain ⟨folded, rfl, hs⟩ := h.remembers
  refine ⟨hs.leads_pending hleads, hs.height_eq, ?_, ?_, ?_⟩
  · obtain ⟨init, hinit⟩ := hs.suffix_map_height?
    have hdrop : (init ++ s.heights.map some).length - s.heights.length = init.length := by
      rw [List.length_append, List.length_map, Nat.add_sub_cancel]
    rw [← hinit, ← hlength, List.rtake, hdrop, List.drop_left]
  · rw [hlength]
    exact Nat.le_min.mpr ⟨hcount, hlimit⟩
  · rw [hlength]
    exact Nat.min_le_right _ _

/-- The sample goes on with the difference after its last one and refuses any other. -/
theorem exists_window_sample : ∃ s, Store.build Sample.config Sample.chain = .ok s ∧
    decide (s.acceptedAll Sample.scheme [.add (Sample.diff 17), .add (Sample.diff 5)] =
        [Sample.diff 17] ∧
      (s.run Sample.scheme [.add (Sample.diff 17), .add (Sample.diff 5)]).heights =
        (List.range' 2 16).map UInt32.ofNat) :=
  any_toOption_iff.mp (by decide +kernel)

theorem isWindow_of_reached_sample : ∃ s,
    Reached Sample.scheme Sample.config (Sample.chain ++ [Sample.diff 17]) s ∧
    s.heights = (List.range' 2 16).map UInt32.ofNat ∧
    IsWindow Sample.config (Sample.chain ++ [Sample.diff 17]) s := by
  obtain ⟨s, hbuild, hrun⟩ := exists_window_sample
  obtain ⟨haccepted, hheights⟩ := of_decide_eq_true hrun
  have hs := (Reached.build hbuild : Reached Sample.scheme _ _ s).run
    [.add (Sample.diff 17), .add (Sample.diff 5)]
  rw [haccepted] at hs
  exact ⟨_, hs, hheights, isWindow_of_reached hs⟩

end Store

end QuorumFinality
