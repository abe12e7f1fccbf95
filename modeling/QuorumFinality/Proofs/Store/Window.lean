import Mathlib.Data.List.Chain
import QuorumFinality.Proofs.Store.Lookup

/-!
# How far a store reaches back

A store keeps the lists of its whole history until there are more than it may keep, and from then on
as many as it may keep. So the length of the window is known from the history and the configuration
alone. If the heights of the history follow each other without a gap, so do those of the window, and
its length says how far it reaches back from the latest block: one block less than there are lists,
because the latest list is one of them.

## Main definitions

* `Consecutive` — heights that follow each other without a gap

## Main results

* `Store.Reached.length_heights` — how many lists a store keeps
* `Store.Reached.toNat_tipHeight` — how far the first of them is behind the last
-/

namespace QuorumFinality

open MasternodeList

/-! ### Heights without a gap -/

/-- The heights of differences follow each other without a gap. -/
def Consecutive (diffs : List ListDiff) : Prop :=
  (diffs.filterMap ListDiff.height?).IsChain fun a b => b.toNat = a.toNat + 1

instance (diffs : List ListDiff) : Decidable (Consecutive diffs) :=
  inferInstanceAs (Decidable (List.IsChain _ _))

theorem Consecutive.ascending {diffs : List ListDiff} (h : Consecutive diffs) :
    Ascending diffs := by
  refine List.isChain_iff_pairwise.mp (h.imp fun a b hab => ?_)
  rw [UInt32.lt_iff_toNat_lt]
  omega

/-- Heights without a gap lead as far as there are steps. -/
theorem toNat_getLast?_of_isChain {first last : UInt32} {rest : List UInt32}
    (h : (first :: rest).IsChain fun a b => b.toNat = a.toNat + 1)
    (hlast : (first :: rest).getLast? = some last) :
    last.toNat = first.toNat + rest.length := by
  induction rest generalizing first with
  | nil =>
    obtain rfl : first = last := by simpa using hlast
    rfl
  | cons second rest ih =>
    obtain ⟨hstep, hrest⟩ := List.isChain_cons_cons.mp h
    rw [List.getLast?_cons_cons] at hlast
    rw [ih hrest hlast, hstep, List.length_cons]
    omega

namespace Store

variable {scheme : SignatureScheme} {config : StoreConfig} {folded history : List ListDiff}
  {s s' : Store} {diff : ListDiff}

/-! ### The length of the window -/

/-- A difference makes the window longer by one list, unless it is as long as it may be. -/
theorem Remembers.length_heights_addDiff (h : Remembers config folded s)
    (hlimit : 0 < config.maxLists.toNat) (hadd : s.addDiff diff = (s', .ok ())) :
    s'.heights.length = min (s.heights.length + 1) config.maxLists.toNat := by
  unfold addDiff at hadd
  by_cases hbase : diff.baseBlockHash = s.tip.blockHash
  · cases htip : s.tip.apply diff with
    | error error => simp [hbase, htip] at hadd
    | ok tip =>
      obtain ⟨list, hlist, -⟩ := (h.append htip).tip_eq
      obtain ⟨base, -, hfold⟩ := fold_eq s.config.maxLists.toNat hlist
      simp only [hbase, ne_eq, not_true, if_false, htip, Store.prune, hfold, Prod.mk.injEq,
        and_true] at hadd
      subst hadd
      simp only [heights, h.config_eq, List.length_cons, List.length_map, List.length_drop,
        List.length_append, List.length_nil]
      omega
  · simp [hbase] at hadd

theorem Remembers.length_heights_addDiffs {diffs : List ListDiff} (h : Remembers config folded s)
    (hlimit : 0 < config.maxLists.toNat) (hle : s.heights.length ≤ config.maxLists.toNat)
    (hadd : s.addDiffs diffs = .ok s') :
    s'.heights.length = min (s.heights.length + diffs.length) config.maxLists.toNat := by
  induction diffs generalizing folded s with
  | nil =>
    rw [← Except.ok.inj hadd, List.length_nil]
    omega
  | cons diff rest ih =>
    unfold Store.addDiffs at hadd
    obtain ⟨_, hrefused, -⟩ | ⟨folded', next, haccepted, -, -, -, hnext⟩ := h.addDiff_cases diff
    · simp [hrefused] at hadd
    · simp only [haccepted] at hadd
      have hlength := h.length_heights_addDiff hlimit haccepted
      rw [ih hnext (by omega) hadd, hlength, List.length_cons]
      omega

/-- The limit and the number of differences are large enough for a store. -/
theorem Reached.minLists_le (h : Reached scheme config history s) :
    StoreConfig.minLists ≤ config.maxLists.toNat ∧ StoreConfig.minLists ≤ history.length := by
  induction h with
  | build hbuild =>
    obtain ⟨hlimit, hlength, -⟩ := build_cases hbuild
    exact ⟨hlimit, hlength⟩
  | step _ op ih =>
    rw [List.length_append]
    exact ⟨ih.1, Nat.le_add_right_of_le ih.2⟩

/-- **How many lists a store keeps:** one for each difference of its history, up to the limit. -/
theorem Reached.length_heights (h : Reached scheme config history s) :
    s.heights.length = min history.length config.maxLists.toNat := by
  induction h with
  | build hbuild =>
    obtain ⟨hlimit, -, first, rest, base, rfl, hbase, hrest⟩ := build_cases hbuild
    have hpos : 0 < config.maxLists.toNat := Nat.lt_of_lt_of_le (by decide) hlimit
    rw [(remembers_of_ofDiff hbase).length_heights_addDiffs hpos hpos hrest, List.length_cons,
      Nat.add_comm]
    rfl
  | @step history s hs op ih =>
    obtain ⟨folded, -, hremembers⟩ := hs.remembers
    have hpos : 0 < config.maxLists.toNat := Nat.lt_of_lt_of_le (by decide) hs.minLists_le.1
    obtain ⟨haccepted, hforget⟩ | ⟨diff, _, haccepted, hadd, -⟩ := hremembers.step_cases op
    · have hheights : (s.step scheme op).heights = s.heights := by
        rw [← heights_forget, hforget, heights_forget]
      rw [haccepted, List.append_nil, hheights, ih]
    · rw [haccepted, hremembers.length_heights_addDiff hpos hadd, ih, List.length_append,
        List.length_singleton]
      omega

/-- **How far a store reaches back.** Without a gap in the heights there are as many blocks from the
first list to the last one as there are lists. -/
theorem Reached.toNat_tipHeight (h : Reached scheme config history s)
    (hheights : Consecutive history) :
    s.tipHeight.toNat + 1 = s.baseHeight.toNat + min history.length config.maxLists.toNat := by
  rw [← h.length_heights]
  obtain ⟨folded, rfl, hs⟩ := h.remembers
  obtain ⟨init, -, hsplit⟩ := hs.filterMap_height?
  rw [Consecutive, hsplit] at hheights
  rw [toNat_getLast?_of_isChain hheights.right_of_append hs.getLast?_heights, heights,
    List.length_cons, Nat.add_assoc]

end Store

end QuorumFinality
