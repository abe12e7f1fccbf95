import Mathlib.Data.List.Basic
import Mathlib.Data.List.TakeWhile
import QuorumFinality.Proofs.Store.History

/-!
# The list at a height

A store answers for a height in one of two ways: it has the latest list at hand, and every other
list it makes again from the base. Either way the answer should be the list that the whole history
leads to, differences that have been folded long ago included. This is so as long as the heights of
the history ascend, because only then are the differences up to a height the first ones of the
pending differences.

## Main definitions

* `ListDiff.isUpTo` — the height of a difference is not above the given one
* `Store.Holds` — the list of the last block of a store at or below a height
* `Store.IsOutside` — a height is before or behind the window
* `Store.Retains` — a block whose list a store can make

## Main results

* `Store.Reached.exists_holds` — a store answers with the list that it holds, up to statuses
* `Store.listAtHeight_eq_replay` — this is the list that the history leads to
* `Store.Reached.listAtQuorum_cases` — a block that is asked for is retained, or reported missing
-/

namespace QuorumFinality

open MasternodeList

/-- Whether the height of a difference is not above the given one. -/
def ListDiff.isUpTo (height : UInt32) (diff : ListDiff) : Bool :=
  diff.height?.any (· ≤ height)

theorem ListDiff.isUpTo_iff {diff : ListDiff} {own height : UInt32}
    (h : diff.height? = some own) : diff.isUpTo height ↔ own ≤ height := by
  simp [isUpTo, h]

/-! ### Tests that hold up to some point -/

section UpTo

variable {α : Type} {p : α → Bool}

theorem not_of_mem_dropWhile {l : List α} (h : l.Pairwise fun a b => p b → p a) :
    ∀ a ∈ l.dropWhile p, ¬ p a := by
  induction l with
  | nil => simp
  | cons a l ih =>
    obtain ⟨ha, hl⟩ := List.pairwise_cons.mp h
    by_cases hp : p a
    · rw [List.dropWhile_cons_of_pos hp]
      exact ih hl
    · rw [List.dropWhile_cons_of_neg hp]
      intro b hb hpb
      rcases List.mem_cons.mp hb with rfl | hb
      · exact hp hpb
      · exact hp (ha b hb hpb)

end UpTo

/-- Of numbers that strictly increase the last one is the greatest. -/
theorem le_of_mem_concat {init : List UInt32} {last n : UInt32}
    (h : (init ++ [last]).Pairwise (· < ·)) (hn : n ∈ init ++ [last]) : n ≤ last := by
  rcases List.mem_append.mp hn with hn | hn
  · exact UInt32.le_of_lt ((List.pairwise_append.mp h).2.2 n hn last (by simp))
  · rw [List.mem_singleton.mp hn]
    exact UInt32.le_refl last

namespace Store

/-- The store holds a list for a height: the height is within the window, and the list is made from
the base by the differences up to the height. It is the list of the last block at or below it. -/
structure Holds (s : Store) (height : UInt32) (list : MasternodeList) : Prop where
  /-- The height is not before the window. -/
  base_le : s.baseHeight ≤ height
  /-- The height is not behind the window. -/
  le_tip : height ≤ s.tipHeight
  /-- The list is made by the differences up to the height. -/
  replay : ∃ before after, s.diffs = before ++ after ∧ (∀ d ∈ before, d.1 ≤ height) ∧
    (∀ d ∈ after, height < d.1) ∧ s.base.applyAll (before.map Prod.snd) = .ok list

/-- A height is before or behind the window. -/
def IsOutside (s : Store) (height : UInt32) : Prop :=
  height < s.baseHeight ∨ s.tipHeight < height

instance (s : Store) (height : UInt32) : Decidable (s.IsOutside height) :=
  inferInstanceAs (Decidable (_ ∨ _))

/-- A block is the base of the store or that of a pending difference. -/
def Retains (s : Store) (block : BlockHash) : Prop :=
  block = s.base.blockHash ∨ ∃ d ∈ s.diffs, d.2.blockHash = block

instance (s : Store) (block : BlockHash) : Decidable (s.Retains block) :=
  inferInstanceAs (Decidable (_ ∨ _))

variable {scheme : SignatureScheme} {config : StoreConfig} {folded history : List ListDiff}
  {s : Store} {list : MasternodeList} {height : UInt32}

/-! ### The heights of the window -/

/-- What is made from the base has one of the heights of the window. -/
theorem Remembers.height_mem {diffs : List (UInt32 × ListDiff)} (h : Remembers config folded s)
    (hsub : ∀ d ∈ diffs, d ∈ s.diffs) (hlist : s.base.applyAll (diffs.map Prod.snd) = .ok list) :
    (s.baseHeight :: diffs.map Prod.fst).getLast? = some list.height := by
  rcases List.eq_nil_or_concat diffs with rfl | ⟨init, last, rfl⟩
  · rw [← Except.ok.inj hlist]
    rfl
  · rw [List.concat_eq_append, List.map_append] at hlist
    have hlast := (height?_of_applyAll_concat hlist).1
    rw [h.height_eq last (hsub last (by simp))] at hlast
    simp [← Option.some.inj hlast, List.getLast?_cons]

/-- The last height is that of the latest list. -/
theorem Remembers.getLast?_heights (h : Remembers config folded s) :
    s.heights.getLast? = some s.tipHeight := by
  obtain ⟨list, hlist, hforget⟩ := h.tip_eq
  have hheight : list.height = s.tip.height := by
    rw [← height_forget, hforget, height_forget]
  rw [tipHeight, ← hheight]
  exact h.height_mem (fun _ hd => hd) hlist

/-- The heights of a history end with those of the window. -/
theorem Remembers.filterMap_height? (h : Remembers config folded s) :
    ∃ init, folded.filterMap ListDiff.height? = init ++ [s.baseHeight] ∧
      (folded ++ s.pending).filterMap ListDiff.height? = init ++ s.heights := by
  obtain ⟨init, last, rfl, hlast, -⟩ := h.exists_last
  have hpending : s.pending.filterMap ListDiff.height? = s.diffs.map Prod.fst := by
    rw [pending, List.filterMap_map, ← List.filterMap_eq_map]
    exact List.filterMap_congr h.height_eq
  refine ⟨init.filterMap ListDiff.height?, ?_, ?_⟩
  · simp [hlast]
  · simp [hlast, hpending, heights]

/-- The heights of the window ascend with those of the history. -/
theorem Remembers.pairwise_heights (h : Remembers config folded s)
    (hasc : Ascending (folded ++ s.pending)) : s.heights.Pairwise (· < ·) := by
  obtain ⟨init, -, hheights⟩ := h.filterMap_height?
  rw [Ascending, hheights] at hasc
  exact (List.pairwise_append.mp hasc).2.1

/-- What has been folded is not above the base. -/
theorem Remembers.le_baseHeight (h : Remembers config folded s)
    (hasc : Ascending (folded ++ s.pending)) :
    ∀ d ∈ folded, ∀ own, d.height? = some own → own ≤ s.baseHeight := by
  intro d hd own hown
  obtain ⟨init, hinit, -⟩ := h.filterMap_height?
  have hfolded : Ascending folded := hasc.of_append
  rw [Ascending, hinit] at hfolded
  refine le_of_mem_concat hfolded ?_
  rw [← hinit]
  exact List.mem_filterMap.mpr ⟨d, hd, hown⟩

theorem Remembers.le_tipHeight (h : Remembers config folded s)
    (hasc : Ascending (folded ++ s.pending)) : ∀ d ∈ s.diffs, d.1 ≤ s.tipHeight := by
  intro d hd
  have hmem : d.1 ∈ s.heights := List.mem_cons_of_mem _ (List.mem_map_of_mem hd)
  obtain ⟨init, hinit⟩ := List.getLast?_eq_some_iff.mp h.getLast?_heights
  have hheights := h.pairwise_heights hasc
  rw [hinit] at hheights hmem
  exact le_of_mem_concat hheights hmem

/-! ### The list that is held -/

/-- There is only one list that is held for a height. -/
theorem Holds.unique {list' : MasternodeList} (h : s.Holds height list)
    (h' : s.Holds height list') : list = list' := by
  have hfilter {before after : List (UInt32 × ListDiff)} (hsplit : s.diffs = before ++ after)
      (hbefore : ∀ d ∈ before, d.1 ≤ height) (hafter : ∀ d ∈ after, height < d.1) :
      s.diffs.filter (fun d => d.1 ≤ height) = before := by
    rw [hsplit, List.filter_append, List.filter_eq_self.mpr (by simpa using hbefore),
      List.filter_eq_nil_iff.mpr (by simpa using hafter), List.append_nil]
  obtain ⟨-, -, before, after, hsplit, hbefore, hafter, hreplay⟩ := h
  obtain ⟨-, -, before', after', hsplit', hbefore', hafter', hreplay'⟩ := h'
  rw [← hfilter hsplit hbefore hafter] at hreplay
  rw [← hfilter hsplit' hbefore' hafter'] at hreplay'
  exact Except.ok.inj (hreplay.symm.trans hreplay')

/-- As the heights ascend, the differences up to a height are the first ones. -/
theorem Remembers.exists_holds (h : Remembers config folded s)
    (hasc : Ascending (folded ++ s.pending)) (hbase : s.baseHeight ≤ height)
    (htip : height ≤ s.tipHeight) :
    ∃ held, s.Holds height held ∧ s.base.applyAll (s.diffsUpTo height) = .ok held := by
  obtain ⟨last, hlast, -⟩ := h.tip_eq
  let p : UInt32 × ListDiff → Bool := fun d => d.1.toNat ≤ height.toNat
  have hsplit : s.diffs = s.diffs.takeWhile p ++ s.diffs.dropWhile p :=
    (List.takeWhile_append_dropWhile).symm
  have hsorted : s.diffs.Pairwise fun a b => p b → p a := by
    have hpairs := (List.pairwise_cons.mp (h.pairwise_heights hasc)).2
    refine (List.pairwise_map.mp hpairs).imp fun {a b} hab hb => ?_
    simp only [p, decide_eq_true_eq] at hb ⊢
    exact Nat.le_trans (Nat.le_of_lt (UInt32.lt_iff_toNat_lt.mp hab)) hb
  rw [pending, hsplit, List.map_append] at hlast
  obtain ⟨held, hheld, -⟩ := applyAll_append_eq_ok_iff.mp hlast
  refine ⟨held, ⟨hbase, htip, _, _, hsplit, fun d hd => ?_, fun d hd => ?_, hheld⟩, hheld⟩
  · simpa [p, UInt32.le_iff_toNat_le] using List.mem_takeWhile_imp hd
  · simpa [p, UInt32.lt_iff_toNat_lt] using not_of_mem_dropWhile hsorted d hd

/-- Within the window a store has the latest list at hand and replays the others. -/
theorem listAtHeight_of_le (hbase : s.baseHeight ≤ height) (htip : height ≤ s.tipHeight) :
    s.listAtHeight height =
      if height = s.tipHeight then .ok s.tip else s.base.applyAll (s.diffsUpTo height) := by
  rw [UInt32.le_iff_toNat_le] at hbase htip
  rw [listAtHeight, if_neg (by omega)]

/-- **A store answers with the list that it holds,** up to statuses: the latest list, which it has
at hand, is not an exception. -/
theorem Reached.exists_holds (h : Reached scheme config history s) (hasc : Ascending history)
    (hbase : s.baseHeight ≤ height) (htip : height ≤ s.tipHeight) :
    ∃ held list, s.Holds height held ∧ s.listAtHeight height = .ok list ∧
      list.forget = held.forget := by
  obtain ⟨folded, rfl, hs⟩ := h.remembers
  obtain ⟨held, hheld, hreplay⟩ := hs.exists_holds hasc hbase htip
  rw [listAtHeight_of_le hbase htip]
  by_cases hlatest : height = s.tipHeight
  · obtain ⟨last, hlast, hforget⟩ := hs.tip_eq
    have hall : s.diffsUpTo height = s.pending := by
      rw [diffsUpTo, pending, List.takeWhile_eq_self_iff.mpr]
      intro d hd
      simpa [hlatest, UInt32.le_iff_toNat_le] using hs.le_tipHeight hasc d hd
    rw [hall, hlast] at hreplay
    exact ⟨held, s.tip, hheld, by rw [if_pos hlatest], by rw [← hforget, Except.ok.inj hreplay]⟩
  · exact ⟨held, held, hheld, by rw [if_neg hlatest, hreplay], rfl⟩

/-- **No replay fails.** A store has a list for every height of the window, whatever the order of
the heights may be: the differences up to a height are the first ones of those that are pending. -/
theorem Remembers.exists_listAtHeight (h : Remembers config folded s)
    (hbase : s.baseHeight ≤ height) (htip : height ≤ s.tipHeight) :
    ∃ list, s.listAtHeight height = .ok list := by
  rw [listAtHeight_of_le hbase htip]
  by_cases hlatest : height = s.tipHeight
  · exact ⟨s.tip, if_pos hlatest⟩
  · obtain ⟨last, hlast, -⟩ := h.tip_eq
    rw [pending, ← List.takeWhile_append_dropWhile (p := fun d => d.1.toNat ≤ height.toNat)
      (l := s.diffs), List.map_append] at hlast
    obtain ⟨list, hlist, -⟩ := applyAll_append_eq_ok_iff.mp hlast
    exact ⟨list, by rw [if_neg hlatest, diffsUpTo, hlist]⟩

/-! ### The history up to a height -/

/-- The history up to a height is what has been folded and the differences up to the height. -/
theorem Remembers.filter_isUpTo (h : Remembers config folded s)
    (hasc : Ascending (folded ++ s.pending)) {before after : List (UInt32 × ListDiff)}
    (hbase : s.baseHeight ≤ height) (hsplit : s.diffs = before ++ after)
    (hbefore : ∀ d ∈ before, d.1 ≤ height) (hafter : ∀ d ∈ after, height < d.1) :
    (folded ++ s.pending).filter (·.isUpTo height) = folded ++ before.map Prod.snd := by
  have hfolded : ∀ d ∈ folded, d.isUpTo height := by
    intro d hd
    obtain ⟨own, hown⟩ := exists_height?_of_applyAll h.base_eq d hd
    rw [ListDiff.isUpTo_iff hown]
    exact UInt32.le_trans (h.le_baseHeight hasc d hd own hown) hbase
  have hall : ∀ d ∈ before.map Prod.snd, d.isUpTo height := by
    refine List.forall_mem_map.mpr fun d hd => ?_
    rw [ListDiff.isUpTo_iff (h.height_eq d (by simp [hsplit, hd]))]
    exact hbefore d hd
  have hnone : ∀ d ∈ after.map Prod.snd, ¬ d.isUpTo height := by
    refine List.forall_mem_map.mpr fun d hd => ?_
    rw [ListDiff.isUpTo_iff (h.height_eq d (by simp [hsplit, hd])), UInt32.not_le]
    exact hafter d hd
  rw [pending, hsplit, List.map_append, List.filter_append, List.filter_append,
    List.filter_eq_self.mpr hfolded, List.filter_eq_self.mpr hall,
    List.filter_eq_nil_iff.mpr hnone, List.append_nil]

/-- **The list that is held is that of the history,** as far as the height. -/
theorem Holds.applyAll_filter (hheld : s.Holds height list)
    (hs : Remembers config folded s) (hasc : Ascending (folded ++ s.pending)) :
    (MasternodeList.empty config.network).applyAll
      ((folded ++ s.pending).filter (·.isUpTo height)) = .ok list := by
  obtain ⟨hbase, -, before, after, hsplit, hbefore, hafter, hreplay⟩ := hheld
  rw [hs.filter_isUpTo hasc hbase hsplit hbefore hafter]
  exact applyAll_append_eq_ok_iff.mpr ⟨s.base, hs.base_eq, hreplay⟩

/-- **The store refines its history.** Outside the window it refuses to answer. Inside it answers
with the list that the differences of the whole history up to the height lead to from nothing, up
to statuses; how much has been folded, and whether the list was at hand, makes no difference. -/
theorem listAtHeight_eq_replay (h : Reached scheme config history s) (hasc : Ascending history)
    (height : UInt32) :
    (s.listAtHeight height = .error (.heightOutOfRange height s.baseHeight s.tipHeight) ↔
      height < s.baseHeight ∨ s.tipHeight < height) ∧
    (s.baseHeight ≤ height → height ≤ s.tipHeight →
      ∃ list replayed, s.listAtHeight height = .ok list ∧
        (MasternodeList.empty config.network).applyAll (history.filter (·.isUpTo height)) =
          .ok replayed ∧
        list.forget = replayed.forget) := by
  have hinside (hbase : s.baseHeight ≤ height) (htip : height ≤ s.tipHeight) :
      ∃ list replayed, s.listAtHeight height = .ok list ∧
        (MasternodeList.empty config.network).applyAll (history.filter (·.isUpTo height)) =
          .ok replayed ∧
        list.forget = replayed.forget := by
    obtain ⟨held, list, hheld, hlist, hforget⟩ := h.exists_holds hasc hbase htip
    obtain ⟨folded, rfl, hs⟩ := h.remembers
    exact ⟨list, held, hlist, hheld.applyAll_filter hs hasc, hforget⟩
  refine ⟨⟨fun herror => ?_, fun hout => ?_⟩, hinside⟩
  · by_contra hin
    simp only [not_or, UInt32.not_lt] at hin
    obtain ⟨list, -, hlist, -⟩ := hinside hin.1 hin.2
    rw [hlist] at herror
    contradiction
  · simp only [UInt32.lt_iff_toNat_lt] at hout
    rw [listAtHeight, if_pos hout]

theorem listAtHeight_eq_replay_sample : ∃ s, Reached Sample.scheme Sample.config Sample.chain s ∧
    Ascending Sample.chain ∧
    (s.listAtHeight 9 = .error (.heightOutOfRange 9 s.baseHeight s.tipHeight) ↔
      9 < s.baseHeight ∨ s.tipHeight < 9) ∧
    (s.baseHeight ≤ 9 → 9 ≤ s.tipHeight →
      ∃ list replayed, s.listAtHeight 9 = .ok list ∧
        (MasternodeList.empty .regtest).applyAll (Sample.chain.filter (·.isUpTo 9)) =
          .ok replayed ∧
        list.forget = replayed.forget) := by
  obtain ⟨s, hs⟩ := Sample.exists_reached
  exact ⟨s, hs, Sample.ascending_chain, listAtHeight_eq_replay hs Sample.ascending_chain 9⟩

/-! ### The list at a block -/

/-- At the height of one of its differences a store holds the list that this one leads to. -/
theorem Remembers.exists_holds_of_split (h : Remembers config folded s)
    (hasc : Ascending (folded ++ s.pending)) {before after : List (UInt32 × ListDiff)}
    {d : UInt32 × ListDiff} (hsplit : s.diffs = before ++ d :: after) :
    ∃ held, s.Holds d.1 held ∧ s.base.applyAll (before.map Prod.snd ++ [d.2]) = .ok held := by
  have hmem : d ∈ s.diffs := by simp [hsplit]
  have hheights := h.pairwise_heights hasc
  rw [heights, hsplit] at hheights
  simp only [List.map_append, List.map_cons, List.pairwise_cons, List.pairwise_append,
    List.mem_append, List.mem_cons, List.mem_map] at hheights
  obtain ⟨hbase, -, ⟨hafter, -⟩, hbefore⟩ := hheights
  obtain ⟨last, hlast, -⟩ := h.tip_eq
  have hpending : s.pending = (before.map Prod.snd ++ [d.2]) ++ after.map Prod.snd := by
    simp [pending, hsplit]
  rw [hpending] at hlast
  obtain ⟨held, hheld, -⟩ := applyAll_append_eq_ok_iff.mp hlast
  refine ⟨held, ⟨UInt32.le_of_lt (hbase _ (.inr (.inl rfl))), h.le_tipHeight hasc d hmem,
    before ++ [d], after, by simp [hsplit], fun e he => ?_, fun e he => hafter _ ⟨e, he, rfl⟩,
    by simpa using hheld⟩, hheld⟩
  rcases List.mem_append.mp he with he | he
  · exact UInt32.le_of_lt (hbefore _ ⟨e, he, rfl⟩ _ (.inl rfl))
  · rw [List.mem_singleton.mp he]
    exact UInt32.le_refl d.1

/-- So its answer for this height is the list of the history up to that difference. -/
theorem Reached.listAtHeight_of_split (h : Reached scheme config (folded ++ s.pending) s)
    (hs : Remembers config folded s) (hasc : Ascending (folded ++ s.pending))
    {before after : List (UInt32 × ListDiff)} {d : UInt32 × ListDiff}
    (hsplit : s.diffs = before ++ d :: after) :
    ∃ list replayed, s.listAtHeight d.1 = .ok list ∧
      (MasternodeList.empty config.network).applyAll (folded ++ before.map Prod.snd ++ [d.2]) =
        .ok replayed ∧
      list.forget = replayed.forget := by
  obtain ⟨held, hheld, hreplay⟩ := hs.exists_holds_of_split hasc hsplit
  obtain ⟨held', list, hheld', hlist, hforget⟩ := h.exists_holds hasc hheld.base_le hheld.le_tip
  obtain rfl : held = held' := hheld.unique hheld'
  refine ⟨list, held, hlist, ?_, hforget⟩
  rw [List.append_assoc]
  exact applyAll_append_eq_ok_iff.mpr ⟨s.base, hs.base_eq, hreplay⟩

/-- **A block is retained or unknown.** A store makes the list at a block that it retains, and no
question about a block is refused for another reason. -/
theorem Reached.listAtBlock_cases (h : Reached scheme config history s) (hasc : Ascending history)
    (block : BlockHash) :
    (s.Retains block ∧ ∃ list, s.listAtBlock block = .ok list ∧ list.blockHash = block) ∨
      (¬ s.Retains block ∧ s.listAtBlock block = .error (.unknownBlock block)) := by
  by_cases hbase : block = s.base.blockHash
  · exact .inl ⟨.inl hbase, s.base, if_pos hbase, hbase.symm⟩
  · cases hfind : s.diffs.find? fun d => d.2.blockHash = block with
    | none =>
      refine .inr ⟨?_, by simp only [listAtBlock, if_neg hbase, hfind]⟩
      rintro (h | ⟨d, hd, rfl⟩)
      · exact hbase h
      · simpa using List.find?_eq_none.mp hfind d hd
    | some d =>
      have hmem := List.mem_of_find?_eq_some hfind
      have hblock : d.2.blockHash = block := by simpa using List.find?_some hfind
      obtain ⟨before, after, hsplit⟩ := List.append_of_mem hmem
      obtain ⟨folded, rfl, hs⟩ := h.remembers
      obtain ⟨list, replayed, hlist, hreplay, hforget⟩ := h.listAtHeight_of_split hs hasc hsplit
      refine .inl ⟨.inr ⟨d, hmem, hblock⟩, list,
        by simp only [listAtBlock, if_neg hbase, hfind, hlist], ?_⟩
      rw [← blockHash_forget, hforget, blockHash_forget, ← hblock]
      exact (height?_of_applyAll_concat hreplay).2

/-- The same for the block of a quorum, which is called missing if it is not retained. -/
theorem Reached.listAtQuorum_cases (h : Reached scheme config history s) (hasc : Ascending history)
    (quorum : QuorumHash) :
    (s.Retains quorum.retype ∧ ∃ list, s.listAtQuorum quorum = .ok list ∧
        list.blockHash = quorum.retype) ∨
      (¬ s.Retains quorum.retype ∧ s.listAtQuorum quorum = .error (.missingQuorumList quorum)) := by
  obtain ⟨hretained, list, hlist, hblock⟩ | ⟨hunknown, hlist⟩ :=
    h.listAtBlock_cases hasc quorum.retype
  · exact .inl ⟨hretained, list, by simp only [listAtQuorum, hlist], hblock⟩
  · exact .inr ⟨hunknown, by simp only [listAtQuorum, hlist]⟩

end Store

end QuorumFinality
