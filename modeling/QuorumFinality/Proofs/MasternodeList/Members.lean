import QuorumFinality.MasternodeList.Members
import QuorumFinality.Proofs.MasternodeList.WellFormed
import QuorumFinality.Proofs.Sorting

/-!
# The masternodes with the highest ranks

The members of a quorum are drawn by rank from the masternodes that may take part: those in good
standing whose registration is confirmed. Ranking them is taking them out of the list, giving each
one its rank and sorting. Nobody is lost or doubled by this, so the first ones in the ranking are
those with the highest ranks, and fewer members are the beginning of more.

What the others are does not matter. They are gone before the ranks are compared, so a list in which
only masternodes change that may not take part gives the same ranking, even where ranks are equal.

## Main definitions

* `MasternodeEntry.isEligible` — a masternode may take part in quorums
* `MasternodeList.HasOwnDigests` — masternodes under their registrations with their own digests
* `Masternode.RanksAtLeast` — one masternode does not rank below another
* `MasternodeList.IsSelection` — the masternodes with the highest ranks
* `MasternodeList.HasSameEligible` — lists that differ in what may not take part

## Main results

* `MasternodeList.map_snd_scores_perm` — everybody who may take part is ranked
* `MasternodeList.isSelection_topMasternodes` — the highest ranks are selected
-/

namespace QuorumFinality

/-- Whether a masternode may take part in quorums: it is in good standing, and its registration is
confirmed. -/
def MasternodeEntry.isEligible (e : MasternodeEntry) : Bool :=
  e.isValid && e.confirmedHash.isSome

/-- The first masternode has a rank that is not below that of the second one. -/
def Masternode.RanksAtLeast (modifier : ModifierHash) (m m' : Masternode) : Prop :=
  ∃ high low, m.score modifier = some high ∧ m'.score modifier = some low ∧
    (compare low high).isLE

/-- With its own digests, a masternode has a rank exactly if it may take part. -/
theorem Masternode.isSome_score {m : Masternode} (h : m = ofEntry m.entry)
    (modifier : ModifierHash) : (m.score modifier).isSome = m.entry.isEligible := by
  rw [h]
  cases hvalid : m.entry.isValid <;> simp [score, ofEntry, MasternodeEntry.isEligible, hvalid]

namespace MasternodeList

/-! ### Who is ranked -/

/-- Each masternode stands under its registration, with the digests of its entry and of its
confirmation. -/
def HasOwnDigests (list : MasternodeList) : Prop :=
  ∀ e ∈ list.masternodes.entries, e.1 = e.2.entry.proTxHash ∧ e.2 = Masternode.ofEntry e.2.entry

/-- Differences lead to nothing else. -/
theorem WellFormed.hasOwnDigests {list : MasternodeList} (h : list.WellFormed) :
    list.HasOwnDigests := fun e he => ⟨h.key_eq e he, h.digests_eq e he⟩

/-- The masternodes that may take part, in the order of their registrations. -/
def eligible (list : MasternodeList) : List Masternode :=
  list.masternodes.values.filter fun m => m.entry.isEligible

/-- The two lists have the same masternodes that may take part. Others may have come, gone or
changed. -/
def HasSameEligible (list list' : MasternodeList) : Prop :=
  ∀ key, (list.masternodes.get? key).filter (fun m => m.entry.isEligible) =
    (list'.masternodes.get? key).filter fun m => m.entry.isEligible

variable {list list' : MasternodeList}

theorem HasOwnDigests.eq_ofEntry (h : list.HasOwnDigests) :
    ∀ m ∈ list.masternodes.values, m = Masternode.ofEntry m.entry :=
  List.forall_mem_map.mpr fun e he => (h e he).2

/-- No registration occurs twice. -/
theorem HasOwnDigests.nodup_values (h : list.HasOwnDigests) :
    (list.masternodes.values.map fun m => m.entry.proTxHash).Nodup := by
  have hkeys : list.masternodes.values.map (fun m => m.entry.proTxHash) =
      list.masternodes.keys := by
    rw [OrderedMap.values, OrderedMap.keys, List.map_map]
    exact List.map_congr_left fun e he => (h e he).1.symm
  rw [hkeys]
  exact list.masternodes.nodup_keys

theorem HasSameEligible.eligible_eq (h : list.HasSameEligible list') :
    list.eligible = list'.eligible := by
  have hmap : list.masternodes.filter (fun _ m => m.entry.isEligible) =
      list'.masternodes.filter fun _ m => m.entry.isEligible :=
    OrderedMap.ext_get? fun key => by rw [OrderedMap.get?_filter, OrderedMap.get?_filter, h key]
  have hvalues (l : MasternodeList) : l.eligible =
      (l.masternodes.filter fun _ m => m.entry.isEligible).values := List.filter_map
  rw [hvalues, hvalues, hmap]

/-! ### The ranking -/

variable (modifier : ModifierHash)

/-- Masternodes with their ranks; those without one are left out. -/
def ranked (masternodes : List Masternode) : List (ScoreHash × Masternode) :=
  masternodes.filterMap fun m => (m.score modifier).map fun score => (score, m)

theorem mem_ranked {masternodes : List Masternode} {e : ScoreHash × Masternode}
    (h : e ∈ ranked modifier masternodes) : e.2.score modifier = some e.1 := by
  obtain ⟨m, -, hm⟩ := List.mem_filterMap.mp h
  obtain ⟨score, hscore, rfl⟩ := Option.map_eq_some_iff.mp hm
  exact hscore

theorem map_snd_ranked (masternodes : List Masternode) :
    (ranked modifier masternodes).map Prod.snd =
      masternodes.filter fun m => (m.score modifier).isSome := by
  rw [ranked, List.map_filterMap, ← List.filterMap_eq_filter]
  refine List.filterMap_congr fun m _ => ?_
  cases h : m.score modifier <;> simp [Option.guard, h]

theorem ranked_filter (masternodes : List Masternode) :
    ranked modifier (masternodes.filter fun m => (m.score modifier).isSome) =
      ranked modifier masternodes := by
  rw [ranked, List.filterMap_filter, ranked]
  refine List.filterMap_congr fun m _ => ?_
  cases m.score modifier <;> rfl

theorem HasOwnDigests.filter_isSome_score (h : list.HasOwnDigests) :
    list.masternodes.values.filter (fun m => (m.score modifier).isSome) = list.eligible :=
  List.filter_congr fun m hm => Masternode.isSome_score (h.eq_ofEntry m hm) modifier

theorem scores_perm : (list.scores modifier).Perm (ranked modifier list.masternodes.values) :=
  List.mergeSort_perm _ _

/-- **Everybody who may take part is ranked,** and nobody else. -/
theorem map_snd_scores_perm (h : list.HasOwnDigests) :
    ((list.scores modifier).map Prod.snd).Perm list.eligible := by
  have hperm := (list.scores_perm modifier).map Prod.snd
  rwa [map_snd_ranked, h.filter_isSome_score] at hperm

/-- Ranks are sorted from the highest to the lowest. -/
theorem pairwise_scores : ((list.scores modifier).map Prod.snd).Pairwise
    (Masternode.RanksAtLeast modifier) := by
  have := transCmp_key (Prod.fst : ScoreHash × Masternode → ScoreHash)
  have : Std.TransCmp fun e e' : ScoreHash × Masternode => compare e'.1 e.1 :=
    Std.TransCmp.opposite
  have hsorted : (list.scores modifier).Pairwise fun e e' => (compare e'.1 e.1).isLE :=
    pairwise_mergeSort_isLE _ (ranked modifier list.masternodes.values)
  refine List.pairwise_map.mpr (hsorted.imp_of_mem fun {e e'} he he' hle => ?_)
  exact ⟨e.1, e'.1, mem_ranked modifier ((list.scores_perm modifier).mem_iff.mp he),
    mem_ranked modifier ((list.scores_perm modifier).mem_iff.mp he'), hle⟩

theorem topMasternodes_eq_take (size : Nat) : list.topMasternodes modifier size =
    ((list.scores modifier).map Prod.snd).take size :=
  List.map_take

/-! ### The selection -/

/-- Members are the masternodes with the highest ranks: as many as asked for, or all who may take
part; different ones, each of which may take part; from the highest rank to the lowest; and nobody
who may take part and is left out ranks above one of them. -/
structure IsSelection (list : MasternodeList) (modifier : ModifierHash) (size : Nat)
    (members : List Masternode) : Prop where
  /-- There are as many as asked for, or all. -/
  length_eq : members.length = min size list.eligible.length
  /-- They are different. -/
  nodup : (members.map fun m => m.entry.proTxHash).Nodup
  /-- Each of them is in the list and may take part. -/
  mem_eligible : ∀ m ∈ members, m ∈ list.eligible
  /-- They come from the highest rank to the lowest. -/
  pairwise : members.Pairwise (Masternode.RanksAtLeast modifier)
  /-- Nobody who is left out ranks above one of them. -/
  ranksAtLeast : ∀ m ∈ list.eligible, m ∉ members → ∀ m' ∈ members, m'.RanksAtLeast modifier m

/-- **The highest ranks are selected.** -/
theorem HasOwnDigests.isSelection (h : list.HasOwnDigests) (size : Nat) :
    list.IsSelection modifier size (list.topMasternodes modifier size) := by
  have hperm := map_snd_scores_perm modifier h
  have hsorted := list.pairwise_scores modifier
  have hnodup : (((list.scores modifier).map Prod.snd).map fun m => m.entry.proTxHash).Nodup :=
    (hperm.map _).symm.nodup (h.nodup_values.sublist (List.filter_sublist.map _))
  rw [topMasternodes_eq_take]
  generalize (list.scores modifier).map Prod.snd = ranking at hperm hsorted hnodup
  refine ⟨?_, ?_, fun m hm => hperm.mem_iff.mp (List.mem_of_mem_take hm),
    hsorted.sublist (List.take_sublist size ranking), fun m hm hout m' hm' => ?_⟩
  · rw [List.length_take, hperm.length_eq]
  · exact hnodup.sublist ((List.take_sublist size ranking).map _)
  · have hmem := hperm.mem_iff.mpr hm
    rw [← List.take_append_drop size ranking] at hmem hsorted
    have hdrop := (List.mem_append.mp hmem).resolve_left hout
    exact (List.pairwise_append.mp hsorted).2.2 m' hm' m hdrop

/-- Masternodes that may not take part are not looked at. -/
theorem topMasternodes_congr (h : list.HasOwnDigests) (h' : list'.HasOwnDigests)
    (hsame : list.HasSameEligible list') (size : Nat) :
    list'.topMasternodes modifier size = list.topMasternodes modifier size := by
  have hranked (l : MasternodeList) (hl : l.HasOwnDigests) :
      ranked modifier l.masternodes.values = ranked modifier l.eligible := by
    rw [← ranked_filter, hl.filter_isSome_score]
  have hscores (l : MasternodeList) : l.scores modifier =
      (ranked modifier l.masternodes.values).mergeSort fun a b => (compare b.1 a.1).isLE := rfl
  rw [topMasternodes, topMasternodes, hscores, hscores, hranked list h, hranked list' h',
    hsame.eligible_eq]

/-- **The masternodes with the highest ranks are selected.** Fewer of them are the beginning of
more, and they stay the same as long as only masternodes come, go or change that may not take part
before or after it. -/
theorem isSelection_topMasternodes (h : list.HasOwnDigests) (size : Nat) :
    list.IsSelection modifier size (list.topMasternodes modifier size) ∧
    (∀ fewer ≤ size,
      list.topMasternodes modifier fewer <+: list.topMasternodes modifier size) ∧
    ∀ list' : MasternodeList, list'.HasOwnDigests → list.HasSameEligible list' →
      list'.topMasternodes modifier size = list.topMasternodes modifier size := by
  refine ⟨h.isSelection modifier size, fun fewer hle => ?_, fun list' h' hsame =>
    topMasternodes_congr modifier h h' hsame size⟩
  rw [topMasternodes_eq_take, topMasternodes_eq_take]
  exact List.take_prefix_take_left hle

/-- Two masternodes that may take part, one that is not in good standing and one that is not
confirmed. -/
def sampleRoll : MasternodeList :=
  { empty .regtest with
    masternodes := applyMasternodes OrderedMap.empty { Sample.diff 1 with
      newMasternodes := [Sample.masternode,
        { Sample.masternode with proTxHash := (Sample.block 1).retype },
        { Sample.masternode with proTxHash := (Sample.block 2).retype, isValid := false },
        { Sample.masternode with proTxHash := (Sample.block 3).retype, confirmedHash := none }] } }

theorem hasOwnDigests_sampleRoll : sampleRoll.HasOwnDigests :=
  forall_mem_applyMasternodes (by simp [OrderedMap.empty]) (fun _ => ⟨rfl, rfl⟩) _

/-- If one is asked for, the other one is left out. -/
theorem isSelection_topMasternodes_sample : sampleRoll.HasOwnDigests ∧
    sampleRoll.masternodes.size = 4 ∧ sampleRoll.eligible.length = 2 ∧
    sampleRoll.IsSelection Hash.null 1 (sampleRoll.topMasternodes Hash.null 1) ∧
    (∀ fewer ≤ 1,
      sampleRoll.topMasternodes Hash.null fewer <+: sampleRoll.topMasternodes Hash.null 1) ∧
    ∀ list' : MasternodeList, list'.HasOwnDigests → sampleRoll.HasSameEligible list' →
      list'.topMasternodes Hash.null 1 = sampleRoll.topMasternodes Hash.null 1 :=
  ⟨hasOwnDigests_sampleRoll, by decide +kernel, by decide +kernel,
    isSelection_topMasternodes Hash.null hasOwnDigests_sampleRoll 1⟩

end MasternodeList

end QuorumFinality
