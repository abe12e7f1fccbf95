import QuorumFinality.Proofs.MasternodeList.Signers
import QuorumFinality.Proofs.Sorting

/-!
# The order in which quorums sign

The signer of a session is found in two ways. All quorums that can sign are put in order, or the one
with the least rank is searched for. The two ways agree as soon as the ranks are different, which
they are unless hashes collide; and then neither depends on the order in which the quorums are
stored, nor on the entries in the short form that stand among them.

With equal ranks only the search says which quorum is meant: the first one that is stored.

## Main results

* `MasternodeList.firstLeast_eq_some_iff_of_nodup` — with different keys, the least element is found
  wherever it stands
* `MasternodeList.signer?_eq_head?` — the signer is the first quorum in order
* `MasternodeList.signer?_agrees_with_order` — what both ways give
-/

namespace QuorumFinality

namespace MasternodeList

/-! ### The least element when keys are different -/

section FirstLeast

variable {α κ : Type} [Ord κ] [Std.TransOrd κ] {key : α → κ} {l l' : List α} {a : α}

/-- No element of the list has a lesser key. -/
theorem IsFirstLeast.isLE (h : IsFirstLeast key l a) :
    ∀ b ∈ l, (compare (key a) (key b)).isLE := by
  obtain ⟨before, after, rfl, hbefore, hafter⟩ := h
  intro b hb
  rcases List.mem_append.mp hb with hb | hb
  · rw [hbefore b hb]
    rfl
  · rcases List.mem_cons.mp hb with rfl | hb
    · rw [Std.ReflOrd.compare_self]
      rfl
    · exact hafter b hb

/-- Of a sorted list the first element is found. -/
theorem firstLeast_eq_head? (h : l.Pairwise fun a b => (compare (key a) (key b)).isLE) :
    firstLeast key l = l.head? := by
  cases l with
  | nil => rfl
  | cons a rest =>
    exact firstLeast_eq_some_iff.mpr ⟨[], rest, rfl, by simp, (List.pairwise_cons.mp h).1⟩

variable [Std.LawfulEqOrd κ]

/-- **With different keys, the least element is found** wherever it stands. -/
theorem firstLeast_eq_some_iff_of_nodup (hdistinct : (l.map key).Nodup) :
    firstLeast key l = some a ↔ a ∈ l ∧ ∀ b ∈ l, (compare (key a) (key b)).isLE := by
  constructor
  · intro h
    have hleast := isFirstLeast_of_firstLeast h
    exact ⟨hleast.mem, hleast.isLE⟩
  · rintro ⟨hmem, hle⟩
    cases hfound : firstLeast key l with
    | none =>
      rw [firstLeast_eq_none_iff] at hfound
      simp [hfound] at hmem
    | some b =>
      have hleast := isFirstLeast_of_firstLeast hfound
      have hkey : key b = key a := Std.LawfulEqOrd.eq_of_compare
        (Std.OrientedCmp.isLE_antisymm (hleast.isLE a hmem) (hle b hleast.mem))
      rw [List.inj_on_of_nodup_map hdistinct hleast.mem hmem hkey]

theorem firstLeast_of_perm (hperm : l.Perm l') (hdistinct : (l.map key).Nodup) :
    firstLeast key l = firstLeast key l' := by
  have hdistinct' : (l'.map key).Nodup := (hperm.map key).nodup hdistinct
  refine Option.ext fun a => ?_
  rw [firstLeast_eq_some_iff_of_nodup hdistinct, firstLeast_eq_some_iff_of_nodup hdistinct',
    hperm.mem_iff]
  simp only [hperm.mem_iff]

end FirstLeast

/-! ### The quorums in order -/

variable (list : MasternodeList) (type : QuorumType) (request : RequestId)

/-- Putting quorums in order loses none of them and invents none. -/
theorem orderedQuorums_perm :
    (list.orderedQuorums type request).Perm (list.signingQuorums type) :=
  List.mergeSort_perm _ _

theorem pairwise_orderedQuorums : (list.orderedQuorums type request).Pairwise fun a b =>
    (compare (orderingKey request a) (orderingKey request b)).isLE := by
  have := transCmp_key (orderingKey request)
  exact pairwise_mergeSort_isLE _ (list.signingQuorums type)

/-- **The signer is the first quorum in order** if no two ranks are equal. -/
theorem signer?_eq_head?
    (hdistinct : ((list.signingQuorums type).map (orderingKey request)).Nodup) :
    list.signer? type request = (list.orderedQuorums type request).head? := by
  rw [signer?, firstLeast_of_perm (list.orderedQuorums_perm type request).symm hdistinct,
    firstLeast_eq_head? (list.pairwise_orderedQuorums type request)]

variable {list} in
/-- Entries in the short form make no difference to what can sign. -/
theorem signingQuorums_perm {list' : MasternodeList} {short : List Quorum}
    (hshort : ∀ q ∈ short, q.entry.isLegacy)
    (hperm : (list'.quorumsOfType type).Perm (list.quorumsOfType type ++ short)) :
    (list'.signingQuorums type).Perm (list.signingQuorums type) := by
  have hnone : short.filter (fun q => !q.entry.isLegacy) = [] :=
    List.filter_eq_nil_iff.mpr fun q hq => by simp [hshort q hq]
  have hfilter := hperm.filter fun q => !q.entry.isLegacy
  rwa [List.filter_append, hnone, List.append_nil] at hfilter

/-- **Both ways give the quorum with the least rank.** The quorums in order are those of the type
that have the full form, from the least rank to the greatest. The search finds nothing exactly if
there is none of them, and otherwise the first one in the order of the list whose rank is the least.
If no two ranks are equal, it finds the first one in order, and neither changes if the quorums of
the type are stored in another order or entries in the short form come between them. -/
theorem signer?_agrees_with_order (list : MasternodeList) (type : QuorumType)
    (request : RequestId) :
    (list.orderedQuorums type request).Perm
      ((list.quorumsOfType type).filter fun q => !q.entry.isLegacy) ∧
    (list.orderedQuorums type request).Pairwise (fun a b =>
      (compare (orderingKey request a) (orderingKey request b)).isLE) ∧
    (list.signer? type request = none ↔ list.orderedQuorums type request = []) ∧
    (∀ q, list.signer? type request = some q ↔ IsFirstLeast (orderingKey request)
      ((list.quorumsOfType type).filter fun q => !q.entry.isLegacy) q) ∧
    (((list.orderedQuorums type request).map (orderingKey request)).Nodup →
      list.signer? type request = (list.orderedQuorums type request).head? ∧
      ∀ (list' : MasternodeList) (short : List Quorum), (∀ q ∈ short, q.entry.isLegacy) →
        (list'.quorumsOfType type).Perm (list.quorumsOfType type ++ short) →
        list'.orderedQuorums type request = list.orderedQuorums type request ∧
          list'.signer? type request = list.signer? type request) := by
  have hordered := list.orderedQuorums_perm type request
  refine ⟨hordered, list.pairwise_orderedQuorums type request, ?_,
    fun q => firstLeast_eq_some_iff, fun hnodup => ?_⟩
  · rw [signer?, firstLeast_eq_none_iff, ← List.length_eq_zero_iff, ← hordered.length_eq,
      List.length_eq_zero_iff]
  · have hdistinct : ((list.signingQuorums type).map (orderingKey request)).Nodup :=
      (hordered.map (orderingKey request)).nodup hnodup
    refine ⟨list.signer?_eq_head? type request hdistinct, fun list' short hshort hperm => ?_⟩
    have hsigning := signingQuorums_perm type hshort hperm
    have hdistinct' : ((list'.signingQuorums type).map (orderingKey request)).Nodup :=
      (hsigning.map (orderingKey request)).symm.nodup hdistinct
    refine ⟨Eq.symm ?_, firstLeast_of_perm hsigning hdistinct'⟩
    have hsame : (list.orderedQuorums type request).Perm (list'.orderedQuorums type request) :=
      hordered.trans (hsigning.symm.trans (list'.orderedQuorums_perm type request).symm)
    exact eq_of_perm_of_nodup_keys hsame hnodup (list.pairwise_orderedQuorums type request)
      (list'.pairwise_orderedQuorums type request)

end MasternodeList

end QuorumFinality
