import QuorumFinality.MasternodeList.Signers
import QuorumFinality.Proofs.MasternodeList.Forget

/-!
# The quorum that signs

Finding the expected signer is finding the first of the quorums with the least rank. The recursion
that does it compares from the end of the list, so that it prefers the earlier one of two equal
ranks by preferring the one it sees later. What it finds is described without a recursion: all
quorums before have a greater rank, and none behind has a lesser one.

## Main definitions

* `MasternodeList.IsFirstLeast` — the first element of a list with the least key

## Main results

* `MasternodeList.firstLeast_eq_some_iff` — this is what the search finds
* `MasternodeList.signer?_forget` — the search looks at no status
-/

namespace QuorumFinality

namespace MasternodeList

/-! ### The first least element -/

section FirstLeast

variable {α β κ : Type} [Ord κ]

/-- The first element of a list with the least key: those before it have a greater key, and those
behind it have no lesser one. -/
def IsFirstLeast (key : α → κ) (l : List α) (a : α) : Prop :=
  ∃ before after, l = before ++ a :: after ∧ (∀ b ∈ before, compare (key a) (key b) = .lt) ∧
    ∀ b ∈ after, (compare (key a) (key b)).isLE

variable {key : α → κ} {l : List α} {a : α}

theorem IsFirstLeast.mem (h : IsFirstLeast key l a) : a ∈ l := by
  obtain ⟨before, after, rfl, -, -⟩ := h
  simp

theorem firstLeast_eq_none_iff : firstLeast key l = none ↔ l = [] := by
  cases l with
  | nil => simp [firstLeast]
  | cons a rest =>
    simp only [firstLeast, reduceCtorEq, iff_false]
    split
    · simp
    · split <;> simp

theorem firstLeast_map (f : β → α) (l : List β) :
    firstLeast key (l.map f) = (firstLeast (key ∘ f) l).map f := by
  induction l with
  | nil => rfl
  | cons b rest ih =>
    simp only [List.map_cons, firstLeast, ih]
    cases firstLeast (key ∘ f) rest with
    | none => rfl
    | some c =>
      simp only [Option.map_some, Function.comp_apply]
      split <;> rfl

variable [Std.TransOrd κ]

/-- **What the search finds is the first least element.** -/
theorem isFirstLeast_of_firstLeast (h : firstLeast key l = some a) : IsFirstLeast key l a := by
  induction l generalizing a with
  | nil => simp [firstLeast] at h
  | cons c rest ih =>
    unfold firstLeast at h
    cases hrest : firstLeast key rest with
    | none =>
      rw [firstLeast_eq_none_iff] at hrest
      subst hrest
      simp only [firstLeast, Option.some.injEq] at h
      exact ⟨[], [], by simp [h], by simp, by simp⟩
    | some b =>
      obtain ⟨before, after, rfl, hbefore, hafter⟩ := ih hrest
      simp only [hrest] at h
      by_cases hle : (compare (key c) (key b)).isLE
      · -- the new element wins, also against those that were beaten before
        rw [if_pos hle, Option.some.injEq] at h
        subst h
        refine ⟨[], before ++ b :: after, rfl, by simp, fun d hd => ?_⟩
        rcases List.mem_append.mp hd with hd | hd
        · exact Std.TransOrd.isLE_trans hle (by rw [hbefore d hd]; rfl)
        · rcases List.mem_cons.mp hd with rfl | hd
          · exact hle
          · exact Std.TransOrd.isLE_trans hle (hafter d hd)
      · rw [if_neg hle, Option.some.injEq] at h
        subst h
        refine ⟨c :: before, after, rfl, List.forall_mem_cons.mpr ⟨?_, hbefore⟩, hafter⟩
        rw [Std.OrientedOrd.eq_swap, Ordering.isLE_eq_false.mp (eq_false_of_ne_true hle)]
        rfl

/-- **The first least element is found.** -/
theorem firstLeast_eq_some_iff : firstLeast key l = some a ↔ IsFirstLeast key l a := by
  refine ⟨isFirstLeast_of_firstLeast, fun h => ?_⟩
  obtain ⟨before, after, rfl, hbefore, hafter⟩ := h
  induction before with
  | nil =>
    simp only [List.nil_append, firstLeast]
    cases hafter' : firstLeast key after with
    | none => rfl
    | some b => exact if_pos (hafter b (isFirstLeast_of_firstLeast hafter').mem)
  | cons c before ih =>
    obtain ⟨hc, hbefore⟩ := List.forall_mem_cons.mp hbefore
    simp only [List.cons_append, firstLeast, ih hbefore]
    refine if_neg ?_
    rw [Std.OrientedOrd.eq_swap, hc]
    decide

end FirstLeast

/-! ### Signers -/

theorem orderingKey_forget (request : RequestId) :
    orderingKey request ∘ Quorum.forget = orderingKey request := rfl

theorem signingQuorums_forget (list : MasternodeList) (type : QuorumType) :
    list.forget.signingQuorums type = (list.signingQuorums type).map Quorum.forget := by
  simp only [signingQuorums, quorumsOfType_forget, List.filter_map]
  rfl

/-- The search looks at no status. -/
theorem signer?_forget (list : MasternodeList) (type : QuorumType) (request : RequestId) :
    list.forget.signer? type request = (list.signer? type request).map Quorum.forget := by
  rw [signer?, signingQuorums_forget, firstLeast_map, orderingKey_forget, signer?]

end MasternodeList

end QuorumFinality
