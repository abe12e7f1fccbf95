import Mathlib.Data.List.Nodup

/-!
# Sorting

A sorted list has its elements in order, and as long as no two of them have the same key, there is
only one such list. Where keys are the same, the order among their elements is left open.

## Main results

* `pairwise_mergeSort_isLE` — sorting by a comparison sorts
* `eq_of_perm_of_nodup_keys` — with different keys, the sorted list is unique
-/

namespace QuorumFinality

variable {α κ : Type}

/-- **Sorting by a comparison sorts.** -/
theorem pairwise_mergeSort_isLE (cmp : α → α → Ordering) [Std.TransCmp cmp] (l : List α) :
    (l.mergeSort fun a b => (cmp a b).isLE).Pairwise fun a b => (cmp a b).isLE := by
  have htrans (a b c : α) : (cmp a b).isLE → (cmp b c).isLE → (cmp a c).isLE :=
    Std.TransCmp.isLE_trans
  have htotal (a b : α) : (cmp a b).isLE || (cmp b a).isLE := by
    have hswap : cmp b a = (cmp a b).swap := Std.OrientedCmp.eq_swap
    rw [hswap]
    cases cmp a b <;> rfl
  exact List.pairwise_mergeSort htrans htotal l

/-- Keys are compared as what they are keys of. -/
theorem transCmp_key [Ord κ] [Std.TransOrd κ] (key : α → κ) :
    Std.TransCmp fun a b => compare (key a) (key b) :=
  inferInstanceAs (Std.TransCmp (compareOn key))

/-- **With different keys, the sorted list is unique.** -/
theorem eq_of_perm_of_nodup_keys [Ord κ] [Std.OrientedOrd κ] [Std.LawfulEqOrd κ] {key : α → κ}
    {l l' : List α} (hperm : l.Perm l') (hdistinct : (l.map key).Nodup)
    (hl : l.Pairwise fun a b => (compare (key a) (key b)).isLE)
    (hl' : l'.Pairwise fun a b => (compare (key a) (key b)).isLE) : l = l' := by
  refine hperm.eq_of_pairwise (fun a b ha hb hab hba => ?_) hl hl'
  have hkey : key a = key b :=
    Std.LawfulEqOrd.eq_of_compare (Std.OrientedCmp.isLE_antisymm hab hba)
  exact List.inj_on_of_nodup_map hdistinct ha (hperm.mem_iff.mpr hb) hkey

end QuorumFinality
