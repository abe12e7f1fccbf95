import Mathlib.Algebra.Order.Group.Nat
import Mathlib.Order.Nat
import QuorumFinality.Proofs.Merkle.Binding

/-!
# The root from the top down

The root of a list of hashes is computed from below: each level is made of the pairs of the level
under it, until one hash is left. It can be read from above as well. The tree over a list is the
hash of two trees, one over the first half of the places and one over the rest, and where the rest
is empty the left tree stands on both sides.

The two readings differ in what they repeat. From below it is the last hash of a level without a
partner, and each level is looked at on its own; from above it is a whole tree. That they agree
comes down to one step, `subtree_succ`: building the lowest level first and the tree over it is
building the tree. The places of the upper half are even in number, so cutting a level there cuts
no pair.

## Main results

* `Merkle.parents_take`, `Merkle.parents_drop` — pairing and cutting
* `Merkle.subtree_succ` — a tree is the tree over the level above its leaves
* `Merkle.length_iterate_parents_le` — how many hashes the levels have
* `Merkle.root_eq_subtree` — the loop ends at the least depth that has room, with the root of that
  tree
-/

namespace QuorumFinality

namespace Merkle

variable {nodes : List Node}

/-! ### Trees of a depth -/

theorem subtree_of_lt {depth : Nat} (h : 2 ^ depth < nodes.length) :
    subtree (depth + 1) nodes =
      parent (subtree depth (nodes.take (2 ^ depth))) (subtree depth (nodes.drop (2 ^ depth))) :=
  if_pos h

theorem subtree_of_le {depth : Nat} (h : nodes.length ≤ 2 ^ depth) :
    subtree (depth + 1) nodes = parent (subtree depth nodes) (subtree depth nodes) := by
  have hleft : subtree (depth + 1) nodes =
      parent (subtree depth (nodes.take (2 ^ depth))) (subtree depth (nodes.take (2 ^ depth))) :=
    if_neg (Nat.not_lt.mpr h)
  rwa [List.take_of_length_le h] at hleft

/-! ### One level -/

theorem parents_take (level : List Node) (k : Nat) :
    (parents level).take k = parents (level.take (2 * k)) := by
  fun_induction parents level generalizing k with
  | case1 left right rest ih =>
    cases k with
    | zero => rfl
    | succ k => simp [Nat.mul_succ, parents, ih]
  | case2 last =>
    cases k with
    | zero => rfl
    | succ k => simp [Nat.mul_succ, parents]
  | case3 => simp [parents]

/-- A last hash that is paired with itself is behind the cut, so the cut must not go past it. -/
theorem parents_drop {level : List Node} {k : Nat} (h : 2 * k ≤ level.length) :
    (parents level).drop k = parents (level.drop (2 * k)) := by
  fun_induction parents level generalizing k with
  | case1 left right rest ih =>
    cases k with
    | zero => rfl
    | succ k =>
      have hrest : 2 * k ≤ rest.length := by
        simp only [List.length_cons] at h
        omega
      simp [Nat.mul_succ, ih hrest]
  | case2 last =>
    obtain rfl : k = 0 := by
      simp only [List.length_singleton] at h
      omega
    rfl
  | case3 => simp [parents]

/-- **One level at a time.** The tree over some hashes is the tree over the level above them. -/
theorem subtree_succ {depth : Nat} (hne : nodes ≠ []) (h : nodes.length ≤ 2 ^ (depth + 1)) :
    subtree (depth + 1) nodes = subtree depth (parents nodes) := by
  induction depth generalizing nodes with
  | zero =>
    match nodes with
    | [only] => rfl
    | [left, right] => rfl
    | _ :: _ :: _ :: _ => simp at h
  | succ depth ih =>
    have hpow : 2 ^ (depth + 1) = 2 * 2 ^ depth := Nat.pow_succ'
    have hparents := length_parents nodes
    have hroom : nodes.length ≤ 2 * 2 ^ (depth + 1) := by rwa [← Nat.pow_succ']
    by_cases hlt : 2 ^ (depth + 1) < nodes.length
    · have htake : (nodes.take (2 ^ (depth + 1))).length ≤ 2 ^ (depth + 1) :=
        List.length_take_le _ _
      have hdrop : (nodes.drop (2 ^ (depth + 1))).length ≤ 2 ^ (depth + 1) := by
        rw [List.length_drop]
        omega
      have htakeNe : nodes.take (2 ^ (depth + 1)) ≠ [] := by
        simp [hne]
      have hdropNe : nodes.drop (2 ^ (depth + 1)) ≠ [] :=
        List.drop_eq_nil_iff.not.mpr (Nat.not_le.mpr hlt)
      calc subtree (depth + 1 + 1) nodes
          = parent (subtree depth (parents (nodes.take (2 ^ (depth + 1)))))
              (subtree depth (parents (nodes.drop (2 ^ (depth + 1))))) := by
            rw [subtree_of_lt hlt, ih htakeNe htake, ih hdropNe hdrop]
        _ = parent (subtree depth ((parents nodes).take (2 ^ depth)))
              (subtree depth ((parents nodes).drop (2 ^ depth))) := by
            -- `2 ^ (depth + 1)` is even, so the cut runs between two pairs.
            rw [parents_take, parents_drop (hpow ▸ hlt.le), ← hpow]
        _ = subtree (depth + 1) (parents nodes) := (subtree_of_lt (by omega)).symm
    · -- Here a whole tree is repeated, and so it is over the level above.
      have hle : nodes.length ≤ 2 ^ (depth + 1) := Nat.not_lt.mp hlt
      rw [subtree_of_le hle, ih hne hle, subtree_of_le (by omega)]

/-! ### All levels -/

theorem iterate_parents_ne_nil (hne : nodes ≠ []) (k : Nat) : parents^[k] nodes ≠ [] := by
  induction k generalizing nodes with
  | zero => exact hne
  | succ k ih => exact ih (parents_ne_nil hne)

/-- Each level halves the count of the hashes, rounded up. -/
theorem length_iterate_parents_le {k n : Nat} :
    (parents^[k] nodes).length ≤ n ↔ nodes.length ≤ n * 2 ^ k := by
  induction k generalizing nodes with
  | zero => simp
  | succ k ih =>
    have hpow : n * 2 ^ (k + 1) = 2 * (n * 2 ^ k) := by rw [Nat.pow_succ', Nat.mul_left_comm]
    rw [Function.iterate_succ_apply, ih, length_parents, hpow]
    omega

/-- What is left of the tree when its lowest levels have been built. -/
theorem subtree_add (hne : nodes ≠ []) {depth : Nat} (k : Nat)
    (h : nodes.length ≤ 2 ^ (depth + k)) :
    subtree (depth + k) nodes = subtree depth (parents^[k] nodes) := by
  induction k generalizing nodes with
  | zero => rfl
  | succ k ih =>
    have hpow : 2 ^ (depth + (k + 1)) = 2 * 2 ^ (depth + k) := Nat.pow_succ'
    have hparents : (parents nodes).length ≤ 2 ^ (depth + k) := by
      rw [length_parents]
      omega
    rw [Function.iterate_succ_apply, ← ih (parents_ne_nil hne) hparents]
    exact subtree_succ hne h

/-- The root is unchanged as long as the levels below have more than one hash. -/
theorem root_iterate_parents {k : Nat} (h : ∀ j < k, 1 < (parents^[j] nodes).length) :
    root (parents^[k] nodes) = root nodes := by
  induction k with
  | zero => rfl
  | succ k ih =>
    rw [Function.iterate_succ_apply', ← root_of_one_lt_length (h k k.lt_succ_self)]
    exact ih fun j hj => h j (hj.trans k.lt_succ_self)

/-- **The root is the tree of the least depth that has room for the leaves.** Level by level, more
than one hash is left until that depth is reached; then exactly one is left, the root. Of no leaves
the root is null. -/
theorem root_eq_subtree (nodes : List Node) :
    (nodes = [] → root nodes = FixedBytes.zero 32) ∧
      (nodes ≠ [] → ∃ depth, IsLeast {depth | nodes.length ≤ 2 ^ depth} depth ∧
        (∀ j < depth, 1 < (parents^[j] nodes).length) ∧ parents^[depth] nodes = [root nodes] ∧
        root nodes = subtree depth nodes) := by
  refine ⟨fun h => by rw [h, root], fun hne => ?_⟩
  have hroom : ∃ depth, nodes.length ≤ 2 ^ depth := ⟨nodes.length, Nat.lt_two_pow_self.le⟩
  have hleast := Nat.isLeast_find hroom
  generalize Nat.find hroom = depth at hleast
  have hbefore : ∀ j < depth, 1 < (parents^[j] nodes).length := by
    intro j hj
    by_contra hone
    have hj' : nodes.length ≤ 1 * 2 ^ j := length_iterate_parents_le.mp (Nat.not_lt.mp hone)
    exact Nat.not_lt.mpr (hleast.2 (by simpa using hj')) hj
  have hend : (parents^[depth] nodes).length ≤ 1 :=
    length_iterate_parents_le.mpr (by simpa using hleast.1)
  have hlast : parents^[depth] nodes = [root nodes] := by
    rw [← root_iterate_parents hbefore]
    exact eq_singleton_root (iterate_parents_ne_nil hne depth) hend
  refine ⟨depth, hleast, hbefore, hlast, ?_⟩
  calc root nodes
      = subtree 0 [root nodes] := rfl
    _ = subtree 0 (parents^[depth] nodes) := by rw [hlast]
    _ = subtree depth nodes := by
        rw [← Nat.zero_add depth, subtree_add hne depth (by simpa using hleast.1), Nat.zero_add]

/-- Three leaves make a tree of depth two: one pair, and the third leaf with itself. -/
theorem root_eq_subtree_sample :
    root [FixedBytes.zero 32, sha256d [], sha256d [0]] =
      parent (parent (FixedBytes.zero 32) (sha256d [])) (parent (sha256d [0]) (sha256d [0])) := by
  obtain ⟨depth, hleast, -, -, hroot⟩ :=
    (root_eq_subtree [FixedBytes.zero 32, sha256d [], sha256d [0]]).2 (by simp)
  have hroom : 3 ≤ 2 ^ depth := hleast.1
  have hle : depth ≤ 2 := hleast.2 (show 3 ≤ 2 ^ 2 by decide)
  obtain rfl | rfl | rfl : depth = 0 ∨ depth = 1 ∨ depth = 2 := by omega
  · exact absurd hroom (by decide)
  · exact absurd hroom (by decide)
  · exact hroot

end Merkle

end QuorumFinality
