import QuorumFinality.Sha256

/-!
# Merkle roots

A Merkle root commits to a list of hashes. The hashes are paired from the left, each pair is
hashed, and so on until one hash is left; a last hash without a partner is paired with itself.

## Main definitions

* `Merkle.root`: the root, level by level.
* `Merkle.subtree`: the root of a tree of a given depth, split at the top. A right half that is
  empty is replaced by the left one.

## Main results

* `Merkle.length_parents`: a level has half as many hashes as the level below, rounded up.
-/

namespace QuorumFinality

namespace Merkle

/-- A hash in the tree. -/
abbrev Node := FixedBytes 32

/-- The hash of a pair. -/
def parent (left right : Node) : Node :=
  sha256d (left.toList ++ right.toList)

/-- The level above a level. -/
def parents : List Node → List Node
  | left :: right :: rest => parent left right :: parents rest
  | [last] => [parent last last]
  | [] => []

theorem length_parents (level : List Node) :
    (parents level).length = (level.length + 1) / 2 := by
  fun_induction parents level with
  | case1 left right rest ih => simp [ih]; omega
  | case2 last => simp
  | case3 => simp

/-- The root over a list of hashes; that of no hashes is null. -/
def root (level : List Node) : Node :=
  match level with
  | [] => FixedBytes.zero 32
  | [only] => only
  | left :: right :: rest => root (parents (left :: right :: rest))
termination_by level.length
decreasing_by
  rw [length_parents]
  simp only [List.length_cons]
  omega

/-- The root of a tree of the given depth over at most `2 ^ depth` hashes. -/
def subtree : (depth : Nat) → List Node → Node
  | 0, nodes => nodes.headD (FixedBytes.zero 32)
  | depth + 1, nodes =>
    let left := subtree depth (nodes.take (2 ^ depth))
    if 2 ^ depth < nodes.length then parent left (subtree depth (nodes.drop (2 ^ depth)))
    else parent left left

end Merkle

end QuorumFinality
