import QuorumFinality.MasternodeList.Basic

/-!
# The members of a quorum

The members of a quorum are the masternodes with the highest ranks for it. Ranks are digests of
the masternode and a seed that is specific to the quorum, so nobody chooses the members; only
confirmed masternodes in good standing have one.

## Main definitions

* `MasternodeList.scores`: the ranks, highest first.
* `MasternodeList.topMasternodes`: the masternodes with the highest ranks.
* `MasternodeList.quorumMembers`: the members of a quorum, in the order of its bit sets.
-/

namespace QuorumFinality

namespace MasternodeList

/-- The masternodes that have a rank, each with it, highest rank first. -/
def scores (list : MasternodeList) (modifier : ModifierHash) : List (ScoreHash × Masternode) :=
  let ranked := list.masternodes.values.filterMap fun m =>
    (m.score modifier).map fun score => (score, m)
  ranked.mergeSort fun a b => (compare b.1 a.1).isLE

/-- The `size` masternodes with the highest ranks, highest first. -/
def topMasternodes (list : MasternodeList) (modifier : ModifierHash) (size : Nat) :
    List Masternode :=
  ((list.scores modifier).take size).map Prod.snd

/-- The members of a quorum whose key generation started at the block of the list. -/
def quorumMembers (list : MasternodeList) (entry : QuorumEntry) : List Masternode :=
  list.topMasternodes entry.modifier entry.type.memberCount

end MasternodeList

end QuorumFinality
