import QuorumFinality.MasternodeList.Basic

/-!
# Which quorum signs

Every active quorum of a type could sign, but only one does: the one with the lowest rank for the
signing session, ranks being compared as numbers with their last byte first. A quorum entry in the
short form has no key that is worth anything and never signs.

## Main definitions

* `MasternodeList.orderedQuorums`: the quorums that can sign, the expected signer first.
* `MasternodeList.signer?`: the expected signer alone, found without sorting.
-/

namespace QuorumFinality

namespace MasternodeList

/-- The quorums of a type that can sign, oldest first. -/
def signingQuorums (list : MasternodeList) (type : QuorumType) : List Quorum :=
  (list.quorumsOfType type).filter fun q => !q.entry.isLegacy

/-- The rank of a quorum as a number with its highest byte first. -/
def orderingKey (request : RequestId) (q : Quorum) : FixedBytes 32 :=
  (q.entry.orderingHash request).bytes.reverse

/-- The quorums of a type that can sign, lowest rank first. -/
def orderedQuorums (list : MasternodeList) (type : QuorumType) (request : RequestId) :
    List Quorum :=
  (list.signingQuorums type).mergeSort fun a b =>
    (compare (orderingKey request a) (orderingKey request b)).isLE

/-- The element with the least key, the first one of several. -/
def firstLeast {α κ : Type} [Ord κ] (key : α → κ) : List α → Option α
  | [] => none
  | a :: rest =>
    match firstLeast key rest with
    | none => some a
    | some b => if (compare (key a) (key b)).isLE then some a else some b

/-- The quorum of a type that is expected to sign. -/
def signer? (list : MasternodeList) (type : QuorumType) (request : RequestId) : Option Quorum :=
  firstLeast (orderingKey request) (list.signingQuorums type)

end MasternodeList

end QuorumFinality
