import QuorumFinality.MasternodeList.Basic
import QuorumFinality.MasternodeList.Error

/-!
# Applying a difference

A difference leads from a list to the next one. The masternodes that it names are removed and then
set; the quorums that it names are removed and the new ones are added at the end of their types,
each pushing out the oldest quorum of a type that is full. The result is accepted only if it has
the roots that the coinbase of the difference commits to.

A root over quorums in the short form cannot be calculated as the chain does it, so the declared
root is believed while the list holds such a quorum; and the root over no quorums is null, whatever
is declared. Both are decided on the list after the change.

## Main definitions

* `MasternodeList.applyMasternodes`, `MasternodeList.applyQuorums`: the two changes.
* `MasternodeList.apply`: the next list, or why the difference is refused.
* `MasternodeList.ofDiff`: the list of a difference that starts from nothing.
* `MasternodeList.toDiff`: the difference that makes a list from nothing.
-/

namespace QuorumFinality

namespace MasternodeList

/-! ### The two changes -/

/-- Removes the masternodes that are gone, then sets those that are new or have changed. -/
def applyMasternodes (masternodes : MasternodeMap) (diff : ListDiff) : MasternodeMap :=
  let kept := diff.deletedMasternodes.foldl (fun map key => map.erase key) masternodes
  diff.newMasternodes.foldl
    (fun map entry => map.insert entry.proTxHash (Masternode.ofEntry entry)) kept

/-- Removes every quorum of a type with the given hash. -/
def deleteQuorum (quorums : QuorumMap) (deleted : DeletedQuorum) : QuorumMap :=
  match quorums.get? deleted.type with
  | none => quorums
  | some bucket =>
    quorums.insert deleted.type
      (bucket.filter fun q => q.entry.quorumHash ≠ deleted.quorumHash)

/-- A bucket with a new quorum at its end. The oldest one is dropped if there are `limit` already. -/
def push (limit : Nat) (bucket : List Quorum) (q : Quorum) : List Quorum :=
  (if limit ≤ bucket.length then bucket.drop 1 else bucket) ++ [q]

/-- Adds a quorum to its type, if the network has the type. -/
def addQuorum (network : Network) (quorums : QuorumMap) (entry : QuorumEntry) : QuorumMap :=
  if entry.type ∈ network.quorumTypes then
    let bucket := (quorums.get? entry.type).getD []
    quorums.insert entry.type (push entry.type.activeCount bucket (Quorum.ofEntry entry))
  else quorums

/-- Removes the quorums that are no longer active, then adds those that have become active. Types
without quorums are left out. -/
def applyQuorums (network : Network) (quorums : QuorumMap) (diff : ListDiff) : QuorumMap :=
  let kept := diff.deletedQuorums.foldl deleteQuorum quorums
  let added := diff.newQuorums.foldl (addQuorum network) kept
  added.filter fun _ bucket => !bucket.isEmpty

/-- Whether any quorum has the short form. -/
def hasLegacy (quorums : QuorumMap) : Bool :=
  quorums.values.any fun bucket => bucket.any fun q => q.entry.isLegacy

/-- The root of the masternodes after a difference that declares one. -/
def acceptMasternodeRoot (masternodes : MasternodeMap) (declared : MasternodeRoot) :
    Except ListError MasternodeRoot :=
  let calculated := masternodeRootOf masternodes
  if calculated = declared then .ok calculated
  else .error (.masternodeRootMismatch declared calculated)

/-- The root of the quorums after a difference that declares one. -/
def acceptQuorumRoot (quorums : QuorumMap) (declared : QuorumRoot) :
    Except ListError QuorumRoot :=
  let calculated := quorumRootOf quorums
  if quorumCount quorums = 0 then .ok calculated
  else if hasLegacy quorums then .ok declared
  else if calculated = declared then .ok calculated
  else .error (.quorumRootMismatch declared calculated)

/-! ### The next list -/

/-- A list that is moved to the block of a difference, with its masternodes and quorums as they
were. As long as the base of the list is null, it is that of the difference. -/
def advance (list : MasternodeList) (diff : ListDiff) (payload : CoinbasePayload) :
    MasternodeList :=
  { list with
    baseBlockHash := if list.baseBlockHash = Hash.null then diff.baseBlockHash
      else list.baseBlockHash
    blockHash := diff.blockHash
    height := payload.height
    declaredMasternodeRoot := payload.masternodeRoot
    quorumsActive := payload.hasQuorums
    coinbaseTx := some diff.coinbaseTx
    coinbaseProof := some ⟨diff.totalTransactions, diff.merkleHashes, diff.merkleFlags⟩ }

/-- The list after a difference. -/
def apply (list : MasternodeList) (diff : ListDiff) : Except ListError MasternodeList :=
  match diff.coinbasePayload? with
  | none => .error (.missingCoinbasePayload diff.blockHash)
  | some payload => do
    let masternodes := applyMasternodes list.masternodes diff
    let masternodeRoot ← acceptMasternodeRoot masternodes payload.masternodeRoot
    let next := { list.advance diff payload with masternodes, masternodeRoot }
    if payload.hasQuorums then
      let quorums := applyQuorums list.network list.quorums diff
      let quorumRoot ← acceptQuorumRoot quorums payload.quorumRoot
      return { next with quorums, quorumRoot, declaredQuorumRoot := payload.quorumRoot }
    else return next

/-- The list of a difference that starts from nothing. -/
def ofDiff (diff : ListDiff) (network : Network) : Except ListError MasternodeList :=
  (empty network).apply diff

/-- The list after differences, from the first to the last; the first refusal is the result. -/
def applyAll (list : MasternodeList) (diffs : List ListDiff) : Except ListError MasternodeList :=
  diffs.foldlM apply list

/-! ### Back to a difference -/

/-- The difference that makes the list from nothing: it deletes nothing and names everything. -/
def toDiff (list : MasternodeList) : Except ListError ListDiff :=
  match list.coinbaseTx with
  | none => .error (.missingCoinbaseTransaction list.blockHash)
  | some coinbaseTx =>
    let proof := list.coinbaseProof.getD CoinbaseProof.empty
    .ok {
      baseBlockHash := list.baseBlockHash
      blockHash := list.blockHash
      totalTransactions := proof.totalTransactions
      merkleHashes := proof.merkleHashes
      merkleFlags := proof.merkleFlags
      coinbaseTx := coinbaseTx
      deletedMasternodes := []
      newMasternodes := list.masternodes.values.map Masternode.entry
      deletedQuorums := []
      newQuorums := list.allQuorums.map Quorum.entry }

end MasternodeList

end QuorumFinality
