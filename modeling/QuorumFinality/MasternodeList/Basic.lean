import QuorumFinality.ListDiff
import QuorumFinality.Merkle
import QuorumFinality.Network
import QuorumFinality.OrderedMap
import QuorumFinality.Quorum.Status

/-!
# Masternode lists

A masternode list is what is known at one block: the masternodes by their registration, the
active quorums by type, oldest first, and the coinbase that commits to both.

## Main definitions

* `MasternodeList`: the list; `MasternodeList.empty` is the one before any block.
* `MasternodeList.masternodeRootOf`, `MasternodeList.quorumRootOf`: the two roots that a coinbase
  commits to.
* `MasternodeList.quorumsOfType`, `MasternodeList.allQuorums`: the active quorums.
-/

namespace QuorumFinality

/-- The proof that a coinbase is part of its block. -/
structure CoinbaseProof where
  /-- How many transactions the block has. -/
  totalTransactions : UInt32
  /-- The hashes of the proof. -/
  merkleHashes : List (FixedBytes 32)
  /-- The shape of the proof. -/
  merkleFlags : Bytes
  deriving DecidableEq

/-- The proof that proves nothing. -/
def CoinbaseProof.empty : CoinbaseProof :=
  ⟨0, [], []⟩

/-- The masternodes of a list by their registration. -/
abbrev MasternodeMap := OrderedMap ProTxHash Masternode

/-- The active quorums of each type, oldest first. -/
abbrev QuorumMap := OrderedMap QuorumType (List Quorum)

/-- The masternodes and the active quorums at a block. -/
structure MasternodeList where
  /-- The network that the list belongs to. -/
  network : Network
  /-- The block that the first difference of the list started from. -/
  baseBlockHash : BlockHash
  /-- The block of the list. -/
  blockHash : BlockHash
  /-- The height of the block. -/
  height : UInt32
  /-- The masternodes by their registration. -/
  masternodes : MasternodeMap
  /-- The active quorums of each type. -/
  quorums : QuorumMap
  /-- The root of the masternodes. -/
  masternodeRoot : MasternodeRoot
  /-- The root of the quorums. -/
  quorumRoot : QuorumRoot
  /-- The root of the masternodes that the last difference declared. -/
  declaredMasternodeRoot : MasternodeRoot
  /-- The root of the quorums that the last difference with quorums declared. -/
  declaredQuorumRoot : QuorumRoot
  /-- Whether the last difference committed to quorums. -/
  quorumsActive : Bool
  /-- The coinbase of the block. -/
  coinbaseTx : Option Transaction
  /-- The proof that the coinbase is part of the block. -/
  coinbaseProof : Option CoinbaseProof
  deriving DecidableEq

namespace MasternodeList

/-- The list before any block. -/
def empty (network : Network) : MasternodeList where
  network := network
  baseBlockHash := Hash.null
  blockHash := Hash.null
  height := 0
  masternodes := OrderedMap.empty
  quorums := OrderedMap.empty
  masternodeRoot := Hash.null
  quorumRoot := Hash.null
  declaredMasternodeRoot := Hash.null
  declaredQuorumRoot := Hash.null
  quorumsActive := false
  coinbaseTx := none
  coinbaseProof := none

/-! ### Counting and looking up -/

/-- How many quorums there are over all types. -/
def quorumCount (quorums : QuorumMap) : Nat :=
  quorums.values.flatten.length

/-- The masternodes in good standing, in the order of their registrations. -/
def validMasternodes (list : MasternodeList) : List Masternode :=
  list.masternodes.values.filter fun m => m.entry.isValid

/-- The active quorums of a type, oldest first. -/
def quorumsOfType (list : MasternodeList) (type : QuorumType) : List Quorum :=
  (list.quorums.get? type).getD []

/-- The active quorums, type after type in the order of the network, oldest first in each. -/
def allQuorums (list : MasternodeList) : List Quorum :=
  list.network.quorumTypes.flatMap list.quorumsOfType

/-- The quorums that are known to be valid. -/
def verifiedQuorums (list : MasternodeList) : List Quorum :=
  list.allQuorums.filter Quorum.isVerified

/-- The quorums that are not known to be valid. -/
def unverifiedQuorums (list : MasternodeList) : List Quorum :=
  list.allQuorums.filter fun q => !q.isVerified

/-- The oldest quorum of a type with the given hash. -/
def quorum? (list : MasternodeList) (type : QuorumType) (hash : QuorumHash) : Option Quorum :=
  (list.quorumsOfType type).find? fun q => q.entry.quorumHash = hash

/-- Changes the first element for which a test holds. -/
def modifyFirst {α : Type} (p : α → Bool) (f : α → α) : List α → List α
  | [] => []
  | a :: rest => if p a then f a :: rest else a :: modifyFirst p f rest

/-- Changes the oldest quorum of a type with the given hash. -/
def modifyQuorum (list : MasternodeList) (type : QuorumType) (hash : QuorumHash)
    (f : Quorum → Quorum) : MasternodeList :=
  match list.quorums.get? type with
  | none => list
  | some bucket =>
    let changed := modifyFirst (fun q => q.entry.quorumHash = hash) f bucket
    { list with quorums := list.quorums.insert type changed }

/-! ### Roots -/

/-- The leaves of the tree over the masternodes, in the order of their registrations. -/
def masternodeLeaves (masternodes : MasternodeMap) : List Merkle.Node :=
  masternodes.values.map fun m => m.entryHash.bytes

/-- The leaves of the tree over the quorums of all types, in the order of their bytes. -/
def quorumLeaves (quorums : QuorumMap) : List Merkle.Node :=
  let leaves := quorums.values.flatMap fun bucket => bucket.map fun q => q.entryHash.bytes
  leaves.mergeSort fun a b => (compare a b).isLE

/-- The root over the masternodes. -/
def masternodeRootOf (masternodes : MasternodeMap) : MasternodeRoot :=
  ⟨Merkle.root (masternodeLeaves masternodes)⟩

/-- The root over the quorums of all types. -/
def quorumRootOf (quorums : QuorumMap) : QuorumRoot :=
  ⟨Merkle.root (quorumLeaves quorums)⟩

/-- Whether the masternodes have the root that the last difference declared. -/
def verify (list : MasternodeList) : Bool :=
  masternodeRootOf list.masternodes = list.declaredMasternodeRoot

end MasternodeList

end QuorumFinality
