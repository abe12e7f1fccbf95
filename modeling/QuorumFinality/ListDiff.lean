import QuorumFinality.Transaction.Basic
import QuorumFinality.Masternode.Entry
import QuorumFinality.Quorum.Entry

/-!
# List differences

A list difference leads from the masternode list at one block to the list at a later one. It
carries the coinbase transaction of the later block, which commits to the resulting list, and the
proof that the transaction is part of that block.

## Main definitions

* `ListDiffRequest`: the two blocks that a difference is asked for.
* `DeletedQuorum`: a quorum that is no longer active.
* `ListDiff`: the difference; writing one fails as writing its coinbase does.
-/

namespace QuorumFinality

/-- The two blocks that a difference is asked for. -/
structure ListDiffRequest where
  /-- The block of the list that is known. -/
  baseBlockHash : BlockHash
  /-- The block of the list that is wanted. -/
  blockHash : BlockHash
  deriving DecidableEq

instance : Wire ListDiffRequest where
  encode r := Wire.encode r.baseBlockHash ++ Wire.encode r.blockHash
  decode := do
    let baseBlockHash ← Wire.decode
    let blockHash ← Wire.decode
    return { baseBlockHash, blockHash }
  size r := Wire.size r.baseBlockHash + Wire.size r.blockHash

/-- A quorum that is no longer active. -/
structure DeletedQuorum where
  /-- The type of the quorum. -/
  type : QuorumType
  /-- The block at which its key generation started. -/
  quorumHash : QuorumHash
  deriving DecidableEq

instance : ListElement DeletedQuorum where
  encode d := Wire.encode d.type ++ Wire.encode d.quorumHash
  decode := do
    let type ← Wire.decode
    let quorumHash ← Wire.decode
    return { type, quorumHash }
  size d := Wire.size d.type + Wire.size d.quorumHash
  weight := 33

/-- What leads from the masternode list at one block to the list at a later one. -/
structure ListDiff where
  /-- The block of the earlier list. -/
  baseBlockHash : BlockHash
  /-- The block of the later list. -/
  blockHash : BlockHash
  /-- How many transactions the later block has. -/
  totalTransactions : UInt32
  /-- The hashes of the proof that the coinbase is part of the block. -/
  merkleHashes : List (FixedBytes 32)
  /-- The shape of the proof. -/
  merkleFlags : Bytes
  /-- The coinbase of the later block. -/
  coinbaseTx : Transaction
  /-- The masternodes that are gone. -/
  deletedMasternodes : List ProTxHash
  /-- The masternodes that are new or have changed. -/
  newMasternodes : List MasternodeEntry
  /-- The quorums that are no longer active. -/
  deletedQuorums : List DeletedQuorum
  /-- The quorums that have become active. -/
  newQuorums : List QuorumEntry
  deriving DecidableEq

namespace ListDiff

/-- What the coinbase of the later block commits to. -/
def coinbasePayload? (d : ListDiff) : Option CoinbasePayload :=
  d.coinbaseTx.coinbasePayload?

/-- The height of the later block. -/
def height? (d : ListDiff) : Option UInt32 :=
  d.coinbasePayload?.map CoinbasePayload.height

/-- The bytes before the coinbase. -/
def encodeHead (d : ListDiff) : Bytes :=
  Wire.encode d.baseBlockHash ++ Wire.encode d.blockHash ++ Wire.encode d.totalTransactions ++
    Wire.encode d.merkleHashes ++ Wire.encode d.merkleFlags

/-- The bytes behind the coinbase. -/
def encodeChanges (d : ListDiff) : Bytes :=
  Wire.encode d.deletedMasternodes ++ Wire.encode d.newMasternodes ++
    Wire.encode d.deletedQuorums ++ Wire.encode d.newQuorums

/-- The bytes of a difference. -/
def encode (d : ListDiff) : Except EncodeError Bytes := do
  let coinbase ← d.coinbaseTx.encode
  return d.encodeHead ++ coinbase ++ d.encodeChanges

/-- Reads a difference. -/
def decode : Decoder ListDiff := do
  let baseBlockHash ← Wire.decode
  let blockHash ← Wire.decode
  let totalTransactions ← Wire.decode
  let merkleHashes ← Wire.decode
  let merkleFlags ← Wire.decode
  let coinbaseTx ← Transaction.decode
  let deletedMasternodes ← Wire.decode
  let newMasternodes ← Wire.decode
  let deletedQuorums ← Wire.decode
  let newQuorums ← Wire.decode
  return {
    baseBlockHash, blockHash, totalTransactions, merkleHashes, merkleFlags, coinbaseTx
    deletedMasternodes, newMasternodes, deletedQuorums, newQuorums }

/-- The length of the wire form. -/
def size (d : ListDiff) : Nat :=
  Wire.size d.baseBlockHash + Wire.size d.blockHash + Wire.size d.totalTransactions +
    Wire.size d.merkleHashes + Wire.size d.merkleFlags + d.coinbaseTx.size +
    Wire.size d.deletedMasternodes + Wire.size d.newMasternodes +
    Wire.size d.deletedQuorums + Wire.size d.newQuorums

end ListDiff

end QuorumFinality
