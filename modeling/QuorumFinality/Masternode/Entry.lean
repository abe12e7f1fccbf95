import QuorumFinality.Address
import QuorumFinality.Bls.Bytes

/-!
# Masternode entries

A masternode entry says how a masternode is reached, which keys speak for it, and whether it is
in good standing. An entry that is kept in a list carries two digests that are computed once.

## Main definitions

* `MasternodeEntry`: the entry as it is sent.
* `Masternode`: the entry with its digests, `Masternode.ofEntry` being the way to compute them.
* `Masternode.score`: the rank of a masternode for a quorum.
-/

namespace QuorumFinality

/-- What is known about a masternode. -/
structure MasternodeEntry where
  /-- The transaction that registered it. -/
  proTxHash : ProTxHash
  /-- The block that confirmed the registration, once there is one. -/
  confirmedHash : Option ConfirmedHash
  /-- Where it is reached. -/
  service : ServiceAddress
  /-- The key with which it signs for quorums. -/
  operatorKey : KeyBytes
  /-- The digest of the key with which it votes. -/
  votingKeyId : FixedBytes 20
  /-- Whether it is in good standing. -/
  isValid : Bool
  deriving DecidableEq, Ord

/-- An entry has a fixed length. A registration that is not confirmed is sent as the null hash. -/
instance : ListElement MasternodeEntry where
  encode e := Wire.encode e.proTxHash ++ Wire.encode (e.confirmedHash.getD Hash.null) ++
    Wire.encode e.service ++ Wire.encode e.operatorKey ++ Wire.encode e.votingKeyId ++
    Wire.encode e.isValid
  decode := do
    let proTxHash ← Wire.decode
    let confirmed : ConfirmedHash ← Wire.decode
    let service ← Wire.decode
    let operatorKey ← Wire.decode
    let votingKeyId ← Wire.decode
    let isValid ← Wire.decode
    let confirmedHash := if confirmed = Hash.null then none else some confirmed
    return { proTxHash, confirmedHash, service, operatorKey, votingKeyId, isValid }
  size e := Wire.size e.proTxHash + Wire.size (e.confirmedHash.getD Hash.null) +
    Wire.size e.service + Wire.size e.operatorKey + Wire.size e.votingKeyId + Wire.size e.isValid
  weight := 154

/-- The digest of an entry, which is a leaf of the Merkle tree over the masternodes. -/
def MasternodeEntry.entryHash (e : MasternodeEntry) : MasternodeEntryHash :=
  Hash.ofPreimage (Wire.encode e)

/-- The digest of a registration and its confirmation. -/
def ConfirmedMasternodeHash.ofHashes (proTxHash : ProTxHash) (confirmedHash : ConfirmedHash) :
    ConfirmedMasternodeHash :=
  ⟨sha256 (proTxHash.bytes.toList ++ confirmedHash.bytes.toList)⟩

/-- The rank that a modifier gives to a confirmed masternode: a digest with its bytes reversed, so
that ranks are compared as numbers. -/
def ScoreHash.ofHashes (confirmed : ConfirmedMasternodeHash) (modifier : ModifierHash) :
    ScoreHash :=
  ⟨(sha256 (confirmed.bytes.toList ++ modifier.bytes.toList)).reverse⟩

/-- A masternode entry with its digests. -/
structure Masternode where
  /-- The entry. -/
  entry : MasternodeEntry
  /-- The digest of the entry. -/
  entryHash : MasternodeEntryHash
  /-- The digest of the registration and its confirmation, once there is one. -/
  confirmedMasternodeHash : Option ConfirmedMasternodeHash
  deriving DecidableEq

namespace Masternode

/-- An entry together with the digests that belong to it. -/
def ofEntry (entry : MasternodeEntry) : Masternode where
  entry := entry
  entryHash := entry.entryHash
  confirmedMasternodeHash :=
    entry.confirmedHash.map (ConfirmedMasternodeHash.ofHashes entry.proTxHash)

/-- Masternodes are compared by their entries alone. -/
instance : Ord Masternode where
  compare a b := compare a.entry b.entry

/-- The rank of a masternode for the quorum of a modifier. A masternode that is not in good
standing or not confirmed has none. -/
def score (m : Masternode) (modifier : ModifierHash) : Option ScoreHash :=
  if m.entry.isValid then
    m.confirmedMasternodeHash.map fun confirmed => ScoreHash.ofHashes confirmed modifier
  else none

end Masternode

end QuorumFinality
