import QuorumFinality.Quorum.Entry

/-!
# What is hashed of a quorum entry

Each digest of a quorum entry is the double digest of a byte string that is named here, so that a
statement about digests can speak of what they were made from.

## Main definitions

* `FullQuorumEntry.commitmentHash`: what the members and the quorum sign.
* `QuorumEntry.entryHash`: a leaf of the Merkle tree over the quorums. It does not depend on the
  member counts that the entry declares.
* `QuorumEntry.modifier`: the seed that selects the members.
* `QuorumEntry.orderingHash`: the rank of the quorum for a signing session.
-/

namespace QuorumFinality

/-- The commitment to the valid members, the public key and the verification vector. -/
def FullQuorumEntry.commitmentPreimage (e : FullQuorumEntry) : Bytes :=
  Wire.encode e.type ++ Wire.encode e.quorumHash ++
    CompactSize.encode (UInt64.ofNat e.type.memberCount) ++ e.validMembers ++
    Wire.encode e.publicKey ++ Wire.encode e.vvecHash

/-- What the members and the quorum sign. -/
def FullQuorumEntry.commitmentHash (e : FullQuorumEntry) : CommitmentHash :=
  Hash.ofPreimage e.commitmentPreimage

namespace QuorumEntry

/-- The wire form, with the size of the quorum in place of both counts in the full form. -/
def entryPreimage : QuorumEntry → Bytes
  | legacy e => Wire.encode e
  | full e =>
    let size := UInt64.ofNat e.type.memberCount
    e.encodeWithCounts size size

/-- The leaf of an entry in the Merkle tree over the quorums. -/
def entryHash (e : QuorumEntry) : QuorumEntryHash :=
  Hash.ofPreimage e.entryPreimage

/-- What the members and the quorum sign, for an entry in the full form. -/
def commitmentHash (e : QuorumEntry) : Option CommitmentHash :=
  e.full?.map FullQuorumEntry.commitmentHash

/-- The type and the hash of the quorum. -/
def modifierPreimage (e : QuorumEntry) : Bytes :=
  Wire.encode e.type ++ Wire.encode e.quorumHash

/-- The seed that selects the members. -/
def modifier (e : QuorumEntry) : ModifierHash :=
  Hash.ofPreimage e.modifierPreimage

/-- The type and the hash of the quorum and the signing session. -/
def orderingPreimage (e : QuorumEntry) (request : RequestId) : Bytes :=
  CompactSize.encode (UInt64.ofNat e.type.number) ++ Wire.encode e.quorumHash ++
    Wire.encode request

/-- The rank of the quorum for a signing session. The lowest one signs. -/
def orderingHash (e : QuorumEntry) (request : RequestId) : OrderingHash :=
  Hash.ofPreimage (e.orderingPreimage request)

end QuorumEntry

end QuorumFinality
