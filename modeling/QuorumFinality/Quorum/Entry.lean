import QuorumFinality.Quorum.Type
import QuorumFinality.Bls.Bytes

/-!
# Quorum entries

A quorum entry is the final commitment of a quorum's key generation: which members took part,
the public key that they made, and two signatures over the commitment. Outdated nodes send a
short form without the member sets and the signatures; such an entry is kept but never verified.

The two forms are told apart by length alone: fewer than a hundred bytes are a short form. Inside
a list difference every entry has the full form.

## Main definitions

* `LegacyQuorumEntry`, `FullQuorumEntry`, `QuorumEntry`: the two forms and either of them.
* `QuorumEntry.ofBytes`: the entry that spans a byte string, in the form that its length selects.
* `memberBits`: a set of members as one flag per member.
-/

namespace QuorumFinality

/-- A quorum entry in the short form of outdated nodes. -/
structure LegacyQuorumEntry where
  /-- The version. -/
  version : UInt16
  /-- The type of the quorum. -/
  type : QuorumType
  /-- The block at which the key generation started. -/
  quorumHash : QuorumHash
  /-- How many members are said to have signed. -/
  signersCount : UInt64
  /-- How many members are said to be valid. -/
  validMembersCount : UInt64
  /-- The public key of the quorum. -/
  publicKey : KeyBytes
  deriving DecidableEq, Ord

/-- A complete final commitment. -/
structure FullQuorumEntry where
  /-- The version, which says whether the quorum is rotated. -/
  version : UInt16
  /-- The type of the quorum. -/
  type : QuorumType
  /-- The block at which the key generation started. -/
  quorumHash : QuorumHash
  /-- The position of a rotated quorum in its cycle. -/
  quorumIndex : Option Int16
  /-- How many members are said to have signed. -/
  signersCount : UInt64
  /-- The members that signed, the lowest bit of the first byte being the first member. -/
  signers : Bytes
  /-- How many members are said to be valid. -/
  validMembersCount : UInt64
  /-- The members that are valid. -/
  validMembers : Bytes
  /-- The public key of the quorum. -/
  publicKey : KeyBytes
  /-- The digest of the verification vector. -/
  vvecHash : VerificationVectorHash
  /-- The signature of the quorum over its commitment. -/
  thresholdSignature : SignatureBytes
  /-- The sum of the signers' signatures over the commitment. -/
  membersSignature : SignatureBytes
  deriving DecidableEq, Ord

/-- A quorum entry in either form. -/
inductive QuorumEntry where
  /-- The short form. -/
  | legacy (entry : LegacyQuorumEntry)
  /-- The full form. -/
  | full (entry : FullQuorumEntry)
  deriving DecidableEq, Ord

/-- Whether entries of a version are those of rotated quorums, which have a position. -/
def isRotatedVersion (version : UInt16) : Bool :=
  version = 2 || version = 4

/-- One flag for each of `size` members, from a bit set whose lowest bit stands for the first one.
Members beyond the set are not in it. -/
def memberBits (bitset : Bytes) (size : Nat) : List Bool :=
  (List.range size).map fun i =>
    match bitset[i / 8]? with
    | some byte => byte.toNat.testBit (i % 8)
    | none => false

/-! ### The short form -/

instance : Wire LegacyQuorumEntry where
  encode e := Wire.encode e.version ++ Wire.encode e.type ++ Wire.encode e.quorumHash ++
    CompactSize.encode e.signersCount ++ CompactSize.encode e.validMembersCount ++
    Wire.encode e.publicKey
  decode := do
    let version ← Wire.decode
    let type ← Wire.decode
    let quorumHash ← Wire.decode
    let signersCount ← CompactSize.decode
    let validMembersCount ← CompactSize.decode
    let publicKey ← Wire.decode
    return { version, type, quorumHash, signersCount, validMembersCount, publicKey }
  size e := Wire.size e.version + Wire.size e.type + Wire.size e.quorumHash +
    CompactSize.size e.signersCount + CompactSize.size e.validMembersCount +
    Wire.size e.publicKey

/-! ### The full form -/

namespace FullQuorumEntry

/-- The bytes of an entry under other member counts. The bit sets have no length of their own. -/
def encodeWithCounts (e : FullQuorumEntry) (signersCount validMembersCount : UInt64) : Bytes :=
  Wire.encode e.version ++ Wire.encode e.type ++ Wire.encode e.quorumHash ++
    (if isRotatedVersion e.version then Wire.encode (e.quorumIndex.getD 0) else []) ++
    CompactSize.encode signersCount ++ e.signers ++
    CompactSize.encode validMembersCount ++ e.validMembers ++
    Wire.encode e.publicKey ++ Wire.encode e.vvecHash ++
    Wire.encode e.thresholdSignature ++ Wire.encode e.membersSignature

instance : Wire FullQuorumEntry where
  encode e := e.encodeWithCounts e.signersCount e.validMembersCount
  decode := do
    let version ← Wire.decode
    let type : QuorumType ← Wire.decode
    let quorumHash ← Wire.decode
    let quorumIndex ← if isRotatedVersion version then some <$> Wire.decode else pure none
    let signersCount ← CompactSize.decode
    let signers ← Decoder.bytes type.bitsetLength
    let validMembersCount ← CompactSize.decode
    let validMembers ← Decoder.bytes type.bitsetLength
    let publicKey ← Wire.decode
    let vvecHash ← Wire.decode
    let thresholdSignature ← Wire.decode
    let membersSignature ← Wire.decode
    return {
      version, type, quorumHash, quorumIndex, signersCount, signers, validMembersCount
      validMembers, publicKey, vvecHash, thresholdSignature, membersSignature }
  size e := Wire.size e.version + Wire.size e.type + Wire.size e.quorumHash +
    (if isRotatedVersion e.version then 2 else 0) +
    CompactSize.size e.signersCount + e.signers.length +
    CompactSize.size e.validMembersCount + e.validMembers.length +
    Wire.size e.publicKey + Wire.size e.vvecHash +
    Wire.size e.thresholdSignature + Wire.size e.membersSignature

/-- One flag per member that signed. -/
def signerBits (e : FullQuorumEntry) : List Bool :=
  memberBits e.signers e.type.memberCount

/-- One flag per valid member. -/
def validMemberBits (e : FullQuorumEntry) : List Bool :=
  memberBits e.validMembers e.type.memberCount

end FullQuorumEntry

/-! ### Either form -/

namespace QuorumEntry

/-- The version. -/
def version : QuorumEntry → UInt16
  | legacy e => e.version
  | full e => e.version

/-- The type of the quorum. -/
def type : QuorumEntry → QuorumType
  | legacy e => e.type
  | full e => e.type

/-- The block at which the key generation started. -/
def quorumHash : QuorumEntry → QuorumHash
  | legacy e => e.quorumHash
  | full e => e.quorumHash

/-- The public key of the quorum. -/
def publicKey : QuorumEntry → KeyBytes
  | legacy e => e.publicKey
  | full e => e.publicKey

/-- Whether the entry has the short form. -/
def isLegacy : QuorumEntry → Bool
  | legacy _ => true
  | full _ => false

/-- The commitment of an entry in the full form. -/
def full? : QuorumEntry → Option FullQuorumEntry
  | legacy _ => none
  | full e => some e

/-- An entry that is read has the full form, and one that is written keeps its own. -/
instance : ListElement QuorumEntry where
  encode
    | legacy e => Wire.encode e
    | full e => Wire.encode e
  decode := full <$> Wire.decode
  size
    | legacy e => Wire.size e
    | full e => Wire.size e
  weight := 376

/-- Byte strings shorter than this hold an entry in the short form. -/
def legacyLimit : Nat := 100

/-- The entry that spans a byte string; its length selects the form. -/
def ofBytes (bytes : Bytes) : Except DecodeError QuorumEntry :=
  if bytes.length < legacyLimit then legacy <$> Decoder.all Wire.decode bytes
  else full <$> Decoder.all Wire.decode bytes

end QuorumEntry

end QuorumFinality
