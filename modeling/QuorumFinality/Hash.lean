import QuorumFinality.Sha256

/-!
# Hashes and what they identify

Every hash is thirty-two bytes, but a block is never a masternode: a hash carries the role of the
thing that it identifies in its type. The role also fixes the text. A double digest is written as
a number, last byte first; the two single digests, which rank masternodes, are written from the
first byte to the last.

## Main definitions

* `HashRole`, `Hash`: the roles, and the hashes of a role.
* `Hash.text`, `Hash.ofText?`: sixty-four hexadecimal digits and how they are read.
* `Hash.ofPreimage`: the double digest of a byte string, in any role.

## Main results

* `Hash.compare_eq_iff`: hashes are ordered by their bytes, and only equal ones compare equal.
-/

namespace QuorumFinality

/-- What a hash identifies. -/
inductive HashRole where
  /-- A block. -/
  | block
  /-- A transaction. -/
  | transaction
  /-- A masternode, by the transaction that registered it. -/
  | masternode
  /-- The block that confirmed a masternode's registration. -/
  | confirmation
  /-- A quorum, by the block at which its key generation started. -/
  | quorum
  /-- The verification vector of a quorum. -/
  | verificationVector
  /-- A cycle of quorum rotation. -/
  | cycle
  /-- The wire form of a masternode entry. -/
  | masternodeEntry
  /-- The wire form of a quorum entry with full member counts. -/
  | quorumEntry
  /-- What the members of a quorum and the quorum itself sign. -/
  | commitment
  /-- The seed that ranks masternodes for a quorum. -/
  | modifier
  /-- The Merkle root over the masternodes. -/
  | masternodeRoot
  /-- The Merkle root over the quorums. -/
  | quorumRoot
  /-- A signing session. -/
  | request
  /-- What a quorum signs in a session. -/
  | signing
  /-- What ranks quorums for a signing session. -/
  | ordering
  /-- A chain lock. -/
  | chainLock
  /-- An instant lock. -/
  | instantLock
  /-- A masternode together with its confirmation. -/
  | confirmedMasternode
  /-- The rank of a masternode for a quorum. -/
  | score
  deriving DecidableEq

/-- Whether hashes of this role are written last byte first. -/
def HashRole.isReversed : HashRole → Bool
  | .confirmedMasternode | .score => false
  | _ => true

/-- The hash of something in the given role. -/
structure Hash (role : HashRole) where
  /-- The bytes in the order in which they are sent. -/
  bytes : FixedBytes 32
  deriving DecidableEq

/-- The hash of a block. -/
abbrev BlockHash := Hash .block
/-- The hash of a transaction. -/
abbrev TxId := Hash .transaction
/-- The hash of the transaction that registered a masternode. -/
abbrev ProTxHash := Hash .masternode
/-- The hash of the block that confirmed a masternode's registration. -/
abbrev ConfirmedHash := Hash .confirmation
/-- The hash of the block at which a quorum's key generation started. -/
abbrev QuorumHash := Hash .quorum
/-- The hash of a quorum's verification vector. -/
abbrev VerificationVectorHash := Hash .verificationVector
/-- The hash of the block that starts a rotation cycle. -/
abbrev CycleHash := Hash .cycle
/-- The hash of a masternode entry. -/
abbrev MasternodeEntryHash := Hash .masternodeEntry
/-- The hash of a quorum entry. -/
abbrev QuorumEntryHash := Hash .quorumEntry
/-- The digest that both signatures of a quorum entry are made over. -/
abbrev CommitmentHash := Hash .commitment
/-- The seed of a quorum's member selection. -/
abbrev ModifierHash := Hash .modifier
/-- The Merkle root of the masternodes. -/
abbrev MasternodeRoot := Hash .masternodeRoot
/-- The Merkle root of the quorums. -/
abbrev QuorumRoot := Hash .quorumRoot
/-- The identifier of a signing session. -/
abbrev RequestId := Hash .request
/-- The digest that a quorum signs in a signing session. -/
abbrev SignId := Hash .signing
/-- The rank of a quorum for a signing session. -/
abbrev OrderingHash := Hash .ordering
/-- The hash of a chain lock. -/
abbrev ChainLockHash := Hash .chainLock
/-- The hash of an instant lock. -/
abbrev InstantLockHash := Hash .instantLock
/-- The hash of a masternode and its confirmation. -/
abbrev ConfirmedMasternodeHash := Hash .confirmedMasternode
/-- The rank of a masternode for a quorum. -/
abbrev ScoreHash := Hash .score

/-- Why a text is not a hash. -/
inductive HashTextError where
  /-- The text does not take sixty-four bytes. -/
  | length
  /-- A character is not a hexadecimal digit. -/
  | digit
  deriving DecidableEq

/-- The wording of the two faults. -/
def HashTextError.message : HashTextError → String
  | .length => "failed to parse hex"
  | .digit => "failed to parse hex digit"

namespace Hash

variable {role : HashRole}

theorem bytes_inj {a b : Hash role} : a.bytes = b.bytes ↔ a = b :=
  ⟨fun h => congrArg mk h, congrArg bytes⟩

/-- The hash whose bytes are all zero, which stands for an absent one. -/
def null : Hash role :=
  ⟨FixedBytes.zero 32⟩

/-- The double digest of a byte string. -/
def ofPreimage (preimage : Bytes) : Hash role :=
  ⟨sha256d preimage⟩

/-- The same bytes in another role. -/
def retype {other : HashRole} (h : Hash role) : Hash other :=
  ⟨h.bytes⟩

/-- The bytes in the order in which the text shows them. -/
def shown (h : Hash role) : FixedBytes 32 :=
  if role.isReversed then h.bytes.reverse else h.bytes

/-- Sixty-four hexadecimal digits. -/
def text (h : Hash role) : String :=
  h.shown.toList.toHex

/-- Reads sixty-four hexadecimal digits of either case. The length is that of the text in bytes,
and it is checked first. -/
def ofText? (text : String) : Except HashTextError (Hash role) :=
  if text.utf8ByteSize = 64 then
    match (Bytes.ofHex? text).bind (FixedBytes.ofList? 32) with
    | some shown => .ok ⟨if role.isReversed then shown.reverse else shown⟩
    | none => .error .digit
  else .error .length

/-- Hashes are compared byte by byte, first byte first. -/
instance : Ord (Hash role) where
  compare a b := compare a.bytes b.bytes

theorem compare_def (a b : Hash role) : compare a b = compare a.bytes b.bytes :=
  rfl

instance : Std.TransOrd (Hash role) where
  eq_swap {a b} := Std.OrientedOrd.eq_swap (a := a.bytes) (b := b.bytes)
  isLE_trans {a b c} := Std.TransOrd.isLE_trans (a := a.bytes) (b := b.bytes) (c := c.bytes)

instance : Std.LawfulEqOrd (Hash role) where
  eq_of_compare {a b} h := by
    have hb : a.bytes = b.bytes := Std.LawfulEqOrd.eq_of_compare h
    exact bytes_inj.mp hb

/-- Hashes are ordered by their bytes, and only equal ones compare equal. -/
theorem compare_eq_iff {a b : Hash role} : compare a b = .eq ↔ a = b :=
  Std.LawfulEqOrd.compare_eq_iff_eq

end Hash

end QuorumFinality
