import QuorumFinality.Quorum.Digest

/-!
# Quorums and how far they are verified

A list keeps with each quorum entry the digests that belong to it and the outcome of the last
attempt to verify it. Only the outcome "verified" is final.

## Main definitions

* `QuorumFault`: why a quorum is not valid.
* `VerificationStatus`: the outcome of the last attempt.
* `Quorum`: an entry with its digests and its status; `Quorum.ofEntry` computes them.
* `Quorum.record`: takes the result of an attempt into the status.
-/

namespace QuorumFinality

/-- Why a quorum is not valid. -/
inductive QuorumFault where
  /-- The list is not the one at the block of the quorum. -/
  | wrongList (blockHash : BlockHash) (quorumHash : QuorumHash)
  /-- The entry has the short form. -/
  | outdatedEncoding
  /-- None of the members signed. -/
  | noSigners
  /-- A public key is not a point. -/
  | publicKey (text : String)
  /-- A signature is not a point. -/
  | signature (text : String)
  /-- The members' signature does not verify. -/
  | membersSignature (reason : String)
  /-- The quorum's signature does not verify. -/
  | thresholdSignature (reason : String)
  deriving DecidableEq, Ord

/-- The wording of a fault. -/
def QuorumFault.message : QuorumFault → String
  | wrongList blockHash quorumHash =>
    "Masternode list at block " ++ blockHash.text ++ " cannot validate quorum " ++ quorumHash.text
  | outdatedEncoding => "Quorum entry uses the outdated encoding and carries no signatures"
  | noSigners => "No signer of the quorum is part of the masternode list"
  | publicKey text => "Invalid BLS public key: " ++ text
  | signature text => "Invalid BLS signature: " ++ text
  | membersSignature reason => "All commitment aggregated signature not valid: " ++ reason
  | thresholdSignature reason => "Threshold signature not valid: " ++ reason

/-- Why no attempt to verify a quorum was made. -/
inductive SkipReason where
  /-- The quorum is not one of those to be verified. -/
  | notMarked
  /-- The list at the block of the quorum is not known. -/
  | missedList (quorumHash : QuorumHash)
  /-- Another reason, in words. -/
  | other (context : String)
  deriving DecidableEq, Ord

/-- The wording of a reason. -/
def SkipReason.text : SkipReason → String
  | notMarked => "NotMarkedForVerification"
  | missedList quorumHash => "MissedList(" ++ quorumHash.text ++ ")"
  | other context => "OtherContext(" ++ context ++ ")"

/-- The outcome of the last attempt to verify a quorum. -/
inductive VerificationStatus where
  /-- There was no attempt. -/
  | unknown
  /-- The quorum is valid. -/
  | verified
  /-- No attempt was possible. -/
  | skipped (reason : SkipReason)
  /-- The quorum is not valid. -/
  | invalid (fault : QuorumFault)
  deriving DecidableEq, Ord

/-- The wording of an outcome. -/
def VerificationStatus.text : VerificationStatus → String
  | unknown => "unknown"
  | verified => "verified"
  | skipped reason => "Skipped(" ++ reason.text ++ ")"
  | invalid fault => "Invalid(" ++ fault.message ++ ")"

/-- The status that belongs to the result of an attempt. -/
def VerificationStatus.ofResult : Except QuorumFault Unit → VerificationStatus
  | .ok () => verified
  | .error fault => invalid fault

/-- A quorum entry with its digests and its status. -/
structure Quorum where
  /-- The entry. -/
  entry : QuorumEntry
  /-- The outcome of the last attempt to verify it. -/
  status : VerificationStatus
  /-- What the members and the quorum sign, for an entry in the full form. -/
  commitmentHash : Option CommitmentHash
  /-- The leaf of the entry in the Merkle tree over the quorums. -/
  entryHash : QuorumEntryHash
  deriving DecidableEq, Ord

namespace Quorum

/-- The status before any attempt. An entry in the short form is not going to be attempted. -/
def initialStatus (entry : QuorumEntry) : VerificationStatus :=
  if entry.isLegacy then .skipped (.other "outdated encoding") else .unknown

/-- An entry together with the digests that belong to it. -/
def ofEntry (entry : QuorumEntry) : Quorum where
  entry := entry
  status := initialStatus entry
  commitmentHash := entry.commitmentHash
  entryHash := entry.entryHash

/-- Whether the quorum is known to be valid. -/
def isVerified (q : Quorum) : Bool :=
  q.status = .verified

/-- The quorum after an attempt to verify it. -/
def record (q : Quorum) (result : Except QuorumFault Unit) : Quorum :=
  { q with status := VerificationStatus.ofResult result }

end Quorum

end QuorumFinality
