import QuorumFinality.Bls.Scheme
import QuorumFinality.MasternodeList.Members

/-!
# Verifying a quorum

A quorum is valid if two signatures over its commitment are: the one that the members made
together, checked with the sum of their operator keys, and the one that the quorum made with its
own key. The members are drawn from the list at the block of the quorum, so no other list can
verify it.

## Main definitions

* `Quorum.checkMembersSignature`, `Quorum.checkQuorumSignature`: the two checks.
* `Quorum.validate`: both of them, the members' first.
* `Quorum.verify`: validates once and records the outcome; a verified quorum is not asked again.
-/

namespace QuorumFinality

namespace SignatureScheme

variable (scheme : SignatureScheme)

/-- The key that bytes stand for; bytes that stand for none are the fault. -/
def key (bytes : KeyBytes) : Except QuorumFault scheme.Key :=
  match scheme.decodeKey bytes with
  | some key => .ok key
  | none => .error (.publicKey bytes.text)

/-- The signature that bytes stand for; bytes that stand for none are the fault. -/
def signature (bytes : SignatureBytes) : Except QuorumFault scheme.Signature :=
  match scheme.decodeSignature bytes with
  | some signature => .ok signature
  | none => .error (.signature bytes.text)

/-- The sum of the keys of all signers. -/
def aggregate (keys : List scheme.Key) : Except QuorumFault scheme.Key :=
  match scheme.sumKeys keys with
  | some key => .ok key
  | none => .error .noSigners

/-- Checks a signature; `fault` is what the refusal means. -/
def check (key : scheme.Key) (message : Bytes) (signature : scheme.Signature)
    (fault : String → QuorumFault) : Except QuorumFault Unit :=
  match scheme.verify key message signature with
  | .ok () => .ok ()
  | .error failure => .error (fault failure.reason)

end SignatureScheme

namespace Quorum

variable (scheme : SignatureScheme)

/-- The commitment of an entry in the full form and the message that is signed. -/
def commitment (q : Quorum) : Except QuorumFault (FullQuorumEntry × Bytes) :=
  match q.entry.full?, q.commitmentHash with
  | some entry, some hash => .ok (entry, hash.bytes.toList)
  | _, _ => .error .outdatedEncoding

/-- Refuses a list that is not the one at the block of the quorum. -/
def checkList (q : Quorum) (list : MasternodeList) : Except QuorumFault Unit :=
  if list.blockHash.bytes = q.entry.quorumHash.bytes then .ok ()
  else .error (.wrongList list.blockHash q.entry.quorumHash)

/-- The members of an entry whose bit among the signers is set. -/
def signingMembers (list : MasternodeList) (entry : FullQuorumEntry) : List Masternode :=
  (((list.quorumMembers (.full entry)).zip entry.signerBits).filter Prod.snd).map Prod.fst

/-- Checks the signature that the quorum made over its commitment. -/
def checkQuorumSignature (q : Quorum) : Except QuorumFault Unit := do
  let (entry, message) ← q.commitment
  let key ← scheme.key entry.publicKey
  let signature ← scheme.signature entry.thresholdSignature
  scheme.check key message signature .thresholdSignature

/-- Checks the signature that the members made together, against the list at the block of the
quorum. -/
def checkMembersSignature (q : Quorum) (list : MasternodeList) : Except QuorumFault Unit := do
  q.checkList list
  let (entry, message) ← q.commitment
  let keys ← (signingMembers list entry).mapM fun m => scheme.key m.entry.operatorKey
  let key ← scheme.aggregate keys
  let signature ← scheme.signature entry.membersSignature
  scheme.check key message signature .membersSignature

/-- Checks both signatures, the members' first. -/
def validate (q : Quorum) (list : MasternodeList) : Except QuorumFault Unit := do
  q.checkMembersSignature scheme list
  q.checkQuorumSignature scheme

/-- Whether the quorum's own signature is valid. -/
def hasQuorumSignature (q : Quorum) : Bool :=
  (q.checkQuorumSignature scheme).toBool

/-- Whether the members' signature is valid. Only a list of another block is an error. -/
def hasMembersSignature (q : Quorum) (list : MasternodeList) : Except QuorumFault Bool :=
  match q.checkMembersSignature scheme list with
  | .ok () => .ok true
  | .error (.wrongList blockHash quorumHash) => .error (.wrongList blockHash quorumHash)
  | .error _ => .ok false

/-- Verifies the quorum against the list at its block and says whether it is valid. A verified
quorum stays so; one in the short form is not valid and keeps its status; otherwise the outcome of
the checks is recorded. -/
def verify (q : Quorum) (list : MasternodeList) : Quorum × Except QuorumFault Bool :=
  if q.isVerified then (q, .ok true)
  else match q.checkList list with
    | .error fault => (q, .error fault)
    | .ok () =>
      if q.entry.isLegacy then (q, .ok false)
      else
        let result := q.validate scheme list
        (q.record result, .ok result.toBool)

end Quorum

end QuorumFinality
