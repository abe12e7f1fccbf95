import QuorumFinality.MasternodeList.Signers
import QuorumFinality.Store.Verification

/-!
# Signed locks

A lock is a threshold signature over a digest of the signing quorum, the signing session and the
object that is locked. The signer is looked up a few blocks before the lock, because the lists of
signers and verifiers drift apart around the rotation of quorums: first eight blocks before, then
at the lock itself, then sixteen blocks before.

## Main definitions

* `QuorumEntry.signId`: the digest that a quorum signs.
* `Quorum.checkMessage`: checks a signature of a quorum over a digest.
* `SignedLock`: what the check of a lock needs to know about it.
* `SignedLock.check`, `SignedLock.isValid`: the check with its reason, and without.
-/

namespace QuorumFinality

/-- The bytes whose double digest a quorum signs. -/
def QuorumEntry.signPreimage (e : QuorumEntry) (request : RequestId) (message : FixedBytes 32) :
    Bytes :=
  Wire.encode e.type ++ Wire.encode e.quorumHash ++ Wire.encode request ++ Wire.encode message

/-- The digest that a quorum signs for a message in a signing session. -/
def QuorumEntry.signId (e : QuorumEntry) (request : RequestId) (message : FixedBytes 32) :
    SignId :=
  Hash.ofPreimage (e.signPreimage request message)

/-- Why a lock is refused. -/
inductive LockError where
  /-- The list has no quorum that could sign. -/
  | noQuorums (height : UInt32) (type : QuorumType)
  /-- The quorum has the short form. -/
  | outdatedQuorum (quorum : QuorumHash)
  /-- The signature does not verify. -/
  | thresholdSignature (signature : SignatureBytes) (signId : SignId) (key : KeyBytes)
      (quorum : QuorumHash) (type : QuorumType) (failure : SignatureFailure)
  /-- A public key is not a point. -/
  | publicKey (text : String)
  /-- A signature is not a point. -/
  | signature (text : String)
  /-- The store or a list refused a question. -/
  | list (error : ListError)
  deriving DecidableEq

/-- The wording of a refusal. -/
def LockError.message : LockError → String
  | noQuorums height type =>
    "Masternode list at height " ++ toString height.toNat ++ " has no quorums of type " ++
      type.label
  | outdatedQuorum quorum =>
    "Quorum " ++ quorum.text ++ " uses the outdated encoding and cannot sign"
  | thresholdSignature bytes signId key quorum type failure =>
    "Threshold signature " ++ bytes.text ++ " is not valid for digest " ++ signId.text ++
      " using public key " ++ key.text ++ " for quorum " ++ quorum.text ++ " of type " ++
      type.label ++ ", error is: " ++ failure.reason
  | publicKey text => "Invalid BLS public key: " ++ text
  | signature text => "Invalid BLS signature: " ++ text
  | list error => error.message

/-- What the fault of a quorum means for a lock. -/
def LockError.ofFault : QuorumFault → LockError
  | .publicKey text => publicKey text
  | .signature text => signature text
  | fault => list (.invalidQuorum fault)

/-- Checks a signature of a quorum over a digest. -/
def Quorum.checkMessage (scheme : SignatureScheme) (q : Quorum) (signId : SignId)
    (signature : SignatureBytes) : Except LockError Unit :=
  if q.entry.isLegacy then .error (.outdatedQuorum q.entry.quorumHash)
  else do
    let key ← (scheme.key q.entry.publicKey).mapError LockError.ofFault
    let point ← (scheme.signature signature).mapError LockError.ofFault
    match scheme.verify key signId.bytes.toList point with
    | .ok () => return ()
    | .error failure =>
      throw (.thresholdSignature signature signId q.entry.publicKey q.entry.quorumHash
        q.entry.type failure)

/-- What the check of a lock needs to know about it. -/
structure SignedLock where
  /-- The signing session. -/
  request : RequestId
  /-- The object that is locked. -/
  message : FixedBytes 32
  /-- The signature of the quorum. -/
  signature : SignatureBytes
  /-- The type of the quorums that sign such locks on a network. -/
  signerType : Network → QuorumType

namespace SignedLock

variable (scheme : SignatureScheme) (lock : SignedLock)

/-- The digest that a quorum signs for the lock. -/
def signId (entry : QuorumEntry) : SignId :=
  entry.signId lock.request lock.message

/-- The quorum of a list that is expected to sign. -/
def signer? (list : MasternodeList) : Option Quorum :=
  list.signer? (lock.signerType list.network) lock.request

/-- Whether a quorum signed the lock. -/
def isSignedBy (q : Quorum) : Bool :=
  (q.checkMessage scheme (lock.signId q.entry) lock.signature).toBool

/-- Checks the lock against the quorums of a list. -/
def checkAgainst (list : MasternodeList) : Except LockError Unit :=
  match lock.signer? list with
  | none => .error (.noQuorums list.height (lock.signerType list.network))
  | some q => q.checkMessage scheme (lock.signId q.entry) lock.signature

/-- Checks the lock against the list so many blocks before the given height. -/
def attempt (store : Store) (height : UInt32) (offset : Nat) : Except LockError Unit := do
  let list ← (store.listAtHeight (UInt32.ofNat (height.toNat - offset))).mapError LockError.list
  lock.checkAgainst scheme list

/-- Checks the lock at one offset after another until it is found to be signed or the store
refuses. The result is that of the last trial. -/
def checkAt (store : Store) (height : UInt32) : (first : Nat) → (others : List Nat) →
    Except LockError Unit
  | first, [] => lock.attempt scheme store height first
  | first, second :: others =>
    match lock.attempt scheme store height first with
    | .ok () => .ok ()
    | .error (.list error) => .error (.list error)
    | .error _ => checkAt store height second others

/-- Checks the lock around a height: eight blocks before it, at it, and sixteen blocks before. -/
def check (store : Store) (height : UInt32) : Except LockError Unit :=
  lock.checkAt scheme store height signingOffset [0, 2 * signingOffset]

/-- What the result of a check says about a lock: whether it is signed. Only a refusal of the store
is an error. -/
def verdict : Except LockError Unit → Except ListError Bool
  | .ok () => .ok true
  | .error (.list error) => .error error
  | .error _ => .ok false

/-- Whether the lock is signed. -/
def isValid (store : Store) (height : UInt32) : Except ListError Bool :=
  verdict (lock.check scheme store height)

end SignedLock

end QuorumFinality
