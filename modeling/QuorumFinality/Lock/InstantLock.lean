import QuorumFinality.Lock.Signing
import QuorumFinality.Transaction.Basic

/-!
# Instant locks

An instant lock makes a transaction final before it is in a block: a quorum has signed it for the
outputs that it spends. There are two wire forms. The plain one has no version and no cycle hash;
the deterministic one starts with a version other than zero and names the cycle of its quorum. A
lock of either form locks at least one output.

## Main definitions

* `InstantLock`: the lock.
* `InstantLock.ofBytes`, `InstantLock.ofDeterministicBytes`: the two wire forms.
* `InstantLock.requestId`: the signing session, which depends on the spent outputs alone.
* `InstantLock.check`, `InstantLock.isValid`: the check around the tip of a store.
-/

namespace QuorumFinality

/-- A transaction that a quorum has made final. -/
structure InstantLock where
  /-- Zero for the plain form. -/
  version : UInt8
  /-- The outputs that are spent. -/
  inputs : List OutPoint
  /-- The transaction. -/
  txid : TxId
  /-- The block that starts the cycle of the quorum, in the deterministic form. -/
  cycleHash : Option CycleHash
  /-- The signature of the quorum. -/
  signature : SignatureBytes
  deriving DecidableEq

namespace InstantLock

/-- Whether the lock has the deterministic form. -/
def isDeterministic (l : InstantLock) : Bool :=
  l.version != 0

/-! ### Wire forms -/

/-- The bytes of a lock, in the form that its version selects. -/
def encode (l : InstantLock) : Except EncodeError Bytes :=
  if l.isDeterministic then
    match l.cycleHash with
    | none => .error .cycleHash
    | some cycleHash =>
      .ok (Wire.encode l.version ++ Wire.encode l.inputs ++ Wire.encode l.txid ++
        Wire.encode cycleHash ++ Wire.encode l.signature)
  else .ok (Wire.encode l.inputs ++ Wire.encode l.txid ++ Wire.encode l.signature)

/-- The length of the wire form. -/
def size (l : InstantLock) : Nat :=
  (if l.isDeterministic then 1 + 32 else 0) + Wire.size l.inputs + Wire.size l.txid +
    Wire.size l.signature

/-- The outputs that are spent, of which there is at least one. -/
def decodeInputs : Decoder (List OutPoint) := do
  let inputs ← Wire.decode
  Decoder.require (inputs ≠ []) (.malformed .noLockedInputs)
  return inputs

/-- Reads the plain form. -/
def decode : Decoder InstantLock := do
  let inputs ← decodeInputs
  let txid ← Wire.decode
  let signature ← Wire.decode
  return { version := 0, inputs, txid, cycleHash := none, signature }

/-- Reads the deterministic form. When only a signature is left behind the transaction, the cycle
hash is what is missing. -/
def decodeDeterministic : Decoder InstantLock := do
  let version : UInt8 ← Wire.decode
  Decoder.require (version ≠ 0) (.malformed .deterministicVersionZero)
  let inputs ← decodeInputs
  let txid ← Wire.decode
  let rest ← Decoder.rest
  Decoder.require (rest.length ≠ 96) .missingCycleHash
  let cycleHash ← Wire.decode
  let signature ← Wire.decode
  return { version, inputs, txid, cycleHash := some cycleHash, signature }

/-- The lock whose plain form spans a byte string. -/
def ofBytes (bytes : Bytes) : Except DecodeError InstantLock :=
  decode.all bytes

/-- The lock whose deterministic form spans a byte string. -/
def ofDeterministicBytes (bytes : Bytes) : Except DecodeError InstantLock :=
  decodeDeterministic.all bytes

/-- The hash of a lock. -/
def hash (l : InstantLock) : Except EncodeError InstantLockHash :=
  Hash.ofPreimage <$> l.encode

/-! ### What is signed -/

/-- The bytes `islock`, which start every signing session of an instant lock. -/
def sessionLabel : Bytes :=
  [0x69, 0x73, 0x6C, 0x6F, 0x63, 0x6B]

/-- The label and the outputs that are spent. -/
def requestPreimage (l : InstantLock) : Bytes :=
  Wire.encode sessionLabel ++ Wire.encode l.inputs

/-- The signing session of a lock. -/
def requestId (l : InstantLock) : RequestId :=
  Hash.ofPreimage l.requestPreimage

/-- What is signed, and by which type of quorum. -/
def signed (l : InstantLock) : SignedLock where
  request := l.requestId
  message := l.txid.bytes
  signature := l.signature
  signerType := Network.instantSendType

/-- Checks the lock against the lists around the tip of a store. -/
def check (scheme : SignatureScheme) (l : InstantLock) (store : Store) : Except LockError Unit :=
  l.signed.check scheme store store.tipHeight

/-- Whether a quorum of the lists around the tip of a store signed the lock. -/
def isValid (scheme : SignatureScheme) (l : InstantLock) (store : Store) :
    Except ListError Bool :=
  l.signed.isValid scheme store store.tipHeight

/-- The text of a lock. -/
def text (l : InstantLock) : String :=
  "<InstantLock: " ++ l.txid.text ++ ", sig: " ++ l.signature.text ++ ">"

end InstantLock

end QuorumFinality
