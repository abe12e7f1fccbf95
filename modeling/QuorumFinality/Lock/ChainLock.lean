import QuorumFinality.Lock.Signing

/-!
# Chain locks

A chain lock makes a block final: a quorum has signed its hash for its height.

## Main definitions

* `ChainLock`: the lock.
* `ChainLock.requestId`: the signing session, which depends on the height alone.
* `ChainLock.check`, `ChainLock.isValid`: the check around the height of the lock.
-/

namespace QuorumFinality

/-- A block that a quorum has made final. -/
structure ChainLock where
  /-- The height of the block. -/
  height : UInt32
  /-- The block. -/
  blockHash : BlockHash
  /-- The signature of the quorum. -/
  signature : SignatureBytes
  deriving DecidableEq

instance : Wire ChainLock where
  encode l := Wire.encode l.height ++ Wire.encode l.blockHash ++ Wire.encode l.signature
  decode := do
    let height ← Wire.decode
    let blockHash ← Wire.decode
    let signature ← Wire.decode
    return { height, blockHash, signature }
  size l := Wire.size l.height + Wire.size l.blockHash + Wire.size l.signature

namespace ChainLock

/-- The lock that spans a byte string. -/
def ofBytes (bytes : Bytes) : Except DecodeError ChainLock :=
  Decoder.all Wire.decode bytes

/-- The hash of a lock. -/
def hash (l : ChainLock) : ChainLockHash :=
  Hash.ofPreimage (Wire.encode l)

/-- The bytes `clsig`, which start every signing session of a chain lock. -/
def sessionLabel : Bytes :=
  [0x63, 0x6C, 0x73, 0x69, 0x67]

/-- The label and the height. -/
def requestPreimage (l : ChainLock) : Bytes :=
  Wire.encode sessionLabel ++ Wire.encode l.height

/-- The signing session of a lock. -/
def requestId (l : ChainLock) : RequestId :=
  Hash.ofPreimage l.requestPreimage

/-- What is signed, and by which type of quorum. -/
def signed (l : ChainLock) : SignedLock where
  request := l.requestId
  message := l.blockHash.bytes
  signature := l.signature
  signerType := Network.chainLockType

/-- Checks the lock against the lists of a store. -/
def check (scheme : SignatureScheme) (l : ChainLock) (store : Store) : Except LockError Unit :=
  l.signed.check scheme store l.height

/-- Whether a quorum of the lists of a store signed the lock. -/
def isValid (scheme : SignatureScheme) (l : ChainLock) (store : Store) : Except ListError Bool :=
  l.signed.isValid scheme store l.height

/-- The text of a lock. -/
def text (l : ChainLock) : String :=
  "<ChainLock: " ++ l.blockHash.text ++ ", height: " ++ toString l.height.toNat ++ ">"

end ChainLock

end QuorumFinality
