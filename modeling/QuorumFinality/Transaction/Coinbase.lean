import QuorumFinality.Bls.Bytes

/-!
# The payload of a coinbase transaction

The coinbase of a block commits to the masternodes and the quorums that are active after it.
Later versions commit to more: the quorum root came with version two, and the best chain lock and
the amount in the asset pool with version three.

## Main definitions

* `CoinbasePayload`: the payload, with the fields of version three optional.
* `CoinbasePayload.encode`: fails when a field that the version requires is absent.
* `CoinbasePayload.size`: the length of the wire form, computed from the version.
-/

namespace QuorumFinality

/-- What the coinbase of a block commits to. -/
structure CoinbasePayload where
  /-- The version, which says which fields are sent. -/
  version : UInt16
  /-- The height of the block. -/
  height : UInt32
  /-- The Merkle root over the masternodes. -/
  masternodeRoot : MasternodeRoot
  /-- The Merkle root over the quorums, sent from version two on. -/
  quorumRoot : QuorumRoot
  /-- How many blocks back the best chain lock is, sent from version three on. -/
  bestChainLockHeight : Option UInt32
  /-- The signature of the best chain lock, sent from version three on. -/
  bestChainLockSignature : Option SignatureBytes
  /-- The amount in the asset pool, sent from version three on. -/
  assetLockedAmount : Option UInt64
  deriving DecidableEq, Ord

namespace CoinbasePayload

/-- Whether the payload commits to the quorums. -/
def hasQuorums (p : CoinbasePayload) : Bool :=
  2 ≤ p.version.toNat

/-- Whether the payload commits to a chain lock and to the asset pool. -/
def hasChainLock (p : CoinbasePayload) : Bool :=
  3 ≤ p.version.toNat

/-- The length of the wire form. -/
def size (p : CoinbasePayload) : Nat :=
  2 + 4 + 32 + (if p.hasQuorums then 32 else 0) +
    if p.hasChainLock then
      96 + (match p.bestChainLockHeight with
        | some height => CompactSize.size height.toUInt64
        | none => 0) + 8
    else 0

/-- The bytes of the fields that came with version three. The first absent field is the error. -/
def encodeChainLock (p : CoinbasePayload) : Except EncodeError Bytes :=
  match p.bestChainLockHeight, p.bestChainLockSignature, p.assetLockedAmount with
  | none, _, _ => .error .bestChainLockHeight
  | some _, none, _ => .error .bestChainLockSignature
  | some _, some _, none => .error .assetLockedAmount
  | some height, some signature, some amount =>
    .ok (CompactSize.encode height.toUInt64 ++ Wire.encode signature ++ Wire.encode amount)

/-- The bytes of a payload. -/
def encode (p : CoinbasePayload) : Except EncodeError Bytes := do
  let head := Wire.encode p.version ++ Wire.encode p.height ++ Wire.encode p.masternodeRoot
  let quorums := if p.hasQuorums then Wire.encode p.quorumRoot else []
  let chainLock ← if p.hasChainLock then p.encodeChainLock else pure []
  return head ++ quorums ++ chainLock

/-- A count that takes thirty-two bits at most. -/
def decodeHeight : Decoder UInt32 := do
  let height ← CompactSize.decode
  Decoder.require (height.toNat < 0x100000000) (.malformed .bestChainLockHeight)
  return height.toUInt32

/-- Reads a payload. Fields that the version does not have are absent, and the quorum root is
null. -/
def decode : Decoder CoinbasePayload := do
  let version : UInt16 ← Wire.decode
  let height ← Wire.decode
  let masternodeRoot ← Wire.decode
  let quorumRoot ← if 2 ≤ version.toNat then Wire.decode else pure Hash.null
  if 3 ≤ version.toNat then
    let bestChainLockHeight ← decodeHeight
    let bestChainLockSignature ← Wire.decode
    let assetLockedAmount ← Wire.decode
    return {
      version, height, masternodeRoot, quorumRoot
      bestChainLockHeight := some bestChainLockHeight
      bestChainLockSignature := some bestChainLockSignature
      assetLockedAmount := some assetLockedAmount }
  else
    return {
      version, height, masternodeRoot, quorumRoot
      bestChainLockHeight := none
      bestChainLockSignature := none
      assetLockedAmount := none }

end CoinbasePayload

end QuorumFinality
