/-!
# What can go wrong between values and bytes

Errors are causes; their wording is one function per type. Reading fails for reasons of form
(`DecodeError`), writing only when a value lacks a field that its version requires
(`EncodeError`).
-/

namespace QuorumFinality

/-- A rule of a single field that its bytes or its text break. -/
inductive Malformed where
  /-- The text of a public key is not hexadecimal. -/
  | publicKeyDigits
  /-- A public key does not have forty-eight bytes. -/
  | publicKeyLength
  /-- The text of a signature is not hexadecimal. -/
  | signatureDigits
  /-- A signature does not have ninety-six bytes. -/
  | signatureLength
  /-- An instant lock locks nothing. -/
  | noLockedInputs
  /-- A deterministic instant lock has the version of a plain one. -/
  | deterministicVersionZero
  /-- A transaction has a type number that no transaction type has. -/
  | unknownTransactionType
  /-- A transaction of an early version claims a special type. -/
  | specialVersion
  /-- The height of the best chain lock takes more than thirty-two bits. -/
  | bestChainLockHeight
  deriving DecidableEq

/-- The wording of a broken field rule. -/
def Malformed.reason : Malformed → String
  | .publicKeyDigits => "BLSPublicKey is not hex"
  | .publicKeyLength => "BLSPublicKey must be 48 bytes"
  | .signatureDigits => "BLSSignature is not hex"
  | .signatureLength => "BLSSignature must be 96 bytes"
  | .noLockedInputs => "instant lock without inputs"
  | .deterministicVersionZero => "deterministic instant lock with version 0"
  | .unknownTransactionType => "unknown special transaction type"
  | .specialVersion => "special transactions require version 3"
  | .bestChainLockHeight => "best_cl_height does not fit in u32"

/-- Why bytes are not the wire form of a value. -/
inductive DecodeError where
  /-- The bytes end inside the value. -/
  | unexpectedEnd
  /-- A count claims more elements than may be allocated at once. -/
  | oversized (requested limit : Nat)
  /-- A count is written in more bytes than it needs. -/
  | nonMinimalSize
  /-- A field breaks a rule of its own. -/
  | malformed (rule : Malformed)
  /-- A byte that should name a quorum type names none. -/
  | unknownQuorumType (number : Nat)
  /-- A deterministic instant lock ends where its cycle hash should stand. -/
  | missingCycleHash
  /-- Bytes are left after a value that should span them all. -/
  | trailing (count : Nat)
  deriving DecidableEq

/-- The wording of a failed reading. -/
def DecodeError.message : DecodeError → String
  | .unexpectedEnd => "I/O error: failed to fill whole buffer"
  | .oversized requested limit =>
    "allocation of oversized vector: requested " ++ toString requested ++
      ", maximum " ++ toString limit
  | .nonMinimalSize => "non-minimal varint"
  | .malformed rule => "parse failed: " ++ rule.reason
  | .unknownQuorumType number => "unknown quorum type: " ++ toString number
  | .missingCycleHash => "instant lock version requires a cycle hash but none was present"
  | .trailing count =>
    "data not consumed entirely when explicitly deserializing: " ++ toString count ++ " bytes left"

/-- A field that the version of a value requires and that the value lacks. -/
inductive EncodeError where
  /-- A coinbase payload without the height of the best chain lock. -/
  | bestChainLockHeight
  /-- A coinbase payload without the signature of the best chain lock. -/
  | bestChainLockSignature
  /-- A coinbase payload without the amount that is locked in the asset pool. -/
  | assetLockedAmount
  /-- A deterministic instant lock without its cycle hash. -/
  | cycleHash
  deriving DecidableEq

/-- The wording of a failed writing. -/
def EncodeError.message : EncodeError → String
  | .bestChainLockHeight => "best_cl_height is not set"
  | .bestChainLockSignature => "best_cl_signature is not set"
  | .assetLockedAmount => "asset_locked_amount is not set"
  | .cycleHash => "deterministic instant lock without cycle hash"

end QuorumFinality
