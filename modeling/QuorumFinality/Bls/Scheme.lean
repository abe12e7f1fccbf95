import QuorumFinality.Bls.Bytes

/-!
# What is asked of a signature scheme

Quorums and locks use a signature scheme in five ways: keys and signatures are decoded, keys are
added so that one check covers many signers, and a signature is checked. Everything above the
curve is written against these operations alone.

## Main definitions

* `SignatureScheme`: the operations.
* `SignatureFailure`: why a check fails, in the words of the scheme.
-/

namespace QuorumFinality

/-- Why a scheme refuses a signature. What causes there are is up to the scheme. -/
structure SignatureFailure where
  /-- The wording of the scheme. -/
  reason : String
  deriving DecidableEq

/-- A signature scheme whose keys can be added. -/
structure SignatureScheme where
  /-- Decoded public keys. -/
  Key : Type
  /-- Decoded signatures. -/
  Signature : Type
  /-- The key that bytes stand for. -/
  decodeKey : KeyBytes → Option Key
  /-- The signature that bytes stand for. -/
  decodeSignature : SignatureBytes → Option Signature
  /-- The sum of two keys. -/
  addKeys : Key → Key → Key
  /-- Checks a signature of a key over a message. -/
  verify : Key → Bytes → Signature → Except SignatureFailure Unit

/-- The sum of keys, from the first to the last; there is none of no keys. -/
def SignatureScheme.sumKeys (scheme : SignatureScheme) : List scheme.Key → Option scheme.Key
  | [] => none
  | key :: keys => some (keys.foldl scheme.addKeys key)

end QuorumFinality
