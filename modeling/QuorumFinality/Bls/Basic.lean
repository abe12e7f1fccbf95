import QuorumFinality.Bls.HashToGroup
import QuorumFinality.Bls.Pairing
import QuorumFinality.Bls.Scheme

/-!
# The signature scheme of the chain

Keys are points of the first group and signatures points of the second one. A signature belongs to
a key and a message if the pairing of the generator and the signature equals that of the key and
the point of the message. An identity on either side is refused before that is asked, the
signature's first.

## Main definitions

* `Bls.Refusal`: why a signature is refused, `Bls.Refusal.failure` being its wording.
* `Bls.verify`: the check.
* `Bls.scheme`: the scheme.
-/

namespace QuorumFinality

namespace Bls

/-- Why a signature is refused. -/
inductive Refusal where
  /-- The signature is the identity of its group. -/
  | identitySignature
  /-- The key is the identity of its group. -/
  | identityKey
  /-- The signature does not belong to the key and the message. -/
  | invalid
  deriving DecidableEq

/-- The wording of a refusal. -/
def Refusal.failure : Refusal → SignatureFailure
  | identitySignature => ⟨"invalid inputs: signature is the identity point"⟩
  | identityKey => ⟨"invalid inputs: public key is the identity point"⟩
  | invalid => ⟨"invalid signature"⟩

/-- Checks a signature of a key over a message. -/
def verify (key : G1) (message : Bytes) (signature : G2) : Except Refusal Unit :=
  if signature.isIdentity then .error .identitySignature
  else if key.isIdentity then .error .identityKey
  else if isPairingProductOne [(G1.generator.neg, signature), (key, hashToGroup message)] then
    .ok ()
  else .error .invalid

/-- The scheme in which every message is signed as it is. -/
def scheme : SignatureScheme where
  Key := G1
  Signature := G2
  decodeKey := G1.decode?
  decodeSignature := G2.decode?
  addKeys := Point.add
  verify key message signature := (verify key message signature).mapError Refusal.failure

/-- The name of the scheme. -/
def schemeName : String :=
  "bls12381g2-basic"

end Bls

end QuorumFinality
