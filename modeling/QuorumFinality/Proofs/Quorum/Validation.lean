import QuorumFinality.Proofs.Except
import QuorumFinality.Quorum.Verification

/-!
# When a quorum is valid

A quorum is validated in a chain of checks, any of which may be the one that refuses it. Here the
chain is taken apart once: what is left of it, if nothing refuses, is that the list is the one at
the block of the quorum and that two signatures over the commitment of its entry are accepted. The
first one is accepted under the sum of the operator keys of the members whose bit is set, the second
one under the key of the quorum.

## Main definitions

* `SignatureScheme.Accepts` — the bytes of a signature are accepted under a key
* `FullQuorumEntry.SignedByMembers`, `FullQuorumEntry.SignedByQuorum` — the two signatures

## Main results

* `Quorum.validate_eq_ok_iff` — what it takes for a quorum to be valid
-/

namespace QuorumFinality

variable {scheme : SignatureScheme}

/-! ### The single checks -/

namespace SignatureScheme

theorem key_eq_ok_iff {bytes : KeyBytes} {key : scheme.Key} :
    scheme.key bytes = .ok key ↔ scheme.decodeKey bytes = some key := by
  unfold SignatureScheme.key
  cases scheme.decodeKey bytes <;> simp

/-- Keys are decoded one by one. -/
theorem map_key_eq_iff {members : List Masternode} {keys : List scheme.Key} :
    members.map (fun m => scheme.key m.entry.operatorKey) = keys.map .ok ↔
      members.map (fun m => scheme.decodeKey m.entry.operatorKey) = keys.map some := by
  induction members generalizing keys with
  | nil => cases keys <;> simp
  | cons m members ih => cases keys <;> simp [key_eq_ok_iff, ih]

theorem signature_eq_ok_iff {bytes : SignatureBytes} {signature : scheme.Signature} :
    scheme.signature bytes = .ok signature ↔ scheme.decodeSignature bytes = some signature := by
  unfold SignatureScheme.signature
  cases scheme.decodeSignature bytes <;> simp

theorem aggregate_eq_ok_iff {keys : List scheme.Key} {key : scheme.Key} :
    scheme.aggregate keys = .ok key ↔ scheme.sumKeys keys = some key := by
  unfold aggregate
  cases scheme.sumKeys keys <;> simp

theorem check_eq_ok_iff {key : scheme.Key} {message : Bytes} {signature : scheme.Signature}
    {fault : String → QuorumFault} :
    scheme.check key message signature fault = .ok () ↔
      scheme.verify key message signature = .ok () := by
  unfold check
  split <;> simp_all

variable (scheme) in
/-- The bytes stand for a signature that the key has made over the message. -/
def Accepts (key : scheme.Key) (message : Bytes) (bytes : SignatureBytes) : Prop :=
  ∃ signature, scheme.decodeSignature bytes = some signature ∧
    scheme.verify key message signature = .ok ()

/-- To decode a signature and to check it is to find it accepted. -/
theorem exists_signature_iff {key : scheme.Key} {message : Bytes} {bytes : SignatureBytes}
    {fault : String → QuorumFault} :
    (∃ signature, scheme.signature bytes = .ok signature ∧
      scheme.check key message signature fault = .ok ()) ↔ scheme.Accepts key message bytes := by
  simp only [signature_eq_ok_iff, check_eq_ok_iff, Accepts]

end SignatureScheme

namespace FullQuorumEntry

variable (scheme)

/-- The members whose bit is set, of those that are drawn from the list, have signed the commitment
together: all their operator keys can be decoded, and the signature is accepted under their sum. -/
def SignedByMembers (entry : FullQuorumEntry) (list : MasternodeList) : Prop :=
  ∃ keys key,
    (Quorum.signingMembers list entry).map (fun m => scheme.decodeKey m.entry.operatorKey) =
      keys.map some ∧
    scheme.sumKeys keys = some key ∧
    scheme.Accepts key entry.commitmentHash.bytes.toList entry.membersSignature

/-- The quorum has signed its commitment with its own key. -/
def SignedByQuorum (entry : FullQuorumEntry) : Prop :=
  ∃ key, scheme.decodeKey entry.publicKey = some key ∧
    scheme.Accepts key entry.commitmentHash.bytes.toList entry.thresholdSignature

end FullQuorumEntry

/-! ### The whole chain -/

namespace Quorum

variable {q : Quorum} {list : MasternodeList}

/-- A quorum starts without having been verified. -/
theorem isVerified_ofEntry (entry : QuorumEntry) : (ofEntry entry).isVerified = false := by
  cases entry <;> rfl

theorem checkList_eq_ok_iff :
    q.checkList list = .ok () ↔ list.blockHash.bytes = q.entry.quorumHash.bytes := by
  unfold checkList
  split <;> simp_all

/-- A quorum with its own digests has the commitment of its entry. -/
theorem commitment_eq_ok_iff (hdigest : q.commitmentHash = q.entry.commitmentHash)
    {entry : FullQuorumEntry} {message : Bytes} :
    q.commitment = .ok (entry, message) ↔
      q.entry = .full entry ∧ entry.commitmentHash.bytes.toList = message := by
  unfold commitment
  rw [hdigest]
  cases q.entry with
  | legacy e => simp [QuorumEntry.full?]
  | full e =>
    simp only [QuorumEntry.full?, QuorumEntry.commitmentHash, Option.map_some, Except.ok.injEq,
      Prod.mk.injEq, QuorumEntry.full.injEq]
    exact and_congr_right fun h => by rw [h]

variable (scheme) in
theorem checkQuorumSignature_eq_ok_iff (hdigest : q.commitmentHash = q.entry.commitmentHash) :
    q.checkQuorumSignature scheme = .ok () ↔
      ∃ entry, q.entry = .full entry ∧ entry.SignedByQuorum scheme := by
  simp only [checkQuorumSignature, bind_eq_ok_iff, Prod.exists, commitment_eq_ok_iff hdigest,
    SignatureScheme.key_eq_ok_iff, SignatureScheme.exists_signature_iff,
    FullQuorumEntry.SignedByQuorum]
  exact ⟨fun ⟨entry, _, ⟨hentry, rfl⟩, hkey⟩ => ⟨entry, hentry, hkey⟩,
    fun ⟨entry, hentry, hkey⟩ => ⟨entry, _, ⟨hentry, rfl⟩, hkey⟩⟩

variable (scheme) in
theorem checkMembersSignature_eq_ok_iff (hdigest : q.commitmentHash = q.entry.commitmentHash) :
    q.checkMembersSignature scheme list = .ok () ↔
      list.blockHash.bytes = q.entry.quorumHash.bytes ∧
        ∃ entry, q.entry = .full entry ∧ entry.SignedByMembers scheme list := by
  simp only [checkMembersSignature, bind_eq_ok_iff, Prod.exists, commitment_eq_ok_iff hdigest,
    mapM_eq_ok_iff, SignatureScheme.aggregate_eq_ok_iff, SignatureScheme.exists_signature_iff,
    FullQuorumEntry.SignedByMembers, ← checkList_eq_ok_iff (q := q)]
  constructor
  · rintro ⟨_, hlist, entry, _, ⟨hentry, rfl⟩, keys, hkeys, key, hsum, haccepts⟩
    exact ⟨hlist, entry, hentry, keys, key, SignatureScheme.map_key_eq_iff.mp hkeys, hsum,
      haccepts⟩
  · rintro ⟨hlist, entry, hentry, keys, key, hkeys, hsum, haccepts⟩
    exact ⟨(), hlist, entry, _, ⟨hentry, rfl⟩, keys,
      SignatureScheme.map_key_eq_iff.mpr hkeys, key, hsum, haccepts⟩

variable (scheme) in
/-- **What it takes for a quorum to be valid.** The list is the one at its block, it has the full
form, and both its members and the quorum itself have signed its commitment. -/
theorem validate_eq_ok_iff (hdigest : q.commitmentHash = q.entry.commitmentHash) :
    q.validate scheme list = .ok () ↔
      list.blockHash.bytes = q.entry.quorumHash.bytes ∧
        ∃ entry, q.entry = .full entry ∧ entry.SignedByMembers scheme list ∧
          entry.SignedByQuorum scheme := by
  simp only [validate, bind_eq_ok_iff, checkMembersSignature_eq_ok_iff scheme hdigest,
    checkQuorumSignature_eq_ok_iff scheme hdigest]
  constructor
  · rintro ⟨-, ⟨hlist, entry, hentry, hmembers⟩, entry', hentry', hquorum⟩
    obtain rfl : entry = entry' := QuorumEntry.full.inj (hentry.symm.trans hentry')
    exact ⟨hlist, entry, hentry, hmembers, hquorum⟩
  · rintro ⟨hlist, entry, hentry, hmembers, hquorum⟩
    exact ⟨(), ⟨hlist, entry, hentry, hmembers⟩, entry, hentry, hquorum⟩

end Quorum

end QuorumFinality
