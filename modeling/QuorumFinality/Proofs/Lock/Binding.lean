import QuorumFinality.Lock.ChainLock
import QuorumFinality.Lock.InstantLock
import QuorumFinality.Proofs.Merkle.Binding
import QuorumFinality.Proofs.Wire.Entry
import QuorumFinality.Proofs.Wire.Transaction

/-!
# What a quorum signs

The digest that a quorum signs for a lock is made in two steps. A label and what a lock is about —
the height of a block, or the outputs that a transaction spends — give the signing session; the
quorum, the session and the object give the digest. Nothing in the second step says of which kind
the lock is. That is told by the label alone, which is hashed in the first step: the two labels
start with their lengths, and these differ. The outputs have no fixed number, but they end what is
hashed and their codes are told apart, so there is no other list with these bytes.

So a digest is that of one quorum and one object, unless two of the byte strings that are hashed
for sessions and digests collide.

## Main definitions

* `Lock`, `LockedObject` — the locks of both kinds, and what they make final
* `Lock.signId`, `Lock.hashed` — the digest for a quorum, and what is hashed for it

## Main results

* `QuorumEntry.signPreimage_inj` — what is hashed in the second step
* `Lock.object_eq_iff` — what is hashed in the first step, with what is signed, tells the object
* `Lock.signId_eq_iff_or_collide` — a digest is that of one quorum and one object
-/

namespace QuorumFinality

/-- Digests tell byte strings apart that do not collide. -/
theorem Hash.ofPreimage_inj {role : HashRole} {strings : List Bytes} (h : ¬ Collide strings)
    {a b : Bytes} (ha : a ∈ strings) (hb : b ∈ strings) :
    (Hash.ofPreimage a : Hash role) = Hash.ofPreimage b ↔ a = b :=
  ⟨fun heq => eq_of_not_collide h ha hb (congrArg Hash.bytes heq), congrArg Hash.ofPreimage⟩

/-! ### The parts of a preimage -/

theorem QuorumEntry.signPreimage_inj {e e' : QuorumEntry} {request request' : RequestId}
    {message message' : FixedBytes 32} :
    e.signPreimage request message = e'.signPreimage request' message' ↔
      (e.type = e'.type ∧ e.quorumHash = e'.quorumHash) ∧ request = request' ∧
        message = message' := by
  constructor
  · intro h
    simp only [signPreimage, List.append_assoc] at h
    obtain ⟨htype, h⟩ := encode_append_inj trivial trivial h
    obtain ⟨hquorum, h⟩ := encode_append_inj trivial trivial h
    obtain ⟨hrequest, h⟩ := encode_append_inj trivial trivial h
    exact ⟨⟨htype, hquorum⟩, hrequest, eq_of_encode_eq trivial trivial h⟩
  · rintro ⟨⟨htype, hquorum⟩, rfl, rfl⟩
    rw [signPreimage, signPreimage, htype, hquorum]

theorem ChainLock.requestPreimage_inj {l l' : ChainLock} :
    l.requestPreimage = l'.requestPreimage ↔ l.height = l'.height := by
  constructor
  · exact fun h => eq_of_encode_eq trivial trivial (List.append_cancel_left h)
  · intro h
    rw [requestPreimage, requestPreimage, h]

theorem OutPoint.encode_ne_nil (o : OutPoint) : Wire.encode o ≠ [] := by
  refine List.length_pos_iff.mp ?_
  rw [length_encode]
  exact Nat.zero_lt_succ 35

theorem InstantLock.requestPreimage_inj {l l' : InstantLock} :
    l.requestPreimage = l'.requestPreimage ↔ l.inputs = l'.inputs := by
  constructor
  · exact fun h => eq_of_encode_list_eq (fun _ => trivial) OutPoint.encode_ne_nil
      (List.append_cancel_left h)
  · intro h
    rw [requestPreimage, requestPreimage, h]

/-- The two kinds of locks are told apart by the length of their labels. -/
theorem ChainLock.requestPreimage_ne (l : ChainLock) (l' : InstantLock) :
    l.requestPreimage ≠ l'.requestPreimage := by
  intro h
  have hlabel : Wire.encode ChainLock.sessionLabel = 5 :: ChainLock.sessionLabel := by decide
  have hlabel' : Wire.encode InstantLock.sessionLabel = 6 :: InstantLock.sessionLabel := by decide
  rw [requestPreimage, InstantLock.requestPreimage, hlabel, hlabel'] at h
  exact absurd (List.cons.inj h).1 (by decide)

/-! ### Locks of both kinds -/

/-- A lock. -/
inductive Lock where
  /-- A lock of a block. -/
  | chain (lock : ChainLock)
  /-- A lock of a transaction. -/
  | instant (lock : InstantLock)
  deriving DecidableEq

/-- What a lock makes final. -/
inductive LockedObject where
  /-- A block at a height. -/
  | block (height : UInt32) (hash : BlockHash)
  /-- A transaction that spends some outputs. -/
  | transaction (inputs : List OutPoint) (txid : TxId)
  deriving DecidableEq

namespace Lock

/-- What the lock makes final. -/
def object : Lock → LockedObject
  | chain l => .block l.height l.blockHash
  | instant l => .transaction l.inputs l.txid

/-- What is hashed for the signing session. -/
def requestPreimage : Lock → Bytes
  | chain l => l.requestPreimage
  | instant l => l.requestPreimage

/-- What is signed, and by which type of quorum. -/
def signed : Lock → SignedLock
  | chain l => l.signed
  | instant l => l.signed

/-- The digest that a quorum signs for the lock. -/
def signId (l : Lock) (e : QuorumEntry) : SignId :=
  l.signed.signId e

/-- What is hashed for the digest: one byte string for the session, and one for the digest. -/
def hashed (l : Lock) (e : QuorumEntry) : List Bytes :=
  [l.requestPreimage, e.signPreimage l.signed.request l.signed.message]

variable {l l' : Lock}

theorem request_signed (l : Lock) : l.signed.request = Hash.ofPreimage l.requestPreimage := by
  cases l <;> rfl

/-- Two locks make the same object final exactly if the same bytes are hashed for their sessions and
the same message is signed. -/
theorem object_eq_iff : l.object = l'.object ↔
    l.requestPreimage = l'.requestPreimage ∧ l.signed.message = l'.signed.message := by
  cases l with
  | chain l =>
    cases l' with
    | chain l' =>
      change LockedObject.block _ _ = .block _ _ ↔
        l.requestPreimage = l'.requestPreimage ∧ l.blockHash.bytes = l'.blockHash.bytes
      rw [LockedObject.block.injEq, ChainLock.requestPreimage_inj, Hash.bytes_inj]
    | instant l' =>
      refine iff_of_false LockedObject.noConfusion fun h => ?_
      exact l.requestPreimage_ne l' h.1
  | instant l =>
    cases l' with
    | chain l' =>
      refine iff_of_false LockedObject.noConfusion fun h => ?_
      exact l'.requestPreimage_ne l h.1.symm
    | instant l' =>
      change LockedObject.transaction _ _ = .transaction _ _ ↔
        l.requestPreimage = l'.requestPreimage ∧ l.txid.bytes = l'.txid.bytes
      rw [LockedObject.transaction.injEq, InstantLock.requestPreimage_inj, Hash.bytes_inj]

/-- **A digest binds the quorum and what is locked:** quorums sign the same digest for two locks
exactly if these make the same object final and the quorums have the same type and hash, unless two
of the byte strings that are hashed collide. -/
theorem signId_eq_iff_or_collide (l l' : Lock) (e e' : QuorumEntry) :
    (l.signId e = l'.signId e' ↔
      l.object = l'.object ∧ e.type = e'.type ∧ e.quorumHash = e'.quorumHash) ∨
    Collide (l.hashed e ++ l'.hashed e') := by
  by_cases hcollide : Collide (l.hashed e ++ l'.hashed e')
  · exact .inr hcollide
  refine .inl ?_
  have hrequest : l.signed.request = l'.signed.request ↔
      l.requestPreimage = l'.requestPreimage := by
    rw [request_signed, request_signed]
    exact Hash.ofPreimage_inj hcollide (by simp [hashed]) (by simp [hashed])
  have hdigest : l.signId e = l'.signId e' ↔
      e.signPreimage l.signed.request l.signed.message =
        e'.signPreimage l'.signed.request l'.signed.message :=
    Hash.ofPreimage_inj hcollide (by simp [hashed]) (by simp [hashed])
  rw [hdigest, QuorumEntry.signPreimage_inj, hrequest, ← object_eq_iff, and_comm]

/-- What is hashed to lock a block and a transaction with one hash does not collide. -/
example :
    let e := .legacy ⟨1, .test, Hash.null, 1, 1, FixedBytes.zero 48⟩
    let block := chain ⟨1, Hash.null, FixedBytes.zero 96⟩
    let transaction := instant ⟨0, [OutPoint.null], Hash.null, none, FixedBytes.zero 96⟩
    ¬ Collide (block.hashed e ++ transaction.hashed e) :=
  not_collide_of_nodup (by decide +kernel)

end Lock

end QuorumFinality
