import QuorumFinality.Proofs.Wire.ListDiff

/-!
# Differences are read back

A difference can hold more than its bytes can say. A reader reserves no room for too long a list, it
takes a mapped address for one of the older family and a null hash for a registration that is not
confirmed, and it gives a payload the fields of its version. A difference with none of these is
*canonical*. It is found again at the front of any byte string that starts with its own bytes, and
nothing of what follows is taken for a part of it.

No clause is there without need: a difference that is read back is canonical.

## Main definitions

* `Transaction.IsCanonical`, `ListDiff.IsCanonical` — values that no reader would change or refuse

## Main results

* `ListDiff.IsCanonical.exists_encode` — a canonical difference can be written
* `ListDiff.isCanonical_of_front_eq_ok` — what is read is canonical
* `ListDiff.isCanonical_iff_front_append` — a difference is read back exactly if it is canonical
-/

namespace QuorumFinality

open Decoder

/-- The list is not too long for a reader, which reserves the memory for all elements at once. -/
def WithinMemory {α : Type} [ListElement α] (values : List α) : Prop :=
  values.length ≤ maxListMemory / ListElement.weight α

instance {α : Type} [ListElement α] (values : List α) : Decidable (WithinMemory values) :=
  inferInstanceAs (Decidable (values.length ≤ maxListMemory / ListElement.weight α))

/-! ### Payloads and transactions -/

namespace CoinbasePayload

variable {p : CoinbasePayload}

/-- The fields that a version asks for are all that writing can miss. -/
theorem Fits.exists_encodeChainLock (h : p.Fits) (hlock : p.hasChainLock = true) :
    ∃ code, p.encodeChainLock = .ok code := by
  have hheight := h.isSome_height.trans hlock
  have hsignature := h.isSome_signature.trans hlock
  have hamount := h.isSome_amount.trans hlock
  obtain ⟨height, hheight⟩ := Option.isSome_iff_exists.mp hheight
  obtain ⟨signature, hsignature⟩ := Option.isSome_iff_exists.mp hsignature
  obtain ⟨amount, hamount⟩ := Option.isSome_iff_exists.mp hamount
  exact ⟨_, encodeChainLock_eq_ok_iff.mpr
    ⟨height, signature, amount, hheight, hsignature, hamount, rfl⟩⟩

theorem Fits.exists_encode (h : p.Fits) : ∃ code, p.encode = .ok code := by
  cases hlock : p.hasChainLock with
  | false => exact ⟨_, encode_eq_ok_iff.mpr ⟨[], by rw [hlock]; rfl, rfl⟩⟩
  | true =>
    obtain ⟨chainLock, hchainLock⟩ := h.exists_encodeChainLock hlock
    exact ⟨_, encode_eq_ok_iff.mpr ⟨chainLock, by rw [hlock, if_pos rfl, hchainLock], rfl⟩⟩

end CoinbasePayload

theorem TransactionPayload.Fits.exists_encode {payload : TransactionPayload} (h : payload.Fits) :
    ∃ bytes, payload.encode = .ok bytes := by
  cases payload with
  | coinbase p => exact CoinbasePayload.Fits.exists_encode h
  | raw type bytes => exact ⟨bytes, rfl⟩

namespace Transaction

variable {tx : Transaction}

/-- Nothing in the transaction is too long, and a payload is there only in a version of special
transactions: either bytes of a type that does not interpret them, or the commitments of a coinbase
with the fields of their version. -/
structure IsCanonical (tx : Transaction) : Prop where
  /-- There are not too many inputs. -/
  inputs : WithinMemory tx.inputs
  /-- No input has too long a script. -/
  length_scriptSig : ∀ i ∈ tx.inputs, i.scriptSig.length ≤ maxListMemory
  /-- There are not too many outputs. -/
  outputs : WithinMemory tx.outputs
  /-- No output has too long a script. -/
  length_scriptPubkey : ∀ o ∈ tx.outputs, o.scriptPubkey.length ≤ maxListMemory
  /-- A payload fits its type, and the version is one of special transactions. -/
  payload : ∀ payload, tx.payload = some payload → 3 ≤ tx.version.toNat ∧ payload.Fits

theorem fits_iff_isCanonical : tx.Fits ↔ tx.IsCanonical := by
  constructor
  · rintro ⟨⟨hinputs, hsigs⟩, ⟨houtputs, hpubkeys⟩, hpayload⟩
    exact ⟨hinputs, hsigs, houtputs, hpubkeys, hpayload⟩
  · rintro ⟨hinputs, hsigs, houtputs, hpubkeys, hpayload⟩
    exact ⟨⟨hinputs, hsigs⟩, ⟨houtputs, hpubkeys⟩, hpayload⟩

theorem IsCanonical.exists_encode (h : tx.IsCanonical) : ∃ code, tx.encode = .ok code := by
  cases hpayload : tx.payload with
  | none => exact ⟨_, encode_eq_ok_iff.mpr (.inl ⟨hpayload, rfl⟩)⟩
  | some payload =>
    obtain ⟨bytes, hbytes⟩ := (h.payload payload hpayload).2.exists_encode
    exact ⟨_, encode_eq_ok_iff.mpr (.inr ⟨payload, bytes, hpayload, hbytes, rfl⟩)⟩

end Transaction

/-! ### Differences -/

namespace ListDiff

variable {d : ListDiff} {code bytes : Bytes} {n : Nat}

/-- Nothing in the difference is too long, its coinbase is canonical, no new masternode has a
mapped address or is confirmed by the null hash, and every new quorum has the full form, with bit
sets and a position as its type and its version ask for. -/
structure IsCanonical (d : ListDiff) : Prop where
  /-- There are not too many hashes in the proof. -/
  merkleHashes : WithinMemory d.merkleHashes
  /-- There are not too many flags in the proof. -/
  merkleFlags : d.merkleFlags.length ≤ maxListMemory
  /-- The coinbase is canonical. -/
  coinbaseTx : d.coinbaseTx.IsCanonical
  /-- There are not too many masternodes that are gone. -/
  deletedMasternodes : WithinMemory d.deletedMasternodes
  /-- There are not too many masternodes that are new. -/
  newMasternodes : WithinMemory d.newMasternodes
  /-- The registration of a masternode is not confirmed by the null hash, and its address is not
  mapped. -/
  fits_masternode : ∀ e ∈ d.newMasternodes, e.Fits
  /-- There are not too many quorums that are no longer active. -/
  deletedQuorums : WithinMemory d.deletedQuorums
  /-- There are not too many quorums that have become active. -/
  newQuorums : WithinMemory d.newQuorums
  /-- A quorum has the full form, as its type and its version ask for. -/
  fits_quorum : ∀ q ∈ d.newQuorums, ∃ e, q = .full e ∧ e.Fits

/-- A difference is canonical if all its parts can be read, and each of its new masternodes too. -/
theorem isCanonical_iff_fits : d.IsCanonical ↔ d.Fits ∧ ∀ e ∈ d.newMasternodes, e.Fits := by
  constructor
  · intro h
    refine ⟨?_, h.fits_masternode⟩
    exact ⟨⟨h.merkleHashes, fun _ _ => trivial⟩, h.merkleFlags,
      Transaction.fits_iff_isCanonical.mpr h.coinbaseTx,
      ⟨h.deletedMasternodes, fun _ _ => trivial⟩, h.newMasternodes,
      ⟨h.deletedQuorums, fun _ _ => trivial⟩, ⟨h.newQuorums, h.fits_quorum⟩⟩
  · rintro ⟨h, hmasternodes⟩
    exact ⟨h.merkleHashes.1, h.merkleFlags, Transaction.fits_iff_isCanonical.mp h.coinbaseTx,
      h.deletedMasternodes.1, h.length_newMasternodes, hmasternodes, h.deletedQuorums.1,
      h.newQuorums.1, h.newQuorums.2⟩

theorem IsCode.isCanonical (h : d.IsCode code) : d.IsCanonical := by
  obtain ⟨hfits, coinbase, rows, -, hrows, -⟩ := h
  refine isCanonical_iff_fits.mpr ⟨hfits, fun e he => ?_⟩
  obtain ⟨k, hk⟩ := List.mem_iff_getElem?.mp he
  obtain ⟨row, -, hrow⟩ := MasternodeEntry.exists_row_of_forall₂ hrows hk
  exact hrow.1

theorem IsCanonical.exists_encode (h : d.IsCanonical) : ∃ code, d.encode = .ok code := by
  obtain ⟨coinbase, hcoinbase⟩ := h.coinbaseTx.exists_encode
  exact ⟨_, encode_eq_ok_iff.mpr ⟨coinbase, hcoinbase, rfl⟩⟩

/-- The bytes that are written for a canonical difference are among those from which it is read. -/
theorem IsCanonical.isCode (h : d.IsCanonical) (hencode : d.encode = .ok code) :
    d.IsCode code := by
  obtain ⟨coinbase, hcoinbase, rfl⟩ := encode_eq_ok_iff.mp hencode
  obtain ⟨hfits, hmasternodes⟩ := isCanonical_iff_fits.mp h
  refine ⟨hfits, coinbase, d.newMasternodes.map Wire.encode, hcoinbase, ?_, rfl⟩
  exact List.forall₂_map_right_iff.mpr
    (List.forall₂_same.mpr fun e he => (hmasternodes e he).isCode_encode)

/-- **What is read is canonical,** whatever follows it. -/
theorem isCanonical_of_front_eq_ok (h : decode.front bytes = .ok (d, n)) : d.IsCanonical :=
  (ListDiff.reads_decode.front_eq_ok_iff.mp h).2.isCanonical

/-- **A difference is read back exactly if it is canonical.** It can then be written, and at the
front of any byte string that starts with its bytes the reader finds the difference and as many
bytes as were written. -/
theorem isCanonical_iff_front_append : d.IsCanonical ↔
    ∃ code, d.encode = .ok code ∧ ∀ rest, decode.front (code ++ rest) = .ok (d, code.length) := by
  constructor
  · intro h
    obtain ⟨code, hencode⟩ := h.exists_encode
    have hcode : d.IsCode code := h.isCode hencode
    exact ⟨code, hencode, fun rest => ListDiff.reads_decode.front_append hcode rest⟩
  · rintro ⟨code, -, hread⟩
    exact isCanonical_of_front_eq_ok (hread [])

/-- A difference with a coinbase of the third version, a masternode that is not confirmed and has an
address of the older family, and a quorum of a rotated kind. -/
def sampleDiff : ListDiff where
  baseBlockHash := Hash.null
  blockHash := ⟨FixedBytes.replicate 32 1⟩
  totalTransactions := 2
  merkleHashes := [FixedBytes.replicate 32 2]
  merkleFlags := [3]
  coinbaseTx := ⟨3, 0, [], [], some (.coinbase {
    version := 3
    height := 7
    masternodeRoot := Hash.null
    quorumRoot := Hash.null
    bestChainLockHeight := some 1
    bestChainLockSignature := some (FixedBytes.zero 96)
    assetLockedAmount := some 5 })⟩
  deletedMasternodes := []
  newMasternodes := [{
    proTxHash := ⟨FixedBytes.replicate 32 4⟩
    confirmedHash := none
    service := ⟨.v4 (FixedBytes.replicate 4 10), 9999⟩
    operatorKey := FixedBytes.zero 48
    votingKeyId := FixedBytes.zero 20
    isValid := true }]
  deletedQuorums := []
  newQuorums := [.full {
    version := 2
    type := .llmq50_60
    quorumHash := ⟨FixedBytes.replicate 32 5⟩
    quorumIndex := some (-1)
    signersCount := 50
    signers := List.replicate 7 0xFF
    validMembersCount := 50
    validMembers := List.replicate 7 0xFF
    publicKey := FixedBytes.zero 48
    vvecHash := Hash.null
    thresholdSignature := FixedBytes.zero 96
    membersSignature := FixedBytes.zero 96 }]

theorem isCanonical_sampleDiff : sampleDiff.IsCanonical where
  merkleHashes := by decide +kernel
  merkleFlags := by decide
  coinbaseTx := by
    refine ⟨by decide +kernel, by simp [sampleDiff], by decide +kernel, by simp [sampleDiff], ?_⟩
    rintro payload ⟨rfl⟩
    exact ⟨by decide, ⟨fun _ => rfl, by decide, by decide, by decide⟩⟩
  deletedMasternodes := by decide +kernel
  newMasternodes := by decide +kernel
  fits_masternode := List.forall_mem_singleton.mpr ⟨by decide, trivial⟩
  deletedQuorums := by decide +kernel
  newQuorums := by decide +kernel
  fits_quorum := List.forall_mem_singleton.mpr ⟨_, rfl, by decide, by decide, by decide⟩

/-- The sample is read back, whatever follows it. -/
theorem isCanonical_iff_front_append_sample : sampleDiff.IsCanonical ∧
    ∃ code, sampleDiff.encode = .ok code ∧
      ∀ rest, decode.front (code ++ rest) = .ok (sampleDiff, code.length) :=
  ⟨isCanonical_sampleDiff, isCanonical_iff_front_append.mp isCanonical_sampleDiff⟩

end ListDiff

end QuorumFinality
