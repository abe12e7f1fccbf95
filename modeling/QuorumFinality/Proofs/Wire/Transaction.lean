import QuorumFinality.Proofs.Wire.Canonical
import QuorumFinality.Transaction.Basic

/-!
# Transactions are canonical

The payload of a transaction is read twice: as a byte string, and then as what the type of the
transaction says. So the type, which stands before the inputs, has to be that of the payload, which
stands behind the lock time. A payload with fields that its version does not have can be held but
not written, or is not read back.

## Main definitions

* `CoinbasePayload.Fits`, `TransactionPayload.Fits`, `Transaction.Fits` — what can be read

## Main results

* `CoinbasePayload.reads_decode`, `Transaction.reads_decode` — what is read is what is written
* `Transaction.length_of_encode` — the size is the number of bytes
* `Transaction.all_decode_eq_ok_iff` — the identifier is the digest of the bytes that were read
-/

namespace QuorumFinality

open Decoder

/-! ### Inputs and outputs -/

instance : CanonicalWire OutPoint where
  Readable _ := True
  reads_decode := by
    refine Reads.congr (.bind reads_decode fun txid => .bind reads_decode fun vout => .pure _) ?_
    rintro ⟨txid, vout⟩ code
    change _ ↔ True ∧ code = Wire.encode txid ++ Wire.encode vout
    simp [Readable]

instance : SizedWire OutPoint where
  size_eq o := by
    change _ = (Wire.encode o.txid ++ Wire.encode o.vout).length
    simp only [List.length_append, length_encode]
    rfl

instance : CanonicalWire TxIn where
  Readable i := Readable i.scriptSig
  reads_decode := by
    refine Reads.congr (.bind reads_decode fun previousOutput => .bind reads_decode fun scriptSig =>
      .bind reads_decode fun sequence => .pure _) ?_
    rintro ⟨previousOutput, scriptSig, sequence⟩ code
    change _ ↔ Readable scriptSig ∧
      code = Wire.encode previousOutput ++ Wire.encode scriptSig ++ Wire.encode sequence
    simp [Readable]

instance : SizedWire TxIn where
  size_eq i := by
    change _ = (Wire.encode i.previousOutput ++ Wire.encode i.scriptSig ++
      Wire.encode i.sequence).length
    simp only [List.length_append, length_encode]
    rfl

instance : CanonicalWire TxOut where
  Readable o := Readable o.scriptPubkey
  reads_decode := by
    refine Reads.congr (.bind reads_decode fun value => .bind reads_decode fun scriptPubkey =>
      .pure _) ?_
    rintro ⟨value, scriptPubkey⟩ code
    change _ ↔ Readable scriptPubkey ∧ code = Wire.encode value ++ Wire.encode scriptPubkey
    simp [Readable]

instance : SizedWire TxOut where
  size_eq o := by
    change _ = (Wire.encode o.value ++ Wire.encode o.scriptPubkey).length
    simp only [List.length_append, length_encode]
    rfl

/-! ### The payload of a coinbase -/

namespace CoinbasePayload

/-- The payload has the fields of its version and no others. -/
structure Fits (p : CoinbasePayload) : Prop where
  /-- There is no root of the quorums before version two. -/
  quorumRoot_eq : p.hasQuorums = false → p.quorumRoot = Hash.null
  /-- The height of the best chain lock is there from version three on. -/
  isSome_height : p.bestChainLockHeight.isSome = p.hasChainLock
  /-- The signature of the best chain lock is there from version three on. -/
  isSome_signature : p.bestChainLockSignature.isSome = p.hasChainLock
  /-- The amount in the asset pool is there from version three on. -/
  isSome_amount : p.assetLockedAmount.isSome = p.hasChainLock

theorem reads_decodeHeight :
    decodeHeight.Reads fun height code => code = CompactSize.encode height.toUInt64 := by
  refine (CompactSize.reads_decode.bind fun count => (reads_require _ _).bind fun _ =>
    Reads.pure count.toUInt32).congr fun height code => ?_
  constructor
  · rintro ⟨count, _, rfl, _, ⟨⟨⟩, _, ⟨hlt, rfl⟩, _, ⟨rfl, rfl⟩, rfl⟩, rfl⟩
    have hcount : count.toUInt32.toUInt64 = count := by
      refine UInt64.toNat.inj ?_
      rw [UInt32.toNat_toUInt64, UInt64.toNat_toUInt32]
      exact Nat.mod_eq_of_lt hlt
    rw [hcount, List.append_nil, List.append_nil]
  · rintro rfl
    exact ⟨height.toUInt64, _, rfl, [], ⟨(), [], ⟨height.toNat_lt, rfl⟩, [],
      ⟨UInt32.toUInt32_toUInt64 height, rfl⟩, rfl⟩, (List.append_nil _).symm⟩

theorem encodeChainLock_eq_ok_iff {p : CoinbasePayload} {code : Bytes} :
    p.encodeChainLock = .ok code ↔ ∃ height signature amount,
      p.bestChainLockHeight = some height ∧ p.bestChainLockSignature = some signature ∧
      p.assetLockedAmount = some amount ∧
      code = CompactSize.encode height.toUInt64 ++ Wire.encode signature ++ Wire.encode amount := by
  obtain ⟨version, height, masternodeRoot, quorumRoot, bestHeight, signature, amount⟩ := p
  cases bestHeight <;> cases signature <;> cases amount <;>
    simp [encodeChainLock, eq_comm (a := code)]

/-- A payload is written in three parts, of which only the last one can fail. -/
theorem encode_eq_ok_iff {p : CoinbasePayload} {code : Bytes} :
    p.encode = .ok code ↔ ∃ chainLock,
      (if p.hasChainLock then p.encodeChainLock else .ok []) = .ok chainLock ∧
      code = Wire.encode p.version ++ Wire.encode p.height ++ Wire.encode p.masternodeRoot ++
        (if p.hasQuorums then Wire.encode p.quorumRoot else []) ++ chainLock := by
  simp only [encode, pure, Except.pure]
  cases p.hasChainLock <;> simp [bind_eq_ok_iff, eq_comm (a := code)]

/-- **A payload is read from the bytes that are written for it,** if it has the fields of its
version. -/
protected theorem reads_decode : decode.Reads fun p code => p.Fits ∧ p.encode = .ok code := by
  refine Reads.congr (.bind reads_decode fun version => .bind reads_decode fun height =>
    .bind reads_decode fun masternodeRoot => .ite_bind reads_decode (.pure _) fun quorumRoot =>
      .ite (.bind reads_decodeHeight fun bestChainLockHeight =>
        .bind reads_decode fun bestChainLockSignature => .bind reads_decode fun assetLockedAmount =>
          .pure _) (.pure _)) fun p code => ?_
  rw [encode_eq_ok_iff]
  constructor
  · rintro ⟨version, _, ⟨-, rfl⟩, _, ⟨height, _, ⟨-, rfl⟩, _, ⟨masternodeRoot, _, ⟨-, rfl⟩, _,
      ⟨quorumRoot, quorums, hquorums, chainLock, hchainLock, rfl⟩, rfl⟩, rfl⟩, rfl⟩
    obtain ⟨h3, bestHeight, _, rfl, _, ⟨signature, _, ⟨-, rfl⟩, _, ⟨amount, _, ⟨-, rfl⟩, _,
      ⟨rfl, rfl⟩, rfl⟩, rfl⟩, rfl⟩ | ⟨h3, rfl, rfl⟩ := hchainLock
    all_goals
      obtain ⟨h2, -, rfl⟩ | ⟨h2, rfl, rfl⟩ := hquorums
      all_goals
        exact ⟨by constructor <;> simp [hasQuorums, hasChainLock, h2, h3],
          by simp [hasQuorums, hasChainLock, encodeChainLock, h2, h3]⟩
  · rintro ⟨hfits, chainLock, hchainLock, rfl⟩
    obtain ⟨version, height, masternodeRoot, quorumRoot, bestHeight, signature, amount⟩ := p
    simp only [List.append_assoc]
    refine exists_code_append ⟨trivial, rfl⟩ <| exists_code_append ⟨trivial, rfl⟩ <|
      exists_code_append ⟨trivial, rfl⟩ <| exists_code_append (a := quorumRoot) ?_ ?_
    · by_cases h2 : 2 ≤ version.toNat
      · exact .inl ⟨h2, trivial, by simp [hasQuorums, h2]⟩
      · exact .inr ⟨h2, (hfits.quorumRoot_eq (decide_eq_false h2)).symm, by simp [hasQuorums, h2]⟩
    · by_cases h3 : 3 ≤ version.toNat
      · rw [hasChainLock, decide_eq_true h3, if_pos rfl, encodeChainLock_eq_ok_iff] at hchainLock
        obtain ⟨bestHeight, signature, amount, rfl, rfl, rfl, rfl⟩ := hchainLock
        simp only [List.append_assoc]
        exact .inl ⟨h3, exists_code_append rfl <| exists_code_append ⟨trivial, rfl⟩ <|
          exists_code_last ⟨trivial, rfl⟩ rfl⟩
      · obtain ⟨-, hheight, hsignature, hamount⟩ := hfits
        simp only [hasChainLock, h3, decide_false, Option.isSome_eq_false_iff,
          Option.isNone_iff_eq_none] at hheight hsignature hamount
        subst hheight hsignature hamount
        rw [hasChainLock, decide_eq_false h3, if_neg Bool.false_ne_true] at hchainLock
        exact .inr ⟨h3, rfl, (Except.ok.inj hchainLock).symm⟩

/-- The size of a payload is the number of bytes that are written for it. -/
theorem length_of_encode {p : CoinbasePayload} {code : Bytes} (h : p.encode = .ok code) :
    code.length = p.size := by
  obtain ⟨chainLock, hchainLock, rfl⟩ := encode_eq_ok_iff.mp h
  have hquorums : (if p.hasQuorums then Wire.encode p.quorumRoot else []).length =
      if p.hasQuorums then 32 else 0 := by
    split <;> simp [Wire.size]
  rw [List.length_append, List.length_append, hquorums, size]
  cases hlock : p.hasChainLock with
  | false =>
    rw [hlock, if_neg Bool.false_ne_true] at hchainLock
    rw [← Except.ok.inj hchainLock]
    simp [Wire.size]
  | true =>
    rw [hlock, if_pos rfl, encodeChainLock_eq_ok_iff] at hchainLock
    obtain ⟨height, signature, amount, hheight, -, -, rfl⟩ := hchainLock
    simp only [hheight, List.length_append, CompactSize.length_encode, length_encode, Wire.size,
      if_true]
    omega

theorem size_le (p : CoinbasePayload) : p.size ≤ 183 := by
  unfold size
  cases p.bestChainLockHeight with
  | none => grind
  | some height =>
    have hheight := CompactSize.size_le height.toUInt64
    grind

end CoinbasePayload

/-! ### Payloads -/

theorem TransactionType.ofNumber?_eq_ok_iff {n : Nat} {type : TransactionType} :
    ofNumber? n = .ok type ↔ n = type.number := by
  constructor
  · intro h
    unfold ofNumber? at h
    split at h <;> cases h <;> rfl
  · rintro rfl
    exact ofNumber?_number type

theorem TransactionType.number_lt (type : TransactionType) : type.number < 256 ^ 2 := by
  cases type <;> decide

namespace TransactionPayload

/-- The payload is that of a special transaction, it has the form that its type asks for, and it is
not too long. -/
def Fits : TransactionPayload → Prop
  | coinbase payload => payload.Fits
  | raw type bytes => type ≠ .classic ∧ type ≠ .coinbase ∧ bytes.length ≤ maxListMemory

theorem length_of_encode {payload : TransactionPayload} {bytes : Bytes}
    (h : payload.encode = .ok bytes) : bytes.length = payload.size := by
  cases payload with
  | coinbase payload => exact CoinbasePayload.length_of_encode h
  | raw type raw => rw [← Except.ok.inj h]; rfl

theorem Fits.size_le {payload : TransactionPayload} (h : payload.Fits) :
    payload.size ≤ maxListMemory := by
  cases payload with
  | coinbase payload => exact payload.size_le.trans (by decide)
  | raw type bytes => exact h.2.2

theorem Fits.type_ne {payload : TransactionPayload} (h : payload.Fits) :
    payload.type ≠ .classic := by
  cases payload with
  | coinbase payload => exact TransactionType.noConfusion
  | raw type bytes => exact h.1

/-- **Bytes are the payload of a special transaction** if the payload has the type of the
transaction and is written as these bytes. -/
theorem ofBytes_eq_ok_iff {type : TransactionType} {bytes : Bytes} {payload : TransactionPayload}
    (htype : type ≠ .classic) (hlength : bytes.length ≤ maxListMemory) :
    ofBytes type bytes = .ok payload ↔
      payload.type = type ∧ payload.Fits ∧ payload.encode = .ok bytes := by
  by_cases hcoinbase : type = .coinbase
  · subst hcoinbase
    have hpayload : ofBytes .coinbase bytes = .ok payload ↔
        ∃ p, CoinbasePayload.decode.all bytes = .ok p ∧ coinbase p = payload := by
      simp only [ofBytes, bind_eq_ok_iff, pure, Except.pure, Except.ok.injEq]
    rw [hpayload]
    simp only [CoinbasePayload.reads_decode.all_eq_ok_iff]
    constructor
    · rintro ⟨p, ⟨hfits, hencode⟩, rfl⟩
      exact ⟨rfl, hfits, hencode⟩
    · rintro ⟨hpayload, hfits, hencode⟩
      cases payload with
      | coinbase p => exact ⟨p, ⟨hfits, hencode⟩, rfl⟩
      | raw type' bytes' => exact absurd hpayload hfits.2.1
  · have hpayload : ofBytes type bytes = .ok (raw type bytes) := by
      cases type <;> first | rfl | contradiction
    rw [hpayload, Except.ok.injEq]
    constructor
    · rintro rfl
      exact ⟨rfl, ⟨htype, hcoinbase, hlength⟩, rfl⟩
    · rintro ⟨htype', hfits, hencode⟩
      cases payload with
      | coinbase p => exact absurd htype'.symm hcoinbase
      | raw type' bytes' => rw [← htype', ← Except.ok.inj hencode]; rfl

end TransactionPayload

/-! ### Transactions -/

namespace Transaction

/-- The transaction has not too many inputs and outputs, and a payload only if its version allows
for one. -/
structure Fits (tx : Transaction) : Prop where
  /-- The inputs can be read. -/
  inputs : Readable tx.inputs
  /-- The outputs can be read. -/
  outputs : Readable tx.outputs
  /-- The payload can be read, and the version is one of special transactions. -/
  payload : ∀ payload, tx.payload = some payload → 3 ≤ tx.version.toNat ∧ payload.Fits

theorem encode_eq_ok_iff {tx : Transaction} {code : Bytes} :
    tx.encode = .ok code ↔ (tx.payload = none ∧ code = tx.encodeHead) ∨
      ∃ payload bytes, tx.payload = some payload ∧ payload.encode = .ok bytes ∧
        code = tx.encodeHead ++ Wire.encode bytes := by
  unfold encode
  cases tx.payload with
  | none => simp [eq_comm (a := code)]
  | some payload => simp [bind_eq_ok_iff, pure, Except.pure, eq_comm (a := code)]

/-- **A transaction is read from the bytes that are written for it,** if it fits. -/
protected theorem reads_decode : decode.Reads fun tx code => tx.Fits ∧ tx.encode = .ok code := by
  refine Reads.congr (.bind reads_decode fun version => .bind (reads_nat 2) fun number =>
    .bind (reads_ofExcept _) fun type => .bind (reads_require _ _) fun _ =>
      .bind reads_decode fun inputs => .bind reads_decode fun outputs =>
        .bind reads_decode fun lockTime => .ite (.bind (.pure none) fun payload => .pure _)
          (.bind reads_decode fun bytes => .bind (.map _ (reads_ofExcept _)) fun payload =>
            .pure _)) fun tx code => ?_
  rw [encode_eq_ok_iff]
  constructor
  · rintro ⟨version, _, ⟨-, rfl⟩, _, ⟨number, _, ⟨-, rfl⟩, _, ⟨type, _, ⟨htype, rfl⟩, _, ⟨⟨⟩, _,
      ⟨hversion, rfl⟩, _, ⟨inputs, _, ⟨hinputs, rfl⟩, _, ⟨outputs, _, ⟨houtputs, rfl⟩, _,
        ⟨lockTime, _, ⟨-, rfl⟩, _, hpayload, rfl⟩, rfl⟩, rfl⟩, rfl⟩, rfl⟩, rfl⟩, rfl⟩
    rw [TransactionType.ofNumber?_eq_ok_iff] at htype
    subst htype
    obtain ⟨rfl, _, _, ⟨rfl, rfl⟩, _, ⟨rfl, rfl⟩, rfl⟩ | ⟨hspecial, bytes, _, ⟨hbytes, rfl⟩, _,
      ⟨_, _, ⟨payload, ⟨hpayload, rfl⟩, rfl⟩, _, ⟨rfl, rfl⟩, rfl⟩, rfl⟩ := hpayload
    · exact ⟨⟨hinputs, houtputs, by simp⟩, .inl ⟨rfl, by simp [encodeHead, type]⟩⟩
    · obtain ⟨rfl, hfits, hencode⟩ :=
        (TransactionPayload.ofBytes_eq_ok_iff hspecial hbytes).mp hpayload
      refine ⟨⟨hinputs, houtputs, ?_⟩, .inr ⟨payload, bytes, rfl, hencode, ?_⟩⟩
      · rintro _ ⟨rfl⟩
        exact ⟨hversion.resolve_right hspecial, hfits⟩
      · simp [encodeHead, type]
  · rintro ⟨⟨hinputs, houtputs, hpayload⟩, ⟨hnone, rfl⟩ | ⟨payload, bytes, hsome, hbytes, rfl⟩⟩
    · obtain ⟨version, lockTime, inputs, outputs, _⟩ := tx
      obtain rfl : _ = none := hnone
      rw [← List.append_nil (encodeHead _)]
      simp only [encodeHead, List.append_assoc]
      exact exists_code_append ⟨trivial, rfl⟩ <|
        exists_code_append ⟨TransactionType.number_lt _, rfl⟩ <|
        exists_code_of_nil rfl <| exists_code_of_nil (a := ()) (.inr rfl) <|
        exists_code_append ⟨hinputs, rfl⟩ <| exists_code_append ⟨houtputs, rfl⟩ <|
        exists_code_append ⟨trivial, rfl⟩ <| .inl ⟨rfl, exists_code_of_nil rfl ⟨rfl, rfl⟩⟩
    · obtain ⟨version, lockTime, inputs, outputs, _⟩ := tx
      obtain rfl : _ = some payload := hsome
      obtain ⟨hversion, hfits⟩ := hpayload payload rfl
      have hlength : bytes.length ≤ maxListMemory :=
        (TransactionPayload.length_of_encode hbytes).trans_le hfits.size_le
      have hread := (TransactionPayload.ofBytes_eq_ok_iff hfits.type_ne hlength).mpr
        ⟨rfl, hfits, hbytes⟩
      simp only [encodeHead, List.append_assoc]
      exact exists_code_append ⟨trivial, rfl⟩ <| exists_code_append ⟨payload.type.number_lt, rfl⟩ <|
        exists_code_of_nil (TransactionType.ofNumber?_number _) <|
        exists_code_of_nil (a := ()) (.inl hversion) <|
        exists_code_append ⟨hinputs, rfl⟩ <| exists_code_append ⟨houtputs, rfl⟩ <|
        exists_code_append ⟨trivial, rfl⟩ <| .inr ⟨hfits.type_ne, bytes, _, ⟨hlength, rfl⟩, [],
          ⟨some payload, [], ⟨payload, ⟨hread, rfl⟩, rfl⟩, [], ⟨rfl, rfl⟩, rfl⟩,
          (List.append_nil _).symm⟩

/-- The size of a transaction is the number of bytes that are written for it. -/
theorem length_of_encode {tx : Transaction} {code : Bytes} (h : tx.encode = .ok code) :
    code.length = tx.size := by
  have hhead : tx.encodeHead.length = Wire.size tx.version + 2 + Wire.size tx.inputs +
      Wire.size tx.outputs + Wire.size tx.lockTime := by
    simp only [encodeHead, List.length_append, length_encode, length_littleEndian]
  rcases encode_eq_ok_iff.mp h with ⟨hnone, rfl⟩ | ⟨payload, bytes, hsome, hbytes, rfl⟩
  · rw [hhead, size, hnone]
    rfl
  · rw [List.length_append, hhead, size, hsome, length_encode]
    simp only [← TransactionPayload.length_of_encode hbytes]
    rfl

/-- **The identifier of a transaction is the digest of its bytes as they were received.** A byte
string is read as a transaction if and only if the transaction fits and is written as that very byte
string. So nothing that was read can fail to be written. -/
theorem all_decode_eq_ok_iff {bytes : Bytes} {tx : Transaction} : decode.all bytes = .ok tx ↔
    tx.Fits ∧ tx.encode = .ok bytes ∧ tx.txid = .ok ⟨sha256d bytes⟩ := by
  rw [Transaction.reads_decode.all_eq_ok_iff]
  constructor
  · rintro ⟨hfits, hencode⟩
    exact ⟨hfits, hencode, by rw [txid, hencode]; rfl⟩
  · rintro ⟨hfits, hencode, -⟩
    exact ⟨hfits, hencode⟩

end Transaction

end QuorumFinality
