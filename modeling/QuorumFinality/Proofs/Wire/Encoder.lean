import QuorumFinality.Proofs.Wire.Transaction
import QuorumFinality.Wire.Written

/-!
# Reported sizes are true

An encoder reports how many bytes it has added. The reports of the smallest parts are numbers that
stand in the code beside the bytes, and all others are sums of these, added up along versions,
absent fields and lists. `Encoder.Reports` says of an encoder both what it adds and that its report
is the number of bytes of this, whatever is there before. It is true of the small parts one by one,
and it is kept by all ways of putting encoders together, so it is true of everything that travels.

The bytes are the same ones that `Wire.encode` and the other ways of encoding give, so what is known
of these holds of what is written behind other bytes as well.

## Main definitions

* `Encoder.Reports` — an encoder adds some bytes and reports their number, or fails
* `ReportsWire` — a type whose encoder adds the wire form of a value

## Main results

* `Encoder.Reports.andThen`, `Encoder.Reports.list` — true reports make true reports
* `Travels.reports` — every encoder of a type that travels reports truly
* `write_eq` — what always has a wire form is always written
* `CoinbasePayload.exists_encode_iff` — which payloads can be written
* `report_eq_length` — reports are true, and that of a payload is its size
-/

namespace QuorumFinality

namespace Encoder

variable {α : Type} {w w' : Encoder} {x y : Except EncodeError Bytes} {a b : Bytes}

/-- The encoder adds the bytes and reports how many they are, or fails with the same error. -/
def Reports (w : Encoder) (x : Except EncodeError Bytes) : Prop :=
  ∀ before, w before = x.map fun code => (code.length, before ++ code)

/-! ### Parts -/

theorem reports_put {size : Nat} (h : a.length = size) : (put size a).Reports (.ok a) := by
  subst h
  exact fun before => rfl

theorem reports_nothing : nothing.Reports (.ok []) :=
  reports_put rfl

theorem reports_fail (error : EncodeError) : (fail error).Reports (.error error) :=
  fun _ => rfl

/-- The narrowest form of a count is as wide as is said. -/
theorem reports_count (n : UInt64) : (count n).Reports (.ok (CompactSize.encode n)) := by
  unfold count CompactSize.encode
  split_ifs
  all_goals exact reports_put (by simp)

/-! ### Putting encoders together -/

/-- The bytes of a value and of another one behind it. -/
def joined (x y : Except EncodeError Bytes) : Except EncodeError Bytes := do
  let a ← x
  let b ← y
  return a ++ b

theorem append_apply (w w' : Encoder) (before : Bytes) : (w ++ w') before = (do
    let first ← w before
    let second ← w' first.2
    return (first.1 + second.1, second.2)) :=
  rfl

/-- **One behind the other.** -/
theorem Reports.andThen (h : w.Reports x) (h' : w'.Reports y) : (w ++ w').Reports (joined x y) := by
  intro before
  rw [append_apply, h before]
  cases x with
  | error error => rfl
  | ok a =>
    have hsecond := h' (before ++ a)
    cases y with
    | error error => simp [joined, hsecond, Except.map, bind, Except.bind]
    | ok b => simp [joined, hsecond, Except.map, pure, Except.pure, bind, Except.bind]

/-- The same for values that can be written. -/
theorem Reports.append (h : w.Reports (.ok a)) (h' : w'.Reports (.ok b)) :
    (w ++ w').Reports (.ok (a ++ b)) :=
  h.andThen h'

/-- Something that is written under a condition. -/
theorem Reports.ite_nothing {c : Prop} [Decidable c] (h : w.Reports x) :
    (if c then w else nothing).Reports (if c then x else .ok []) := by
  split
  · exact h
  · exact reports_nothing

theorem Reports.ite_nothing_ok {c : Prop} [Decidable c] (h : w.Reports (.ok a)) :
    (if c then w else nothing).Reports (.ok (if c then a else [])) := by
  rw [apply_ite Except.ok]
  exact h.ite_nothing

/-- Something that must not be absent. -/
theorem reports_required {f : α → Encoder} {code : α → Bytes}
    (hf : ∀ value, (f value).Reports (.ok (code value))) (error : EncodeError)
    (value : Option α) :
    (required error f value).Reports (value.elim (.error error) fun value => .ok (code value)) := by
  cases value with
  | none => exact reports_fail error
  | some value => exact hf value

/-- Something that is made before it is written. -/
theorem reports_after {f : α → Encoder} {code : α → Bytes}
    (hf : ∀ value, (f value).Reports (.ok (code value))) (value : Except EncodeError α) :
    (after value f).Reports (value.map code) := by
  cases value with
  | error error => exact fun _ => rfl
  | ok value => exact hf value

theorem reports_sized (bytes : Bytes) : (sized bytes).Reports (.ok (Wire.encode bytes)) :=
  (reports_count _).append (reports_put rfl)

theorem Reports.serialize_eq (h : w.Reports x) : w.serialize = x := by
  rw [serialize, h []]
  cases x <;> rfl

/-- Values that are written from left to right behind what is there. -/
theorem Reports.foldl {f : α → Encoder} {encode : α → Except EncodeError Bytes}
    (hf : ∀ value, (f value).Reports (encode value)) (values : List α) (h : w.Reports x) :
    (values.foldl (fun written value => written ++ f value) w).Reports
      (joined x ((values.mapM encode).map List.flatten)) := by
  induction values generalizing w x with
  | nil => cases x <;> simpa [joined, Except.map, pure, Except.pure, bind, Except.bind] using h
  | cons value values ih =>
    -- The first part that fails decides, in whatever order the parts are joined.
    have hnext := ih (h.andThen (hf value))
    have hcode : joined (joined x (encode value)) ((values.mapM encode).map List.flatten) =
        joined x (((value :: values).mapM encode).map List.flatten) := by
      rw [List.mapM_cons]
      cases x with
      | error error => rfl
      | ok head =>
        cases encode value with
        | error error => rfl
        | ok code =>
          cases values.mapM encode with
          | error error => rfl
          | ok codes => exact congrArg Except.ok (List.append_assoc head code codes.flatten)
    rwa [hcode] at hnext

/-- **Lists.** -/
theorem Reports.list {f : α → Encoder} {encode : α → Except EncodeError Bytes}
    (hf : ∀ value, (f value).Reports (encode value)) (values : List α) :
    (list f values).Reports (encodeList encode values) := by
  have hcode : encodeList encode values =
      joined (.ok (CompactSize.encode (UInt64.ofNat values.length)))
        ((values.mapM encode).map List.flatten) := by
    unfold encodeList
    cases values.mapM encode <;> rfl
  rw [hcode]
  exact (reports_count _).foldl hf values

end Encoder

open Encoder

/-- A type whose encoder adds the wire form of a value. -/
class ReportsWire (α : Type) [Wire α] [Writable α] : Prop where
  /-- The encoder adds the wire form and reports its length. -/
  reports_write : ∀ a : α, (write a).Reports (always a)

export ReportsWire (reports_write)

/-! ### Numbers, fixed byte strings and lists -/

instance : ReportsWire UInt8 := ⟨fun _ => reports_put (length_littleEndian _ _)⟩

instance : ReportsWire UInt16 := ⟨fun _ => reports_put (length_littleEndian _ _)⟩

instance : ReportsWire UInt32 := ⟨fun _ => reports_put (length_littleEndian _ _)⟩

instance : ReportsWire UInt64 := ⟨fun _ => reports_put (length_littleEndian _ _)⟩

instance : ReportsWire Int16 := ⟨fun _ => reports_put (length_littleEndian _ _)⟩

instance : ReportsWire Int32 := ⟨fun _ => reports_put (length_littleEndian _ _)⟩

instance : ReportsWire Int64 := ⟨fun _ => reports_put (length_littleEndian _ _)⟩

instance : ReportsWire Bool := ⟨fun b => by cases b <;> exact reports_put rfl⟩

instance {n : Nat} : ReportsWire (FixedBytes n) := ⟨fun a => reports_put a.length_toList⟩

instance {role : HashRole} : ReportsWire (Hash role) := ⟨fun h => reports_write h.bytes⟩

/-- A list of values that can be written can be written. -/
theorem encodeList_always {α : Type} [Wire α] (values : List α) :
    encodeList always values =
      .ok (CompactSize.encode (UInt64.ofNat values.length) ++ values.flatMap Wire.encode) := by
  have hcodes : values.mapM always = .ok (values.map Wire.encode) :=
    mapM_eq_ok_iff.mpr (by rw [List.map_map]; rfl)
  rw [encodeList, hcodes, List.flatMap_def]
  rfl

instance {α : Type} [ListElement α] [Writable α] [ReportsWire α] : ReportsWire (List α) where
  reports_write values := by
    have hlist := Reports.list (fun value : α => reports_write value) values
    rwa [encodeList_always] at hlist

/-- A byte string is a list of bytes. -/
instance : ReportsWire Bytes where
  reports_write bytes := by
    have hlist := Reports.list (fun byte : UInt8 => reports_write byte) bytes
    have hbytes : bytes.flatMap Wire.encode = bytes := by
      rw [funext encode_byte, List.flatMap_singleton']
    rwa [encodeList_always, hbytes] at hlist

/-! ### Transactions -/

instance : ReportsWire OutPoint :=
  ⟨fun o => (reports_write o.txid).append (reports_write o.vout)⟩

instance : ReportsWire TxIn :=
  ⟨fun i => reports_write i.previousOutput
    |>.append (reports_write i.scriptSig)
    |>.append (reports_write i.sequence)⟩

instance : ReportsWire TxOut :=
  ⟨fun o => (reports_write o.value).append (reports_write o.scriptPubkey)⟩

namespace CoinbasePayload

/-- A field that is missing is found out before the next one is written. -/
theorem reports_writeChainLock (p : CoinbasePayload) :
    p.writeChainLock.Reports p.encodeChainLock := by
  obtain ⟨version, height, masternodeRoot, quorumRoot, bestHeight, signature, amount⟩ := p
  have hheight := reports_required (fun height : UInt32 => reports_count height.toUInt64)
    .bestChainLockHeight bestHeight
  have hsignature := reports_required (fun signature : SignatureBytes => reports_write signature)
    .bestChainLockSignature signature
  have hamount := reports_required (fun amount : UInt64 => reports_write amount)
    .assetLockedAmount amount
  have hall := (hheight.andThen hsignature).andThen hamount
  cases bestHeight <;> cases signature <;> cases amount <;> exact hall

theorem reports (p : CoinbasePayload) : (write p).Reports p.encode := by
  have hhead := reports_write p.version
    |>.append (reports_write p.height)
    |>.append (reports_write p.masternodeRoot)
  have hquorums := (reports_write p.quorumRoot).ite_nothing_ok (c := p.hasQuorums)
  have hchainLock := p.reports_writeChainLock.ite_nothing (c := p.hasChainLock)
  have hcode : p.encode = joined
      (.ok (Wire.encode p.version ++ Wire.encode p.height ++ Wire.encode p.masternodeRoot ++
        if p.hasQuorums then Wire.encode p.quorumRoot else []))
      (if p.hasChainLock then p.encodeChainLock else .ok []) := by
    unfold encode
    cases p.hasChainLock <;> rfl
  rw [hcode]
  exact (hhead.append hquorums).andThen hchainLock

end CoinbasePayload

theorem TransactionPayload.serialize_eq (payload : TransactionPayload) :
    payload.serialize = payload.encode := by
  cases payload with
  | coinbase payload => exact payload.reports.serialize_eq
  | raw type bytes => rfl

namespace Transaction

theorem reports_type (type : TransactionType) :
    (write (UInt16.ofNat type.number)).Reports (.ok (littleEndian 2 type.number)) := by
  have htype : (UInt16.ofNat type.number).toNat = type.number :=
    UInt16.toNat_ofNat_of_lt' type.number_lt
  have hwrite := reports_write (UInt16.ofNat type.number)
  rwa [always, show Wire.encode (UInt16.ofNat type.number) = littleEndian 2 _ from rfl, htype]
    at hwrite

theorem reports (tx : Transaction) : (write tx).Reports tx.encode := by
  have hhead : Reports (write tx.version ++ write (UInt16.ofNat tx.type.number) ++
      write tx.inputs ++ write tx.outputs ++ write tx.lockTime) (.ok tx.encodeHead) :=
    reports_write tx.version
      |>.append (reports_type tx.type)
      |>.append (reports_write tx.inputs)
      |>.append (reports_write tx.outputs)
      |>.append (reports_write tx.lockTime)
  obtain ⟨version, lockTime, inputs, outputs, payload⟩ := tx
  cases payload with
  | none =>
    have hall := hhead.append reports_nothing
    rwa [List.append_nil] at hall
  | some payload =>
    have hpayload : (after payload.serialize sized).Reports (payload.encode.map Wire.encode) := by
      rw [← payload.serialize_eq]
      exact reports_after reports_sized payload.serialize
    have hall := hhead.andThen hpayload
    cases hcode : payload.encode <;> simp only [encode, hcode] at hall ⊢ <;> exact hall

end Transaction

/-! ### Locks -/

instance : ReportsWire ChainLock :=
  ⟨fun l => reports_write l.height
    |>.append (reports_write l.blockHash)
    |>.append (reports_write l.signature)⟩

theorem InstantLock.reports (l : InstantLock) : (write l).Reports l.encode := by
  have hversion := (reports_write l.version).ite_nothing_ok (c := l.isDeterministic)
  have hcycle := (reports_required (fun cycleHash : CycleHash => reports_write cycleHash)
    .cycleHash l.cycleHash).ite_nothing (c := l.isDeterministic)
  have hcode : l.encode = joined
      (joined
        (.ok ((if l.isDeterministic then Wire.encode l.version else []) ++ Wire.encode l.inputs ++
          Wire.encode l.txid))
        (if l.isDeterministic then
          l.cycleHash.elim (.error .cycleHash) fun cycleHash => .ok (Wire.encode cycleHash)
        else .ok []))
      (always l.signature) := by
    unfold InstantLock.encode
    cases l.isDeterministic with
    | false => simp [joined, always, pure, Except.pure, bind, Except.bind]
    | true => cases l.cycleHash <;> rfl
  rw [hcode]
  exact hversion
    |>.append (reports_write l.inputs)
    |>.append (reports_write l.txid)
    |>.andThen hcycle
    |>.andThen (reports_write l.signature)

/-! ### Masternodes and quorums -/

instance : ReportsWire ServiceAddress :=
  ⟨fun s => (reports_write s.ip.octets).append (reports_put (by simp))⟩

instance : ReportsWire MasternodeEntry :=
  ⟨fun e => reports_write e.proTxHash
    |>.append (reports_write (e.confirmedHash.getD Hash.null))
    |>.append (reports_write e.service)
    |>.append (reports_write e.operatorKey)
    |>.append (reports_write e.votingKeyId)
    |>.append (reports_write e.isValid)⟩

instance : ReportsWire QuorumType :=
  ⟨fun t => by cases t <;> exact reports_put rfl⟩

instance : ReportsWire LegacyQuorumEntry :=
  ⟨fun e => reports_write e.version
    |>.append (reports_write e.type)
    |>.append (reports_write e.quorumHash)
    |>.append (reports_count e.signersCount)
    |>.append (reports_count e.validMembersCount)
    |>.append (reports_write e.publicKey)⟩

theorem FullQuorumEntry.reports_writeWithCounts (e : FullQuorumEntry)
    (signersCount validMembersCount : UInt64) :
    (e.writeWithCounts signersCount validMembersCount).Reports
      (.ok (e.encodeWithCounts signersCount validMembersCount)) := by
  have hindex := (reports_write (e.quorumIndex.getD 0)).ite_nothing_ok
    (c := isRotatedVersion e.version)
  exact reports_write e.version
    |>.append (reports_write e.type)
    |>.append (reports_write e.quorumHash)
    |>.append hindex
    |>.append (reports_count signersCount)
    |>.append (reports_put (a := e.signers) rfl)
    |>.append (reports_count validMembersCount)
    |>.append (reports_put (a := e.validMembers) rfl)
    |>.append (reports_write e.publicKey)
    |>.append (reports_write e.vvecHash)
    |>.append (reports_write e.thresholdSignature)
    |>.append (reports_write e.membersSignature)

instance : ReportsWire FullQuorumEntry :=
  ⟨fun e => e.reports_writeWithCounts e.signersCount e.validMembersCount⟩

instance : ReportsWire QuorumEntry where
  reports_write
    | .legacy e => reports_write e
    | .full e => reports_write e

/-! ### List differences -/

instance : ReportsWire ListDiffRequest :=
  ⟨fun r => (reports_write r.baseBlockHash).append (reports_write r.blockHash)⟩

instance : ReportsWire DeletedQuorum :=
  ⟨fun d => (reports_write d.type).append (reports_write d.quorumHash)⟩

theorem ListDiff.reports (d : ListDiff) : (write d).Reports d.encode := by
  have hhead : Reports (write d.baseBlockHash ++ write d.blockHash ++ write d.totalTransactions ++
      write d.merkleHashes ++ write d.merkleFlags) (.ok d.encodeHead) :=
    reports_write d.baseBlockHash
      |>.append (reports_write d.blockHash)
      |>.append (reports_write d.totalTransactions)
      |>.append (reports_write d.merkleHashes)
      |>.append (reports_write d.merkleFlags)
  have hcode : d.encode =
      joined (joined (joined (joined (joined (.ok d.encodeHead) d.coinbaseTx.encode)
        (always d.deletedMasternodes)) (always d.newMasternodes)) (always d.deletedQuorums))
          (always d.newQuorums) := by
    unfold ListDiff.encode
    cases d.coinbaseTx.encode with
    | error error => rfl
    | ok coinbase =>
      simp [joined, always, encodeChanges, pure, Except.pure, bind, Except.bind]
  rw [hcode]
  exact hhead
    |>.andThen d.coinbaseTx.reports
    |>.andThen (reports_write d.deletedMasternodes)
    |>.andThen (reports_write d.newMasternodes)
    |>.andThen (reports_write d.deletedQuorums)
    |>.andThen (reports_write d.newQuorums)

/-! ### Everything that travels -/

/-- A value of a type with a wire form can always be written, and the report is its size. -/
theorem write_eq {α : Type} [Wire α] [SizedWire α] [Writable α] [ReportsWire α] (a : α)
    (before : Bytes) : write a before = .ok (Wire.size a, before ++ Wire.encode a) := by
  rw [reports_write a before, size_eq]
  rfl

/-- **Every report is true.** -/
theorem Travels.reports {α : Type} {w : α → Encoder} {encode : α → Except EncodeError Bytes}
    (h : Travels α w encode) (a : α) : (w a).Reports (encode a) := by
  induction h with
  | count => exact reports_count a
  | list _ ih => exact .list ih a
  | coinbasePayload => exact CoinbasePayload.reports a
  | transaction => exact Transaction.reports a
  | instantLock => exact InstantLock.reports a
  | listDiff => exact ListDiff.reports a
  | _ => exact reports_write a

/-- What an encoder does if it does not fail. -/
theorem Encoder.Reports.eq_ok_iff {w : Encoder} {x : Except EncodeError Bytes}
    (h : w.Reports x) {before after : Bytes} {size : Nat} :
    w before = .ok (size, after) ↔ ∃ code, x = .ok code ∧ size = code.length ∧
      after = before ++ code := by
  rw [h before, map_eq_ok_iff]
  simp only [Prod.mk.injEq, eq_comm (a := size), eq_comm (a := after)]

/-- A payload can be written exactly if it has the fields of its version. -/
theorem CoinbasePayload.exists_encode_iff (p : CoinbasePayload) :
    (∃ code, p.encode = .ok code) ↔ p.version.toNat < 3 ∨
      (p.bestChainLockHeight.isSome ∧ p.bestChainLockSignature.isSome ∧
        p.assetLockedAmount.isSome) := by
  simp only [encode_eq_ok_iff]
  by_cases hversion : 3 ≤ p.version.toNat
  · rw [hasChainLock, decide_eq_true hversion, if_pos rfl]
    simp [encodeChainLock_eq_ok_iff, Option.isSome_iff_exists, Nat.not_lt.mpr hversion]
  · rw [hasChainLock, decide_eq_false hversion, if_neg Bool.false_ne_true]
    simp [Nat.not_le.mp hversion]

/-- **Reports are true.** If a value of any type that travels can be written, the report is the
number of the bytes that have been added, which are those of the value. The payload of a coinbase
can be written exactly if it has the fields of its version, and the report is its size then. -/
theorem report_eq_length :
    (∀ {α : Type} {w : α → Encoder} {encode : α → Except EncodeError Bytes},
      Travels α w encode → ∀ (a : α) (before after : Bytes) (size : Nat),
        w a before = .ok (size, after) →
          ∃ code, encode a = .ok code ∧ after = before ++ code ∧ size = code.length) ∧
    ∀ (p : CoinbasePayload) (before : Bytes),
      ((∃ result, write p before = .ok result) ↔ p.version.toNat < 3 ∨
        (p.bestChainLockHeight.isSome ∧ p.bestChainLockSignature.isSome ∧
          p.assetLockedAmount.isSome)) ∧
      ∀ size after, write p before = .ok (size, after) → size = p.size := by
  refine ⟨fun h a before after size hwrite => ?_, fun p before => ⟨?_, fun size after hwrite => ?_⟩⟩
  · obtain ⟨code, hcode, hsize, hafter⟩ := (h.reports a).eq_ok_iff.mp hwrite
    exact ⟨code, hcode, hafter, hsize⟩
  · rw [← p.exists_encode_iff, p.reports before]
    cases p.encode <;> simp [Except.map]
  · obtain ⟨code, hcode, rfl, -⟩ := p.reports.eq_ok_iff.mp hwrite
    exact CoinbasePayload.length_of_encode hcode

/-- A payload of version three with a count that takes three bytes, behind another byte. -/
theorem report_eq_length_sample :
    let p : CoinbasePayload := {
      version := 3, height := 1, masternodeRoot := Hash.null, quorumRoot := Hash.null
      bestChainLockHeight := some 300, bestChainLockSignature := some (FixedBytes.zero 96)
      assetLockedAmount := some 0 }
    ∃ code, write p [7] = .ok (177, 7 :: code) ∧ code.length = 177 := by
  intro p
  obtain ⟨htravels, hpayload⟩ := report_eq_length
  obtain ⟨hexists, hsize⟩ := hpayload p [7]
  obtain ⟨⟨size, after⟩, hwrite⟩ := hexists.mpr (.inr ⟨rfl, rfl, rfl⟩)
  obtain ⟨code, -, rfl, hlength⟩ := htravels .coinbasePayload p [7] after size hwrite
  have h177 : size = 177 := hsize size _ hwrite
  subst h177
  exact ⟨code, hwrite, hlength.symm⟩

end QuorumFinality
