import QuorumFinality.Transaction.Type
import QuorumFinality.Transaction.Coinbase

/-!
# Transactions

A transaction spends outputs of earlier transactions and creates new ones. From version three on
it may carry a payload, whose type is the type of the transaction.

## Main definitions

* `OutPoint`, `TxIn`, `TxOut`: the output that is spent, and the two sides of a transaction.
* `TransactionPayload`, `Transaction`: the payload and the whole.
* `Transaction.encode`, `Transaction.decode`: the wire form; writing fails as the payload does.
* `Transaction.txid`: the double digest of the wire form.
-/

namespace QuorumFinality

/-- An output of a transaction. -/
structure OutPoint where
  /-- The transaction. -/
  txid : TxId
  /-- The position among its outputs. -/
  vout : UInt32
  deriving DecidableEq, Ord

namespace OutPoint

/-- The output that no transaction has, which a coinbase spends. -/
def null : OutPoint :=
  ⟨Hash.null, 0xFFFFFFFF⟩

/-- Whether this is the output that no transaction has. -/
def isNull (o : OutPoint) : Bool :=
  o = null

/-- The transaction and the position with a colon between. -/
def text (o : OutPoint) : String :=
  o.txid.text ++ ":" ++ toString o.vout.toNat

instance : ListElement OutPoint where
  encode o := Wire.encode o.txid ++ Wire.encode o.vout
  decode := do
    let txid ← Wire.decode
    let vout ← Wire.decode
    return { txid, vout }
  size o := Wire.size o.txid + Wire.size o.vout
  weight := 36

end OutPoint

/-- What a transaction spends. -/
structure TxIn where
  /-- The output that is spent. -/
  previousOutput : OutPoint
  /-- The script that allows it. -/
  scriptSig : Bytes
  /-- The sequence number. -/
  sequence : UInt32
  deriving DecidableEq, Ord

instance : ListElement TxIn where
  encode i := Wire.encode i.previousOutput ++ Wire.encode i.scriptSig ++ Wire.encode i.sequence
  decode := do
    let previousOutput ← Wire.decode
    let scriptSig ← Wire.decode
    let sequence ← Wire.decode
    return { previousOutput, scriptSig, sequence }
  size i := Wire.size i.previousOutput + Wire.size i.scriptSig + Wire.size i.sequence
  weight := 64

/-- What a transaction creates. -/
structure TxOut where
  /-- The amount. -/
  value : UInt64
  /-- The script that has to be satisfied to spend it. -/
  scriptPubkey : Bytes
  deriving DecidableEq, Ord

instance : ListElement TxOut where
  encode o := Wire.encode o.value ++ Wire.encode o.scriptPubkey
  decode := do
    let value ← Wire.decode
    let scriptPubkey ← Wire.decode
    return { value, scriptPubkey }
  size o := Wire.size o.value + Wire.size o.scriptPubkey
  weight := 32

/-! ### Payloads -/

/-- What a special transaction carries: the commitments of a coinbase, or uninterpreted bytes. -/
inductive TransactionPayload where
  /-- The commitments of a coinbase. -/
  | coinbase (payload : CoinbasePayload)
  /-- The bytes of a payload of the given type. -/
  | raw (type : TransactionType) (bytes : Bytes)
  deriving DecidableEq, Ord

namespace TransactionPayload

/-- The type of the transactions that carry the payload. -/
def type : TransactionPayload → TransactionType
  | coinbase _ => .coinbase
  | raw type _ => type

/-- The bytes of a payload. -/
def encode : TransactionPayload → Except EncodeError Bytes
  | coinbase payload => payload.encode
  | raw _ bytes => .ok bytes

/-- The length of the wire form. -/
def size : TransactionPayload → Nat
  | coinbase payload => payload.size
  | raw _ bytes => bytes.length

/-- The payload of a transaction of the given type. A coinbase payload has to span the bytes. -/
def ofBytes (type : TransactionType) (bytes : Bytes) : Except DecodeError TransactionPayload :=
  match type with
  | .coinbase => return coinbase (← CoinbasePayload.decode.all bytes)
  | type => .ok (raw type bytes)

end TransactionPayload

/-! ### Transactions -/

/-- A transaction. -/
structure Transaction where
  /-- The version. -/
  version : UInt16
  /-- The height or time before which the transaction is not valid. -/
  lockTime : UInt32
  /-- What is spent. -/
  inputs : List TxIn
  /-- What is created. -/
  outputs : List TxOut
  /-- The payload of a special transaction. -/
  payload : Option TransactionPayload
  deriving DecidableEq, Ord

namespace Transaction

/-- The type of the transaction, which is that of its payload. -/
def type (tx : Transaction) : TransactionType :=
  match tx.payload with
  | some payload => payload.type
  | none => .classic

/-- The commitments of a coinbase. -/
def coinbasePayload? (tx : Transaction) : Option CoinbasePayload :=
  match tx.payload with
  | some (.coinbase payload) => some payload
  | _ => none

/-- Whether the transaction spends nothing but the output that no transaction has. -/
def isCoinbase (tx : Transaction) : Bool :=
  match tx.inputs with
  | [input] => input.previousOutput.isNull
  | _ => false

/-- The bytes before the payload. -/
def encodeHead (tx : Transaction) : Bytes :=
  Wire.encode tx.version ++ littleEndian 2 tx.type.number ++ Wire.encode tx.inputs ++
    Wire.encode tx.outputs ++ Wire.encode tx.lockTime

/-- The bytes of a transaction. -/
def encode (tx : Transaction) : Except EncodeError Bytes :=
  match tx.payload with
  | none => .ok tx.encodeHead
  | some payload => return tx.encodeHead ++ Wire.encode (← payload.encode)

/-- The length of the wire form. -/
def size (tx : Transaction) : Nat :=
  Wire.size tx.version + 2 + Wire.size tx.inputs + Wire.size tx.outputs + Wire.size tx.lockTime +
    match tx.payload with
    | none => 0
    | some payload => CompactSize.size (UInt64.ofNat payload.size) + payload.size

/-- Reads a transaction. The type stands before the inputs and the payload behind the lock time;
only a transaction of version three or later may be special. -/
def decode : Decoder Transaction := do
  let version : UInt16 ← Wire.decode
  let number ← Decoder.nat 2
  let type ← Decoder.ofExcept (TransactionType.ofNumber? number)
  Decoder.require (3 ≤ version.toNat ∨ type = .classic) (.malformed .specialVersion)
  let inputs ← Wire.decode
  let outputs ← Wire.decode
  let lockTime ← Wire.decode
  let payload ←
    if type = .classic then pure none
    else do
      let bytes : Bytes ← Wire.decode
      some <$> Decoder.ofExcept (TransactionPayload.ofBytes type bytes)
  return { version, lockTime, inputs, outputs, payload }

/-- The identifier of a transaction: the double digest of its bytes. -/
def txid (tx : Transaction) : Except EncodeError TxId :=
  Hash.ofPreimage <$> tx.encode

end Transaction

end QuorumFinality
