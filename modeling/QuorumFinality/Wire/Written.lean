import QuorumFinality.ListDiff
import QuorumFinality.Lock.ChainLock
import QuorumFinality.Lock.InstantLock
import QuorumFinality.Wire.Encoder

/-!
# Everything that is written

Each type that travels is written by an encoder of its own, part by part in the order of its wire
form. A value that cannot be written is found out on the way, when the part that is missing is due.

## Main definitions

* `Writable` instances for all types that travel.
* `Travels`: the types that travel, each with its encoder and with the bytes of its values.
-/

namespace QuorumFinality

/-! ### Transactions -/

instance : Writable OutPoint := ⟨fun o => write o.txid ++ write o.vout⟩

instance : Writable TxIn :=
  ⟨fun i => write i.previousOutput ++ write i.scriptSig ++ write i.sequence⟩

instance : Writable TxOut := ⟨fun o => write o.value ++ write o.scriptPubkey⟩

namespace CoinbasePayload

/-- Writes the fields that came with version three. -/
def writeChainLock (p : CoinbasePayload) : Encoder :=
  .required .bestChainLockHeight (fun height => .count height.toUInt64) p.bestChainLockHeight ++
    .required .bestChainLockSignature write p.bestChainLockSignature ++
    .required .assetLockedAmount write p.assetLockedAmount

instance : Writable CoinbasePayload where
  write p := write p.version ++ write p.height ++ write p.masternodeRoot ++
    (if p.hasQuorums then write p.quorumRoot else .nothing) ++
    if p.hasChainLock then p.writeChainLock else .nothing

end CoinbasePayload

/-- The bytes of a payload by themselves. -/
def TransactionPayload.serialize : TransactionPayload → Except EncodeError Bytes
  | coinbase payload => (write payload).serialize
  | raw _ bytes => .ok bytes

/-- A payload is written by itself first, and then behind its length. -/
instance : Writable Transaction where
  write tx := write tx.version ++ write (UInt16.ofNat tx.type.number) ++ write tx.inputs ++
    write tx.outputs ++ write tx.lockTime ++
    match tx.payload with
    | none => .nothing
    | some payload => .after payload.serialize .sized

/-! ### Locks -/

instance : Writable ChainLock :=
  ⟨fun l => write l.height ++ write l.blockHash ++ write l.signature⟩

instance : Writable InstantLock where
  write l := (if l.isDeterministic then write l.version else .nothing) ++ write l.inputs ++
    write l.txid ++
    (if l.isDeterministic then .required .cycleHash write l.cycleHash else .nothing) ++
    write l.signature

/-! ### Masternodes and quorums -/

instance : Writable ServiceAddress :=
  ⟨fun s => write s.ip.octets ++ .put 2 (littleEndian 2 s.port.toNat).reverse⟩

instance : Writable MasternodeEntry :=
  ⟨fun e => write e.proTxHash ++ write (e.confirmedHash.getD Hash.null) ++ write e.service ++
    write e.operatorKey ++ write e.votingKeyId ++ write e.isValid⟩

instance : Writable QuorumType := ⟨fun t => write (UInt8.ofNat t.number)⟩

instance : Writable LegacyQuorumEntry :=
  ⟨fun e => write e.version ++ write e.type ++ write e.quorumHash ++ .count e.signersCount ++
    .count e.validMembersCount ++ write e.publicKey⟩

/-- Writes an entry under other member counts. -/
def FullQuorumEntry.writeWithCounts (e : FullQuorumEntry)
    (signersCount validMembersCount : UInt64) : Encoder :=
  write e.version ++ write e.type ++ write e.quorumHash ++
    (if isRotatedVersion e.version then write (e.quorumIndex.getD 0) else .nothing) ++
    .count signersCount ++ .put e.signers.length e.signers ++
    .count validMembersCount ++ .put e.validMembers.length e.validMembers ++
    write e.publicKey ++ write e.vvecHash ++
    write e.thresholdSignature ++ write e.membersSignature

instance : Writable FullQuorumEntry :=
  ⟨fun e => e.writeWithCounts e.signersCount e.validMembersCount⟩

instance : Writable QuorumEntry where
  write
    | .legacy e => write e
    | .full e => write e

/-! ### List differences -/

instance : Writable ListDiffRequest := ⟨fun r => write r.baseBlockHash ++ write r.blockHash⟩

instance : Writable DeletedQuorum := ⟨fun d => write d.type ++ write d.quorumHash⟩

instance : Writable ListDiff :=
  ⟨fun d => write d.baseBlockHash ++ write d.blockHash ++ write d.totalTransactions ++
    write d.merkleHashes ++ write d.merkleFlags ++ write d.coinbaseTx ++
    write d.deletedMasternodes ++ write d.newMasternodes ++ write d.deletedQuorums ++
    write d.newQuorums⟩

/-! ### All of them -/

/-- The bytes of a value that can always be written. -/
def always {α : Type} [Wire α] (a : α) : Except EncodeError Bytes :=
  .ok (Wire.encode a)

/-- The bytes of a list are its length and the bytes of its elements. -/
def encodeList {α : Type} (encode : α → Except EncodeError Bytes) (values : List α) :
    Except EncodeError Bytes := do
  let codes ← values.mapM encode
  return CompactSize.encode (UInt64.ofNat values.length) ++ codes.flatten

/-- `Travels α w encode` says that values of the type travel, that `w` writes them and that `encode`
says what their bytes are. Keys, signatures and plain digests are byte strings of fixed length; a
byte string of any length is a list of bytes. -/
inductive Travels : (α : Type) → (α → Encoder) → (α → Except EncodeError Bytes) → Prop
  | count : Travels UInt64 .count fun n => .ok (CompactSize.encode n)
  | uint8 : Travels UInt8 write always
  | uint16 : Travels UInt16 write always
  | uint32 : Travels UInt32 write always
  | uint64 : Travels UInt64 write always
  | int16 : Travels Int16 write always
  | int32 : Travels Int32 write always
  | int64 : Travels Int64 write always
  | bool : Travels Bool write always
  | fixedBytes (n : Nat) : Travels (FixedBytes n) write always
  | hash (role : HashRole) : Travels (Hash role) write always
  | list {α : Type} {w : α → Encoder} {encode : α → Except EncodeError Bytes}
      (h : Travels α w encode) : Travels (List α) (.list w) (encodeList encode)
  | outPoint : Travels OutPoint write always
  | txIn : Travels TxIn write always
  | txOut : Travels TxOut write always
  | coinbasePayload : Travels CoinbasePayload write CoinbasePayload.encode
  | transaction : Travels Transaction write Transaction.encode
  | chainLock : Travels ChainLock write always
  | instantLock : Travels InstantLock write InstantLock.encode
  | serviceAddress : Travels ServiceAddress write always
  | masternode : Travels MasternodeEntry write always
  | quorumType : Travels QuorumType write always
  | legacyQuorum : Travels LegacyQuorumEntry write always
  | fullQuorum : Travels FullQuorumEntry write always
  | quorum : Travels QuorumEntry write always
  | listDiffRequest : Travels ListDiffRequest write always
  | deletedQuorum : Travels DeletedQuorum write always
  | listDiff : Travels ListDiff write ListDiff.encode

end QuorumFinality
