import QuorumFinality.Address.Text
import QuorumFinality.Json.Value
import QuorumFinality.ListDiff

/-!
# Reports on transactions, masternodes and differences

A report shows a value to people and to other programs. Unlike the JSON form of a value it also
shows what follows from the value, such as the identifier of a transaction, and nothing is read
back from it. Numbers of sixty-four bits are shown as text, which no reader rounds.

## Main definitions

* `Transaction.report`, `MasternodeEntry.report`, `QuorumEntry.report`, `ListDiff.report`.
-/

namespace QuorumFinality

open JsonValue

namespace Report

/-- A number. -/
def number (n : Nat) : JsonValue :=
  .int n

/-- A number of sixty-four bits. -/
def wide (n : UInt64) : JsonValue :=
  ofString (toString n.toNat)

/-- Bytes as hexadecimal text. -/
def hex (bytes : Bytes) : JsonValue :=
  ofString bytes.toHex

/-- Bytes of a fixed length as hexadecimal text. -/
def fixed {n : Nat} (a : FixedBytes n) : JsonValue :=
  hex a.toList

/-- The text of a hash. -/
def hashText {role : HashRole} (h : Hash role) : JsonValue :=
  ofString h.text

/-- A value that may be absent. -/
def optional {α : Type} (view : α → JsonValue) : Option α → JsonValue
  | some a => view a
  | none => .null

/-- The number of a quorum type. -/
def typeNumber (t : QuorumType) : JsonValue :=
  number t.number

/-- One digit per flag. -/
def bits (flags : List Bool) : JsonValue :=
  ofString (String.ofList (flags.map fun b => if b then '1' else '0'))

end Report

open Report

/-! ### Transactions -/

/-- What is shown of an input. -/
def TxIn.report (i : TxIn) : JsonValue := ofMembers [
  ("previous_output", ofString i.previousOutput.text), ("script_sig", hex i.scriptSig),
  ("sequence", number i.sequence.toNat)]

/-- What is shown of an output. -/
def TxOut.report (o : TxOut) : JsonValue := ofMembers [
  ("value", wide o.value), ("script_pubkey", hex o.scriptPubkey)]

/-- What is shown of the commitments of a coinbase. -/
def CoinbasePayload.report (p : CoinbasePayload) : JsonValue := ofMembers [
  ("version", number p.version.toNat), ("height", number p.height.toNat),
  ("merkle_root_masternode_list", hashText p.masternodeRoot),
  ("merkle_root_quorums", hashText p.quorumRoot),
  ("best_cl_height", optional (fun h => number h.toNat) p.bestChainLockHeight),
  ("best_cl_signature", optional fixed p.bestChainLockSignature),
  ("asset_locked_amount", optional wide p.assetLockedAmount),
  ("size", number p.size), ("has_quorums", .bool p.hasQuorums)]

/-- What is shown of a transaction. Its identifier is part of it, so a transaction without a wire
form has no report. -/
def Transaction.report (tx : Transaction) : Except EncodeError JsonValue := do
  let payload := match tx.payload with
    | none => .null
    | some (.coinbase p) => p.report
    | some (.raw _ bytes) => hex bytes
  return ofMembers [
    ("version", number tx.version.toNat), ("lock_time", number tx.lockTime.toNat),
    ("type", ofString tx.type.label), ("input", .array (tx.inputs.map TxIn.report)),
    ("output", .array (tx.outputs.map TxOut.report)), ("payload", payload),
    ("txid", hashText (← tx.txid)), ("coin_base", .bool tx.isCoinbase)]

/-! ### Masternodes and quorums -/

/-- What is shown of a service address. -/
def ServiceAddress.report (s : ServiceAddress) : JsonValue := ofMembers [
  ("socket", ofString s.text), ("ip", ofString s.ip.text), ("port", number s.port.toNat),
  ("family", match s.ip with
    | .v4 _ => number 4
    | .v6 _ => number 6)]

/-- What is shown of a masternode. -/
def Masternode.report (m : Masternode) : JsonValue := ofMembers [
  ("pro_reg_tx_hash", hashText m.entry.proTxHash),
  ("confirmed_hash", optional hashText m.entry.confirmedHash),
  ("service", m.entry.service.report), ("operator_public_key", fixed m.entry.operatorKey),
  ("key_id_voting", fixed m.entry.votingKeyId), ("is_valid", .bool m.entry.isValid),
  ("entry_hash", hashText m.entryHash),
  ("confirmed_hash_hashed", optional hashText m.confirmedMasternodeHash)]

/-- What is shown of a masternode entry. -/
def MasternodeEntry.report (e : MasternodeEntry) : JsonValue :=
  (Masternode.ofEntry e).report

/-- What is shown of a quorum entry in either form. -/
def QuorumEntry.reportHead (e : QuorumEntry) (index : Option Int16)
    (signersCount validMembersCount : UInt64) : List (String × JsonValue) := [
  ("version", number e.version.toNat), ("llmq_type", typeNumber e.type),
  ("quorum_hash", hashText e.quorumHash), ("quorum_index", optional (fun i => .int i.toInt) index),
  ("quorum_public_key", fixed e.publicKey), ("signers_count", wide signersCount),
  ("valid_members_count", wide validMembersCount)]

/-- What is shown of a quorum entry. -/
def QuorumEntry.report : QuorumEntry → JsonValue
  | .legacy e =>
    ofMembers ((QuorumEntry.legacy e).reportHead none e.signersCount e.validMembersCount)
  | .full e =>
    ofMembers
      ((QuorumEntry.full e).reportHead e.quorumIndex e.signersCount e.validMembersCount ++ [
      ("signers", hex e.signers), ("valid_members", hex e.validMembers),
      ("quorum_vvec_hash", hashText e.vvecHash), ("threshold_sig", fixed e.thresholdSignature),
      ("all_commitment_aggregated_signature", fixed e.membersSignature)])

/-! ### Differences -/

/-- What is shown of a quorum that is no longer active. -/
def DeletedQuorum.report (d : DeletedQuorum) : JsonValue :=
  .array [typeNumber d.type, hashText d.quorumHash]

/-- What is shown of a difference. -/
def ListDiff.report (d : ListDiff) : Except EncodeError JsonValue := do
  return ofMembers [
    ("base_block_hash", hashText d.baseBlockHash), ("block_hash", hashText d.blockHash),
    ("total_transactions", number d.totalTransactions.toNat),
    ("merkle_hashes", .array (d.merkleHashes.map fixed)), ("merkle_flags", hex d.merkleFlags),
    ("coinbase_tx", ← d.coinbaseTx.report),
    ("deleted_masternodes", .array (d.deletedMasternodes.map hashText)),
    ("new_masternodes", .array (d.newMasternodes.map MasternodeEntry.report)),
    ("deleted_quorums", .array (d.deletedQuorums.map DeletedQuorum.report)),
    ("new_quorums", .array (d.newQuorums.map QuorumEntry.report)),
    ("height", optional (fun h => number h.toNat) d.height?),
    ("mn_root", optional (fun p => hashText p.masternodeRoot) d.coinbasePayload?),
    ("quorum_root", optional (fun p => hashText p.quorumRoot) d.coinbasePayload?),
    ("payload", .bool d.coinbasePayload?.isSome)]

end QuorumFinality
