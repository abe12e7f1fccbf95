import QuorumFinality.Json.Chain
import QuorumFinality.Lock.ChainLock
import QuorumFinality.Lock.InstantLock
import QuorumFinality.MasternodeList.Basic
import QuorumFinality.Store.Config

/-!
# The JSON form of quorums, lists and locks

A map is an object whose keys are the texts of its own keys, in their order. Reading one accepts
any order, and of several members of a key the last one counts.
-/

namespace QuorumFinality

open JsonCodec JsonValue

/-! ### Quorums -/

instance : JsonCodec LegacyQuorumEntry where
  toJson e := ofMembers [
    ("version", toJson e.version), ("llmq_type", toJson e.type),
    ("quorum_hash", toJson e.quorumHash), ("signers_count", toJson e.signersCount),
    ("valid_members_count", toJson e.validMembersCount),
    ("quorum_public_key", toJson e.publicKey)]
  ofJson? v := do
    match ← v.fields? ["version", "llmq_type", "quorum_hash", "signers_count",
      "valid_members_count", "quorum_public_key"] with
    | [version, type, quorumHash, signersCount, validMembersCount, publicKey] =>
      return ⟨← field? version, ← field? type, ← field? quorumHash, ← field? signersCount,
        ← field? validMembersCount, ← field? publicKey⟩
    | _ => none

instance : JsonCodec FullQuorumEntry where
  toJson e := ofMembers [
    ("version", toJson e.version), ("llmq_type", toJson e.type),
    ("quorum_hash", toJson e.quorumHash), ("quorum_index", toJson e.quorumIndex),
    ("signers_count", toJson e.signersCount), ("signers", toJson e.signers),
    ("valid_members_count", toJson e.validMembersCount),
    ("valid_members", toJson e.validMembers), ("quorum_public_key", toJson e.publicKey),
    ("quorum_vvec_hash", toJson e.vvecHash), ("threshold_sig", toJson e.thresholdSignature),
    ("all_commitment_aggregated_signature", toJson e.membersSignature)]
  ofJson? v := do
    match ← v.fields? ["version", "llmq_type", "quorum_hash", "quorum_index", "signers_count",
      "signers", "valid_members_count", "valid_members", "quorum_public_key", "quorum_vvec_hash",
      "threshold_sig", "all_commitment_aggregated_signature"] with
    | [version, type, quorumHash, quorumIndex, signersCount, signers, validMembersCount,
        validMembers, publicKey, vvecHash, thresholdSignature, membersSignature] =>
      return ⟨← field? version, ← field? type, ← field? quorumHash, ← field? quorumIndex,
        ← field? signersCount, ← field? signers, ← field? validMembersCount,
        ← field? validMembers, ← field? publicKey, ← field? vvecHash,
        ← field? thresholdSignature, ← field? membersSignature⟩
    | _ => none

instance : JsonCodec QuorumEntry where
  toJson
    | .legacy e => ofVariant "Legacy" (toJson e)
    | .full e => ofVariant "Full" (toJson e)
  ofJson? v := do
    match ← v.variant? with
    | ("Legacy", some content) => return .legacy (← ofJson? content)
    | ("Full", some content) => return .full (← ofJson? content)
    | _ => none

instance : JsonCodec QuorumFault where
  toJson
    | .wrongList blockHash quorumHash =>
      ofVariant "WrongMasternodeList"
        (ofMembers [("block_hash", toJson blockHash), ("quorum_hash", toJson quorumHash)])
    | .outdatedEncoding => ofString "OutdatedEncoding"
    | .noSigners => ofString "NoSigners"
    | .publicKey text => ofVariant "InvalidBLSPublicKey" (toJson text)
    | .signature text => ofVariant "InvalidBLSSignature" (toJson text)
    | .membersSignature reason =>
      ofVariant "AllCommitmentAggregatedSignatureNotValid" (toJson reason)
    | .thresholdSignature reason => ofVariant "ThresholdSignatureNotValid" (toJson reason)
  ofJson? v := do
    match ← v.variant? with
    | ("WrongMasternodeList", some content) =>
      match ← content.fields? ["block_hash", "quorum_hash"] with
      | [blockHash, quorumHash] => return .wrongList (← field? blockHash) (← field? quorumHash)
      | _ => none
    | ("InvalidBLSPublicKey", some content) => return .publicKey (← ofJson? content)
    | ("InvalidBLSSignature", some content) => return .signature (← ofJson? content)
    | ("AllCommitmentAggregatedSignatureNotValid", some content) =>
      return .membersSignature (← ofJson? content)
    | ("ThresholdSignatureNotValid", some content) => return .thresholdSignature (← ofJson? content)
    | _ =>
      v.unit? [("OutdatedEncoding", .outdatedEncoding), ("NoSigners", .noSigners)]

instance : JsonCodec SkipReason where
  toJson
    | .notMarked => ofString "NotMarkedForVerification"
    | .missedList quorumHash => ofVariant "MissedList" (toJson quorumHash)
    | .other context => ofVariant "OtherContext" (toJson context)
  ofJson? v := do
    match ← v.variant? with
    | ("MissedList", some content) => return .missedList (← ofJson? content)
    | ("OtherContext", some content) => return .other (← ofJson? content)
    | _ => v.unit? [("NotMarkedForVerification", .notMarked)]

instance : JsonCodec VerificationStatus where
  toJson
    | .unknown => ofString "Unknown"
    | .verified => ofString "Verified"
    | .skipped reason => ofVariant "Skipped" (toJson reason)
    | .invalid fault => ofVariant "Invalid" (toJson fault)
  ofJson? v := do
    match ← v.variant? with
    | ("Skipped", some content) => return .skipped (← ofJson? content)
    | ("Invalid", some content) => return .invalid (← ofJson? content)
    | _ => v.unit? [("Unknown", .unknown), ("Verified", .verified)]

instance : JsonCodec Quorum where
  toJson q := ofMembers [
    ("quorum_entry", toJson q.entry), ("verified", toJson q.status),
    ("commitment_hash", toJson q.commitmentHash), ("entry_hash", toJson q.entryHash)]
  ofJson? v := do
    match ← v.fields? ["quorum_entry", "verified", "commitment_hash", "entry_hash"] with
    | [entry, status, commitmentHash, entryHash] =>
      return ⟨← field? entry, ← field? status, ← field? commitmentHash, ← field? entryHash⟩
    | _ => none

/-! ### Maps and lists -/

/-- The JSON value of a map whose keys have texts. -/
def OrderedMap.toJsonWith {κ α : Type} [Ord κ] [JsonCodec α] (keyText : κ → String)
    (m : OrderedMap κ α) : JsonValue :=
  ofMembers (m.entries.map fun e => (keyText e.1, toJson e.2))

/-- The map that a JSON object stands for. -/
def OrderedMap.ofJsonWith? {κ α : Type} [Ord κ] [Std.TransOrd κ] [Std.LawfulEqOrd κ]
    [JsonCodec α] (keyOf? : String → Option κ) : JsonValue → Option (OrderedMap κ α)
  | object members => do
    let entries ← members.mapM fun m => do
      return (← keyOf? (← m.1), ← ofJson? m.2)
    return OrderedMap.ofList entries
  | _ => none

instance : JsonCodec MasternodeMap where
  toJson := OrderedMap.toJsonWith Hash.text
  ofJson? := OrderedMap.ofJsonWith? fun text => (Hash.ofText? text).toOption

instance : JsonCodec QuorumMap where
  toJson := OrderedMap.toJsonWith QuorumType.jsonName
  ofJson? := OrderedMap.ofJsonWith? fun name => QuorumType.jsonNames.lookup name

instance : JsonCodec CoinbaseProof where
  toJson p := ofMembers [
    ("total_transactions", toJson p.totalTransactions), ("merkle_hashes", toJson p.merkleHashes),
    ("merkle_flags", toJson p.merkleFlags)]
  ofJson? v := do
    match ← v.fields? ["total_transactions", "merkle_hashes", "merkle_flags"] with
    | [total, hashes, flags] => return ⟨← field? total, ← field? hashes, ← field? flags⟩
    | _ => none

instance : JsonCodec MasternodeList where
  toJson l := ofMembers [
    ("network", toJson l.network), ("base_block_hash", toJson l.baseBlockHash),
    ("block_hash", toJson l.blockHash), ("known_height", toJson l.height),
    ("masternodes", toJson l.masternodes), ("quorums", toJson l.quorums),
    ("masternode_merkle_root", toJson l.masternodeRoot),
    ("llmq_merkle_root", toJson l.quorumRoot),
    ("last_diff_masternode_merkle_root", toJson l.declaredMasternodeRoot),
    ("last_diff_llmq_merkle_root", toJson l.declaredQuorumRoot),
    ("quorums_active", toJson l.quorumsActive), ("coinbase_tx", toJson l.coinbaseTx),
    ("coinbase_merkle_proof", toJson l.coinbaseProof)]
  ofJson? v := do
    match ← v.fields? ["network", "base_block_hash", "block_hash", "known_height", "masternodes",
      "quorums", "masternode_merkle_root", "llmq_merkle_root", "last_diff_masternode_merkle_root",
      "last_diff_llmq_merkle_root", "quorums_active", "coinbase_tx",
      "coinbase_merkle_proof"] with
    | [network, baseBlockHash, blockHash, height, masternodes, quorums, masternodeRoot,
        quorumRoot, declaredMasternodeRoot, declaredQuorumRoot, quorumsActive, coinbaseTx,
        coinbaseProof] =>
      return ⟨← field? network, ← field? baseBlockHash, ← field? blockHash, ← field? height,
        ← field? masternodes, ← field? quorums, ← field? masternodeRoot, ← field? quorumRoot,
        ← field? declaredMasternodeRoot, ← field? declaredQuorumRoot, ← field? quorumsActive,
        ← field? coinbaseTx, ← field? coinbaseProof⟩
    | _ => none

/-! ### Locks and configurations -/

instance : JsonCodec ChainLock where
  toJson l := ofMembers [
    ("block_height", toJson l.height), ("block_hash", toJson l.blockHash),
    ("signature", toJson l.signature)]
  ofJson? v := do
    match ← v.fields? ["block_height", "block_hash", "signature"] with
    | [height, blockHash, signature] =>
      return ⟨← field? height, ← field? blockHash, ← field? signature⟩
    | _ => none

instance : JsonCodec InstantLock where
  toJson l := ofMembers [
    ("version", toJson l.version), ("inputs", toJson l.inputs), ("txid", toJson l.txid),
    ("cyclehash", toJson l.cycleHash), ("signature", toJson l.signature)]
  ofJson? v := do
    match ← v.fields? ["version", "inputs", "txid", "cyclehash", "signature"] with
    | [version, inputs, txid, cycleHash, signature] =>
      return ⟨← field? version, ← field? inputs, ← field? txid, ← field? cycleHash,
        ← field? signature⟩
    | _ => none

instance : JsonCodec StoreConfig where
  toJson c := ofMembers [
    ("network", toJson c.network), ("max_lists_limit", toJson c.maxLists)]
  ofJson? v := do
    match ← v.fields? ["network", "max_lists_limit"] with
    | [network, maxLists] => return ⟨← field? network, ← field? maxLists⟩
    | _ => none

end QuorumFinality
