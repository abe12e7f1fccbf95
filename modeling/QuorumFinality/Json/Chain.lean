import QuorumFinality.Address.Text
import QuorumFinality.Json.Codec
import QuorumFinality.Masternode.Entry
import QuorumFinality.Network
import QuorumFinality.Transaction.Basic

/-!
# The JSON form of transactions and masternodes

Hashes, keys, signatures and addresses are their texts. Everything else follows the rules for
structures and choices; the names are those that other programs of the network use.
-/

namespace QuorumFinality

open JsonCodec JsonValue

/-! ### Values that are texts -/

instance {role : HashRole} : JsonCodec (Hash role) where
  toJson h := ofString h.text
  ofJson?
    | string (some text) => (Hash.ofText? text).toOption
    | _ => none

/-- A public key is its text and not an array of numbers. -/
instance : JsonCodec KeyBytes where
  toJson key := ofString key.text
  ofJson?
    | string (some text) => (KeyBytes.ofText? text).toOption
    | _ => none

/-- A signature is its text and not an array of numbers. -/
instance : JsonCodec SignatureBytes where
  toJson signature := ofString signature.text
  ofJson?
    | string (some text) => (SignatureBytes.ofText? text).toOption
    | _ => none

instance : JsonCodec IpAddress where
  toJson ip := ofString ip.text
  ofJson?
    | string (some text) => IpAddress.ofText? text
    | _ => none

/-! ### Names -/

namespace Network

/-- The networks by their names in JSON. -/
def jsonNames : List (String × Network) :=
  [("dash", mainnet), ("testnet", testnet), ("devnet", devnet), ("regtest", regtest)]

instance : JsonCodec Network where
  toJson network := ofString network.name
  ofJson? := unit? jsonNames

end Network

namespace QuorumType

/-- The name of a quorum type in JSON. -/
def jsonName : QuorumType → String
  | llmq50_60 => "Llmqtype50_60"
  | llmq400_60 => "Llmqtype400_60"
  | llmq400_85 => "Llmqtype400_85"
  | llmq100_67 => "Llmqtype100_67"
  | llmq60_75 => "Llmqtype60_75"
  | llmq25_67 => "Llmqtype25_67"
  | test => "LlmqtypeTest"
  | devnet => "LlmqtypeDevnet"
  | testV17 => "LlmqtypeTestV17"
  | testRotation => "LlmqtypeTestDIP0024"
  | testInstantSend => "LlmqtypeTestInstantSend"
  | devnetRotation => "LlmqtypeDevnetDIP0024"
  | testPlatform => "LlmqtypeTestnetPlatform"
  | devnetPlatform => "LlmqtypeDevnetPlatform"

/-- The quorum types by their names in JSON. -/
def jsonNames : List (String × QuorumType) :=
  [llmq50_60, llmq400_60, llmq400_85, llmq100_67, llmq60_75, llmq25_67, test, devnet, testV17,
    testRotation, testInstantSend, devnetRotation, testPlatform, devnetPlatform].map fun t =>
      (t.jsonName, t)

instance : JsonCodec QuorumType where
  toJson t := ofString t.jsonName
  ofJson? := unit? jsonNames

end QuorumType

namespace TransactionType

/-- The name of a transaction type in JSON. -/
def jsonName : TransactionType → String
  | classic => "Classic"
  | providerRegistration => "ProviderRegistration"
  | providerUpdateService => "ProviderUpdateService"
  | providerUpdateRegistrar => "ProviderUpdateRegistrar"
  | providerUpdateRevocation => "ProviderUpdateRevocation"
  | coinbase => "Coinbase"
  | quorumCommitment => "QuorumCommitment"
  | hardForkSignal => "MnhfSignal"
  | assetLock => "AssetLock"
  | assetUnlock => "AssetUnlock"

/-- The transaction types by their names in JSON. -/
def jsonNames : List (String × TransactionType) :=
  [classic, providerRegistration, providerUpdateService, providerUpdateRegistrar,
    providerUpdateRevocation, coinbase, quorumCommitment, hardForkSignal, assetLock,
    assetUnlock].map fun t => (t.jsonName, t)

instance : JsonCodec TransactionType where
  toJson t := ofString t.jsonName
  ofJson? := unit? jsonNames

end TransactionType

/-! ### Transactions -/

instance : JsonCodec OutPoint where
  toJson o := ofMembers [("txid", toJson o.txid), ("vout", toJson o.vout)]
  ofJson? v := do
    match ← v.fields? ["txid", "vout"] with
    | [txid, vout] => return ⟨← field? txid, ← field? vout⟩
    | _ => none

instance : JsonCodec TxIn where
  toJson i := ofMembers [
    ("previous_output", toJson i.previousOutput), ("script_sig", toJson i.scriptSig),
    ("sequence", toJson i.sequence)]
  ofJson? v := do
    match ← v.fields? ["previous_output", "script_sig", "sequence"] with
    | [output, script, sequence] => return ⟨← field? output, ← field? script, ← field? sequence⟩
    | _ => none

instance : JsonCodec TxOut where
  toJson o := ofMembers [
    ("value", toJson o.value), ("script_pubkey", toJson o.scriptPubkey)]
  ofJson? v := do
    match ← v.fields? ["value", "script_pubkey"] with
    | [value, script] => return ⟨← field? value, ← field? script⟩
    | _ => none

instance : JsonCodec CoinbasePayload where
  toJson p := ofMembers [
    ("version", toJson p.version), ("height", toJson p.height),
    ("merkle_root_masternode_list", toJson p.masternodeRoot),
    ("merkle_root_quorums", toJson p.quorumRoot),
    ("best_cl_height", toJson p.bestChainLockHeight),
    ("best_cl_signature", toJson p.bestChainLockSignature),
    ("asset_locked_amount", toJson p.assetLockedAmount)]
  ofJson? v := do
    match ← v.fields? ["version", "height", "merkle_root_masternode_list", "merkle_root_quorums",
      "best_cl_height", "best_cl_signature", "asset_locked_amount"] with
    | [version, height, masternodeRoot, quorumRoot, lockHeight, lockSignature, amount] =>
      return ⟨← field? version, ← field? height, ← field? masternodeRoot, ← field? quorumRoot,
        ← field? lockHeight, ← field? lockSignature, ← field? amount⟩
    | _ => none

instance : JsonCodec TransactionPayload where
  toJson
    | .coinbase payload => ofVariant "CoinbasePayloadType" (toJson payload)
    | .raw type bytes =>
      ofVariant "Raw" (ofMembers [("tx_type", toJson type), ("payload", toJson bytes)])
  ofJson? v := do
    match ← v.variant? with
    | ("CoinbasePayloadType", some content) => return .coinbase (← ofJson? content)
    | ("Raw", some content) =>
      match ← content.fields? ["tx_type", "payload"] with
      | [type, bytes] => return .raw (← field? type) (← field? bytes)
      | _ => none
    | _ => none

instance : JsonCodec Transaction where
  toJson tx := ofMembers [
    ("version", toJson tx.version), ("lock_time", toJson tx.lockTime),
    ("input", toJson tx.inputs), ("output", toJson tx.outputs),
    ("special_transaction_payload", toJson tx.payload)]
  ofJson? v := do
    match ← v.fields? ["version", "lock_time", "input", "output",
      "special_transaction_payload"] with
    | [version, lockTime, inputs, outputs, payload] =>
      return ⟨← field? version, ← field? lockTime, ← field? inputs, ← field? outputs,
        ← field? payload⟩
    | _ => none

/-! ### Masternodes -/

instance : JsonCodec ServiceAddress where
  toJson s := ofMembers [("ip", toJson s.ip), ("port", toJson s.port)]
  ofJson? v := do
    match ← v.fields? ["ip", "port"] with
    | [ip, port] => return ⟨← field? ip, ← field? port⟩
    | _ => none

instance : JsonCodec MasternodeEntry where
  toJson e := ofMembers [
    ("pro_reg_tx_hash", toJson e.proTxHash), ("confirmed_hash", toJson e.confirmedHash),
    ("service_address", toJson e.service), ("operator_public_key", toJson e.operatorKey),
    ("key_id_voting", toJson e.votingKeyId), ("is_valid", toJson e.isValid)]
  ofJson? v := do
    match ← v.fields? ["pro_reg_tx_hash", "confirmed_hash", "service_address",
      "operator_public_key", "key_id_voting", "is_valid"] with
    | [proTxHash, confirmedHash, service, operatorKey, votingKeyId, isValid] =>
      return ⟨← field? proTxHash, ← field? confirmedHash, ← field? service, ← field? operatorKey,
        ← field? votingKeyId, ← field? isValid⟩
    | _ => none

instance : JsonCodec Masternode where
  toJson m := ofMembers [
    ("masternode_list_entry", toJson m.entry), ("entry_hash", toJson m.entryHash),
    ("confirmed_hash_hashed_with_pro_reg_tx", toJson m.confirmedMasternodeHash)]
  ofJson? v := do
    match ← v.fields? ["masternode_list_entry", "entry_hash",
      "confirmed_hash_hashed_with_pro_reg_tx"] with
    | [entry, entryHash, confirmed] =>
      return ⟨← field? entry, ← field? entryHash, ← field? confirmed⟩
    | _ => none

end QuorumFinality
