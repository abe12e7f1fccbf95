import QuorumFinality.MasternodeList.Basic
import QuorumFinality.Report.Chain
import QuorumFinality.Store.Basic

/-!
# Reports on quorums, lists and stores

The report on a list comes in two lengths: the summary counts masternodes and quorums, the full
report names them.

## Main definitions

* `Quorum.report`, `MasternodeList.summary`, `MasternodeList.report`, `Store.report`.
-/

namespace QuorumFinality

open JsonValue Report

/-- What is shown of a quorum. -/
def Quorum.report (q : Quorum) : JsonValue := ofMembers [
  ("llmq_type", typeNumber q.entry.type), ("quorum_hash", hashText q.entry.quorumHash),
  ("legacy", .bool q.entry.isLegacy), ("entry_hash", hashText q.entryHash),
  ("commitment_hash", optional hashText q.commitmentHash), ("status", ofString q.status.text)]

namespace MasternodeList

/-- What the summary of a list shows. -/
def summaryMembers (l : MasternodeList) : List (String × JsonValue) := [
  ("base_block_hash", hashText l.baseBlockHash), ("block_hash", hashText l.blockHash),
  ("height", number l.height.toNat), ("masternode_count", number l.masternodes.size),
  ("quorums_count", number (quorumCount l.quorums)), ("mn_root", hashText l.masternodeRoot),
  ("quorum_root", hashText l.quorumRoot), ("declared_mn_root", hashText l.declaredMasternodeRoot),
  ("declared_quorum_root", hashText l.declaredQuorumRoot), ("quorums_active", .bool l.quorumsActive)]

/-- The short report on a list. -/
def summary (l : MasternodeList) : JsonValue :=
  ofMembers l.summaryMembers

/-- The full report on a list. The identifier of its coinbase is part of it, so a list whose
coinbase has no wire form has no report. -/
def report (l : MasternodeList) : Except EncodeError JsonValue := do
  let coinbase ← match l.coinbaseTx with
    | none => pure .null
    | some tx => hashText <$> tx.txid
  let masternodes := l.masternodes.entries.map fun (key, m) => ofMembers [
    ("key", hashText key), ("entry_hash", hashText m.entryHash), ("is_valid", .bool m.entry.isValid),
    ("confirmed", .bool m.entry.confirmedHash.isSome)]
  let quorums := l.quorums.entries.map fun (type, bucket) =>
    .array [ofString type.label, .array (bucket.map Quorum.report)]
  let proof := optional (fun p => .array [number p.totalTransactions.toNat,
    .array (p.merkleHashes.map fixed), hex p.merkleFlags]) l.coinbaseProof
  return ofMembers (l.summaryMembers ++ [
    ("network", ofString l.network.name), ("masternodes", .array masternodes),
    ("quorums", .array quorums), ("coinbase_txid", coinbase), ("proof", proof)])

/-- What is shown of the roots of a list and what they are made from. -/
def rootReport (l : MasternodeList) : JsonValue := ofMembers [
  ("mn_hashes", .array ((masternodeLeaves l.masternodes).map fixed)),
  ("quorum_hashes", .array ((quorumLeaves l.quorums).map fixed)),
  ("mn_root", hashText (masternodeRootOf l.masternodes)),
  ("quorum_root", hashText (quorumRootOf l.quorums)), ("verify", .bool l.verify)]

end MasternodeList

/-- What is shown of a store. -/
def Store.report (s : Store) : JsonValue := ofMembers [
  ("network", ofString s.config.network.name), ("base_block_hash", hashText s.base.baseBlockHash),
  ("base_height", number s.baseHeight.toNat), ("tip_height", number s.tipHeight.toNat),
  ("tip_hash", hashText s.tip.blockHash),
  ("heights", .array (s.heights.map fun h => number h.toNat))]

end QuorumFinality
