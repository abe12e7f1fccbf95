import Mathlib.Data.List.Nodup
import QuorumFinality.Proofs.MasternodeList.Snapshot
import QuorumFinality.Proofs.MasternodeList.Turnover

/-!
# The order in which a difference names its changes

Nodes that agree on a block may still send different bytes for the difference that leads to it,
because nothing says in which order the changes are to be named. This is of no consequence. The
masternodes are in the order of their registrations, however they arrived. Those that are gone are
all removed before those that are new are set, so only two entries for one registration could be in
each other's way. The quorums of a type do not depend on what is named between them, and a deletion
looks at nothing but the quorums that were there. Only the order of the arrivals of one type counts:
it says which of them are pushed out first.

A refusal does not depend on the order either, because the roots that it names are those of the same
masternodes and quorums.

## Main definitions

* `ListDiff.Reorders` — differences that name the same changes in another order

## Main results

* `MasternodeList.applyMasternodes_of_reorders`, `MasternodeList.applyQuorums_of_reorders` — the
  changes are the same
* `MasternodeList.apply_eq_of_reorders` — and so is what becomes of a list, or why it is refused
-/

namespace QuorumFinality

namespace ListDiff

/-- The two differences are alike but for the order in which they name the masternodes and quorums
that are gone and the ones that are new. The new quorums of one type are named in the same order. -/
structure Reorders (diff diff' : ListDiff) : Prop where
  /-- They lead from the same block. -/
  baseBlockHash : diff.baseBlockHash = diff'.baseBlockHash
  /-- They lead to the same block. -/
  blockHash : diff.blockHash = diff'.blockHash
  /-- They are about as many transactions. -/
  totalTransactions : diff.totalTransactions = diff'.totalTransactions
  /-- They have the same proof. -/
  merkleHashes : diff.merkleHashes = diff'.merkleHashes
  /-- The proof has the same shape. -/
  merkleFlags : diff.merkleFlags = diff'.merkleFlags
  /-- They have the same coinbase. -/
  coinbaseTx : diff.coinbaseTx = diff'.coinbaseTx
  /-- The same masternodes are gone. -/
  deletedMasternodes : diff.deletedMasternodes.Perm diff'.deletedMasternodes
  /-- The same masternodes are new. -/
  newMasternodes : diff.newMasternodes.Perm diff'.newMasternodes
  /-- The same quorums are gone. -/
  deletedQuorums : diff.deletedQuorums.Perm diff'.deletedQuorums
  /-- The same quorums of each type are new, in the same order. -/
  newQuorums : ∀ type : QuorumType, diff.newQuorums.filter (fun entry => entry.type = type) =
    diff'.newQuorums.filter fun entry => entry.type = type

variable {diff diff' : ListDiff}

/-! ### What the quorums of a type see of a difference -/

theorem Reorders.deletes_eq (h : diff.Reorders diff') (type : QuorumType) :
    diff.deletes type = diff'.deletes type :=
  funext fun _ => h.deletedQuorums.any_eq

theorem Reorders.kept_eq (h : diff.Reorders diff') (type : QuorumType) (bucket : List Quorum) :
    diff.kept type bucket = diff'.kept type bucket := by
  rw [kept, kept, h.deletes_eq]

theorem Reorders.arrivals_eq (h : diff.Reorders diff') (network : Network) (type : QuorumType) :
    diff.arrivals network type = diff'.arrivals network type := by
  rw [arrivals, arrivals, h.newQuorums]

theorem Reorders.pushedOut_eq (h : diff.Reorders diff') (network : Network) (type : QuorumType)
    (bucket : List Quorum) :
    diff.pushedOut network type bucket = diff'.pushedOut network type bucket := by
  rw [pushedOut, pushedOut, h.arrivals_eq, h.kept_eq]

end ListDiff

namespace MasternodeList

variable {diff diff' : ListDiff}

/-- **The same masternodes are removed and set,** provided that no two new entries are for one
registration. -/
theorem applyMasternodes_of_reorders (h : diff.Reorders diff')
    (hdistinct : (diff.newMasternodes.map MasternodeEntry.proTxHash).Nodup)
    (masternodes : MasternodeMap) :
    applyMasternodes masternodes diff = applyMasternodes masternodes diff' := by
  have hkept : diff.deletedMasternodes.foldl (fun map key => map.erase key) masternodes =
      diff'.deletedMasternodes.foldl (fun map key => map.erase key) masternodes :=
    h.deletedMasternodes.foldl_eq' (fun key _ key' _ map => map.erase_comm key key') masternodes
  have hset (kept : MasternodeMap) : diff.newMasternodes.foldl
      (fun map entry => map.insert entry.proTxHash (Masternode.ofEntry entry)) kept =
      diff'.newMasternodes.foldl
        (fun map entry => map.insert entry.proTxHash (Masternode.ofEntry entry)) kept := by
    refine h.newMasternodes.foldl_eq' (fun entry hentry entry' hentry' map => ?_) kept
    by_cases hkey : entry.proTxHash = entry'.proTxHash
    · rw [List.inj_on_of_nodup_map hdistinct hentry hentry' hkey]
    · exact map.insert_comm _ _ hkey
  rw [applyMasternodes, applyMasternodes, hkept, hset]

/-- **The same quorums are active,** type by type and therefore all together. -/
theorem applyQuorums_of_reorders (h : diff.Reorders diff') (network : Network)
    (quorums : QuorumMap) :
    applyQuorums network quorums diff = applyQuorums network quorums diff' := by
  refine eq_of_bucket_eq (fun type b hget => ne_nil_of_get?_applyQuorums hget)
    (fun type b hget => ne_nil_of_get?_applyQuorums hget) fun type => ?_
  rw [bucket_applyQuorums, bucket_applyQuorums, h.kept_eq, h.arrivals_eq, h.pushedOut_eq]

/-- A list is moved to the same block. -/
theorem advance_of_reorders (h : diff.Reorders diff') (list : MasternodeList)
    (payload : CoinbasePayload) : list.advance diff payload = list.advance diff' payload := by
  rw [advance, advance, h.baseBlockHash, h.blockHash, h.totalTransactions, h.merkleHashes,
    h.merkleFlags, h.coinbaseTx]

/-- **The order in which a difference names its changes does not matter.** Applied to any list,
differences that name the same changes lead to the same list or are refused for the same reason. -/
theorem apply_eq_of_reorders (h : diff.Reorders diff')
    (hdistinct : (diff.newMasternodes.map MasternodeEntry.proTxHash).Nodup)
    (list : MasternodeList) : list.apply diff = list.apply diff' := by
  have hpayload : diff.coinbasePayload? = diff'.coinbasePayload? := by
    rw [ListDiff.coinbasePayload?, ListDiff.coinbasePayload?, h.coinbaseTx]
  unfold apply
  rw [hpayload, h.blockHash, applyMasternodes_of_reorders h hdistinct,
    applyQuorums_of_reorders h]
  simp only [advance_of_reorders h]

/-- A masternode under a registration of its own. -/
def sampleRegistration (n : UInt8) : MasternodeEntry :=
  { Sample.masternode with proTxHash := ⟨FixedBytes.replicate 32 n⟩ }

/-- A difference that removes what is not there and brings two masternodes and some quorums. -/
def sampleChanges (deleted : List UInt8) (masternodes : List MasternodeEntry)
    (quorums : List QuorumEntry) : ListDiff where
  baseBlockHash := Hash.null
  blockHash := Hash.null
  totalTransactions := 1
  merkleHashes := []
  merkleFlags := []
  coinbaseTx := ⟨3, 0, [], [], some (.coinbase ⟨2, 1, masternodeRootOf (OrderedMap.ofList
    [((sampleRegistration 1).proTxHash, Masternode.ofEntry (sampleRegistration 1)),
      ((sampleRegistration 2).proTxHash, Masternode.ofEntry (sampleRegistration 2))]),
    Hash.null, none, none, none⟩)⟩
  deletedMasternodes := deleted.map fun n => ⟨FixedBytes.replicate 32 n⟩
  newMasternodes := masternodes
  deletedQuorums := deleted.map fun n => ⟨.test, ⟨FixedBytes.replicate 32 n⟩⟩
  newQuorums := quorums

/-- Two masternodes change places, and a quorum of one type comes between two of another one. -/
theorem apply_eq_of_reorders_sample : ∃ diff diff' : ListDiff, diff ≠ diff' ∧
    diff.Reorders diff' ∧ (diff.newMasternodes.map MasternodeEntry.proTxHash).Nodup ∧
    (∃ next, (empty .regtest).apply diff = .ok next ∧ next.masternodes.size = 2 ∧
      (next.quorumsOfType .test).map Quorum.entry =
        [sampleShortForm .test 3, sampleShortForm .test 5]) ∧
    (empty .regtest).apply diff = (empty .regtest).apply diff' := by
  let diff := sampleChanges [1, 2] [sampleRegistration 2, sampleRegistration 1]
    [sampleShortForm .test 3, sampleShortForm .llmq50_60 4, sampleShortForm .test 5]
  let diff' := sampleChanges [2, 1] [sampleRegistration 1, sampleRegistration 2]
    [sampleShortForm .llmq50_60 4, sampleShortForm .test 3, sampleShortForm .test 5]
  have hreorders : diff.Reorders diff' :=
    ⟨rfl, rfl, rfl, rfl, rfl, rfl, by decide, by decide, by decide, by rintro (_ | _) <;> rfl⟩
  have hdistinct : (diff.newMasternodes.map MasternodeEntry.proTxHash).Nodup := by decide
  obtain ⟨next, hnext, htests⟩ := any_toOption_iff.mp (by decide +kernel :
    ((empty .regtest).apply diff).toOption.any fun next => next.masternodes.size = 2 ∧
      (next.quorumsOfType .test).map Quorum.entry =
        [sampleShortForm .test 3, sampleShortForm .test 5])
  obtain ⟨hmasternodes, hquorums⟩ := of_decide_eq_true htests
  exact ⟨diff, diff', by decide +kernel, hreorders, hdistinct,
    ⟨next, hnext, hmasternodes, hquorums⟩, apply_eq_of_reorders hreorders hdistinct _⟩

end MasternodeList

end QuorumFinality
