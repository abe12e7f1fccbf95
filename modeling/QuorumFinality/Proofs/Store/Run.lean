import QuorumFinality.Proofs.Except
import QuorumFinality.Store.Verification

/-!
# Runs of a store

A store is built once and then lives through operations: differences are added, which may be
refused, and the quorums of the latest list are verified, which may end early. The history of a
store is what has become of this on the chain: the differences that it was built from and all that
it accepted since, oldest first. Most of them have been folded into the base by now, so the history
is not part of the store; it is what the store is compared with.

## Main definitions

* `Store.Op`, `Store.step` — an operation, and the store after it
* `Store.Reached` — the stores that can be reached, each with a history
* `Ascending` — heights that strictly increase
* `Sample.chain` — sixteen differences with a masternode and a quorum that can be verified
* `Sample.scheme` — a scheme under which exactly the signatures of the sample are valid

## Main results

* `Store.Reached.run` — a run leads from one reachable store to another
-/

namespace QuorumFinality

/-- The heights of differences are strictly increasing. -/
def Ascending (diffs : List ListDiff) : Prop :=
  (diffs.filterMap ListDiff.height?).Pairwise (· < ·)

instance (diffs : List ListDiff) : Decidable (Ascending diffs) :=
  inferInstanceAs (Decidable (List.Pairwise _ _))

/-- What ascends does so from the beginning. -/
theorem Ascending.of_append {diffs diffs' : List ListDiff} (h : Ascending (diffs ++ diffs')) :
    Ascending diffs := by
  rw [Ascending, List.filterMap_append] at h
  exact (List.pairwise_append.mp h).1

namespace Store

/-- What can be done to a store. -/
inductive Op where
  /-- Add a difference. -/
  | add (diff : ListDiff)
  /-- Verify the quorums of the latest list. -/
  | verify

variable (scheme : SignatureScheme)

/-- The store after an operation, whatever its result is. -/
def step (s : Store) : Op → Store
  | .add diff => (s.addDiff diff).1
  | .verify => (s.verifyCurrent scheme).1

/-- What an operation adds to the history: the difference, if it is accepted. -/
def accepted (s : Store) : Op → List ListDiff
  | .add diff =>
    match (s.addDiff diff).2 with
    | .ok () => [diff]
    | .error _ => []
  | .verify => []

/-- The stores that can be reached under a configuration, each with a history that leads to it. -/
inductive Reached (config : StoreConfig) : List ListDiff → Store → Prop
  /-- A new store. -/
  | build {diffs : List ListDiff} {s : Store} (h : Store.build config diffs = .ok s) :
      Reached config diffs s
  /-- A store after one more operation. -/
  | step {history : List ListDiff} {s : Store} (h : Reached config history s) (op : Op) :
      Reached config (history ++ s.accepted op) (s.step scheme op)

/-- The store after a sequence of operations. -/
def run (s : Store) (ops : List Op) : Store :=
  ops.foldl (step scheme) s

/-- What a sequence of operations adds to the history. -/
def acceptedAll (s : Store) : List Op → List ListDiff
  | [] => []
  | op :: ops => s.accepted op ++ (s.step scheme op).acceptedAll ops

variable {scheme} {config : StoreConfig} {history : List ListDiff} {s : Store}

/-- **Runs stay within reach.** -/
theorem Reached.run (h : Reached scheme config history s) (ops : List Op) :
    Reached scheme config (history ++ s.acceptedAll scheme ops) (s.run scheme ops) := by
  induction ops generalizing history s with
  | nil => simpa [acceptedAll, Store.run] using h
  | cons op ops ih =>
    have hnext := ih (h.step op)
    rwa [List.append_assoc] at hnext

theorem run_concat (s : Store) (ops : List Op) (op : Op) :
    s.run scheme (ops ++ [op]) = (s.run scheme ops).step scheme op := by
  simp [Store.run]

theorem acceptedAll_append (s : Store) (ops ops' : List Op) :
    s.acceptedAll scheme (ops ++ ops') =
      s.acceptedAll scheme ops ++ (s.run scheme ops).acceptedAll scheme ops' := by
  induction ops generalizing s with
  | nil => rfl
  | cons op ops ih => simp [acceptedAll, Store.run, ih]

end Store

/-! ### A sample -/

namespace Sample

/-- The bytes of numbers of sixteen bytes each, the most significant byte of a number first. -/
def bytes (numbers : List Nat) : FixedBytes (16 * numbers.length) where
  toList := numbers.flatMap fun n => (littleEndian 16 n).reverse
  length_toList := by
    simp [List.length_flatMap, length_littleEndian, List.map_const', Nat.mul_comm]

/-- The block at a height. -/
def block (height : Nat) : BlockHash :=
  ⟨FixedBytes.replicate 32 (UInt8.ofNat height)⟩

/-- A masternode that is confirmed and in good standing. -/
def masternode : MasternodeEntry where
  proTxHash := Hash.null
  confirmedHash := some Hash.null
  service := ⟨.v6 (FixedBytes.zero 16), 0⟩
  operatorKey := bytes
    [0x9850b280487cf5ec36b3b208a2678d76, 0xc14aecedfe3877aa4b61fc1a4ae636f0,
     0xbc9ce37602ae2ffe8c8e6e8c86028ad8]
  votingKeyId := FixedBytes.zero 20
  isValid := true

/-- A quorum of the first block. The masternode is its only member; it has signed for the quorum
with its own key, and the quorum has signed with another one. -/
def quorum : FullQuorumEntry where
  version := 1
  type := .test
  quorumHash := (block 1).retype
  quorumIndex := none
  signersCount := 1
  signers := [1]
  validMembersCount := 1
  validMembers := [1]
  publicKey := bytes
    [0xb3d14060d4e719583ab13c86e84266df, 0xcb0706557445130f42c326b02984ba6a,
     0x7cfd3c5731192de14d9c782af3669f8e]
  vvecHash := Hash.null
  thresholdSignature := bytes
    [0x8d0a7c5b22c3a49c5d829f86a8c71b94, 0x9e297710466444b37da4d50873297ab2,
     0x0398c8c56141062a412e008f1ae6b9f0, 0x04ad489f51e7772253a7770f65ede856,
     0xc3f634982c01b0baef8b38455c1ece86, 0x899d24ed0957b00e6f0b012d2b875b0a]
  membersSignature := bytes
    [0xb905a99e818276ec4ab52134f7d92b85, 0xa3c3d030c31840b0652911e249e1a3af,
     0x31b76e19305a45c0f22d0c842441343f, 0x02fe4e4b0b29c3c40f20c53fb93dcea0,
     0x54d96bb5e5d4d039672f968c32f25cbf, 0xf81b9a1894dd015f412c7f7f5e617229]

/-- What the member and the quorum have signed, the digest of the commitment. -/
def commitmentDigest : FixedBytes 32 :=
  bytes [0xaddb90f10eaadfcacadcfa85a54a0f63, 0x888a54e4c478d9b2b16aba42110eb247]

/-- What the quorum has signed besides, the digest for a lock of the tenth block. -/
def lockDigest : FixedBytes 32 :=
  bytes [0x8b7df166acfe8270b8392a4d0e6843fc, 0x4880266f7c8adbf9249ac701e2b3534f]

/-- The signature of the quorum for that lock. -/
def lockSignature : SignatureBytes :=
  bytes
    [0x88ad3369c2fda64973215cb8bd8eacc4, 0x5c5e549a36cb67f951e91dbe3fff4359,
     0xca04f2917567ba614ba76ddc8339593e, 0x10e54a257a96eadf303bc18497e87eda,
     0xb6c488891568ce7210740e5945736bdc, 0x8761f60a26cdbe70518a72f18a99d715]

/-- The keys, the messages and the signatures that belong together. -/
def signed : List (List KeyBytes × Bytes × SignatureBytes) :=
  [([masternode.operatorKey], commitmentDigest.toList, quorum.membersSignature),
   ([quorum.publicKey], commitmentDigest.toList, quorum.thresholdSignature),
   ([quorum.publicKey], lockDigest.toList, lockSignature)]

/-- The scheme of the chain cut down to the sample. A pairing is too much to be evaluated in a proof,
so the signatures that were really made for the sample are listed: only they and their keys are
decoded, a sum of keys is the list of them, and what is listed is valid. -/
def scheme : SignatureScheme where
  Key := List KeyBytes
  Signature := SignatureBytes
  decodeKey key := if key ∈ signed.flatMap fun entry => entry.1 then some [key] else none
  decodeSignature signature :=
    if signature ∈ signed.map fun entry => entry.2.2 then some signature else none
  addKeys := List.append
  verify keys message signature :=
    if (keys, message, signature) ∈ signed then .ok () else .error ⟨"invalid signature"⟩

/-- Only the second block commits to quorums. -/
def payload (height : Nat) : CoinbasePayload where
  version := if height = 2 then 2 else 1
  height := UInt32.ofNat height
  masternodeRoot := ⟨masternode.entryHash.bytes⟩
  quorumRoot := ⟨(QuorumEntry.full quorum).entryHash.bytes⟩
  bestChainLockHeight := none
  bestChainLockSignature := none
  assetLockedAmount := none

/-- The first block registers the masternode, the second one has the quorum. -/
def diff (height : Nat) : ListDiff where
  baseBlockHash := block (height - 1)
  blockHash := block height
  totalTransactions := 1
  merkleHashes := []
  merkleFlags := []
  coinbaseTx := ⟨3, 0, [], [], some (.coinbase (payload height))⟩
  deletedMasternodes := []
  newMasternodes := if height = 1 then [masternode] else []
  deletedQuorums := []
  newQuorums := if height = 2 then [.full quorum] else []

/-- As few differences as a store can be made of. -/
def chain : List ListDiff :=
  (List.range' 1 16).map diff

/-- As few lists as a store can keep. -/
def config : StoreConfig :=
  ⟨.regtest, 16⟩

theorem ascending_chain : Ascending chain := by decide

/-- The statuses of the quorums of the type of the sample. -/
def statuses (s : Store) : List VerificationStatus :=
  (s.tip.quorumsOfType .test).map Quorum.status

/-- A store can be made of the sample. A pass verifies its quorum and counts it as long as the first
block is retained; one more difference folds that block away. -/
theorem exists_build : ∃ s, Store.build config chain = .ok s ∧
    decide ((s.verifyCurrent scheme).2.toOption.any (· = 1) ∧
      statuses (s.run scheme [.verify]) = [.verified] ∧
      statuses (s.run scheme [.verify, .add (diff 17), .verify]) =
        [.skipped (.missedList quorum.quorumHash)]) :=
  any_toOption_iff.mp (by decide +kernel)

theorem exists_reached : ∃ s, Store.Reached scheme config chain s := by
  obtain ⟨s, hbuild, -⟩ := exists_build
  exact ⟨s, .build hbuild⟩

/-- The store of the sample once its quorum is verified. -/
theorem exists_verified : ∃ s, Store.Reached scheme config chain s ∧
    statuses s = [.verified] ∧
    statuses (s.run scheme [.add (diff 17), .verify]) =
      [.skipped (.missedList quorum.quorumHash)] := by
  obtain ⟨s, hbuild, hdecide⟩ := exists_build
  obtain ⟨-, hstatuses⟩ := of_decide_eq_true hdecide
  refine ⟨s.run scheme [.verify], ?_, hstatuses⟩
  simpa [Store.acceptedAll, Store.accepted] using (Store.Reached.build hbuild).run [.verify]

end Sample

end QuorumFinality
