import QuorumFinality.Proofs.MasternodeList.Buckets
import QuorumFinality.Proofs.Merkle.Binding
import QuorumFinality.Proofs.Sorting

/-!
# What the root of the quorums commits to

The leaves of the tree over the quorums are the digests of their entries, ordered by their bytes.
An entry in the full form is too long to pass for a pair of hashes, so the depth of the tree is
known. But nothing keeps a quorum from being added twice, and a leaf that is repeated can be the
partner that a last leaf lacks. A list that holds the quorum with the greatest digest once more may
therefore have the root that the coinbase declares, and the difference that leads to it is accepted.

This is all that the root leaves open: two accepted lists hold the same entries, each of them
equally often except for the one with the greatest digest. Which of the lists was meant is settled
by how many quorums there are, or by holding none of them twice.

## Main definitions

* `MasternodeList.HasDigests` — each quorum is kept with the digest of its entry
* `MasternodeList.Adopts` — a difference that commits to quorums is accepted
* `MasternodeList.entryHashes` — the digests of the entries
* `MasternodeList.quorumStrings` — what is hashed for the root

## Main results

* `MasternodeList.hasDigests_of_applyAll` — differences lead to nothing else
* `MasternodeList.Adopts.quorumRootOf_eq` — the declared root is the calculated one
* `MasternodeList.entryHashes_perm_iff` — what two lists with one root have in common
* `MasternodeList.not_forall_entryHashes_perm` — a quorum that is added twice is not noticed
-/

namespace QuorumFinality

/-- An entry in the full form is longer than a pair of hashes. -/
theorem QuorumEntry.lt_length_entryPreimage {e : QuorumEntry} (h : e.isLegacy = false) :
    64 < e.entryPreimage.length := by
  cases e with
  | legacy entry => cases h
  | full entry =>
    simp only [entryPreimage, FullQuorumEntry.encodeWithCounts, Wire.encode, List.length_append,
      FixedBytes.length_toList]
    omega

namespace Merkle

variable {α : Type} [DecidableEq α] [Ord α] [Std.OrientedOrd α] {l l' : List α} {a b : α}

/-- In ordered lists only a greatest element can be repeated. -/
theorem Repeats.count_eq (h : Repeats l l') (hsorted : l'.Pairwise fun a b => (compare a b).isLE)
    (hb : b ∈ l) (hlt : compare a b = .lt) : l.count a = l'.count a := by
  obtain ⟨⟨rest, rfl⟩, -⟩ := h
  have hrest : a ∉ rest := by
    intro ha
    have hle := (List.pairwise_append.mp hsorted).2.2 b hb a ha
    rw [Std.OrientedOrd.eq_swap, hlt] at hle
    contradiction
  rw [List.count_append, List.count_eq_zero.mpr hrest, Nat.add_zero]

theorem Alike.count_eq (h : Alike l l') (hl : l.Pairwise fun a b => (compare a b).isLE)
    (hl' : l'.Pairwise fun a b => (compare a b).isLE) (hb : b ∈ l) (hlt : compare a b = .lt) :
    l.count a = l'.count a :=
  h.elim (fun h => h.count_eq hl' hb hlt) fun h => (h.count_eq hl (h.mem_iff.mpr hb) hlt).symm

end Merkle

namespace MasternodeList

variable {list next last : MasternodeList} {diff : ListDiff} {root : QuorumRoot}
  {quorums : QuorumMap}

/-! ### Digests -/

/-- Each quorum is kept with the digest of its entry. -/
def HasDigests (list : MasternodeList) : Prop :=
  ∀ type, ∀ q ∈ list.quorumsOfType type, q.entryHash = q.entry.entryHash

theorem hasDigests_empty (network : Network) : (empty network).HasDigests := by
  intro type q hq
  simp [quorumsOfType, empty] at hq

theorem HasDigests.of_apply (hlist : list.HasDigests) (h : list.apply diff = .ok next) :
    next.HasDigests := by
  intro type q hq
  rcases mem_quorumsOfType_apply h hq with hkept | harrived
  · exact hlist type q hkept
  · rw [(ListDiff.of_mem_arrivals harrived).2.2]
    rfl

/-- **Differences keep quorums with their own digests.** -/
theorem hasDigests_of_applyAll {diffs : List ListDiff} (hlist : list.HasDigests)
    (h : list.applyAll diffs = .ok last) : last.HasDigests :=
  applyAll_keeps (fun _ _ _ hl hnext => hl.of_apply hnext) hlist h

theorem HasDigests.entryHash_eq (h : list.HasDigests) :
    ∀ q ∈ list.quorums.values.flatten, q.entryHash = q.entry.entryHash := by
  intro q hq
  obtain ⟨type, hq⟩ := mem_flatten_values_iff.mp hq
  exact h type q hq

/-! ### Adoption -/

/-- A difference is accepted that commits to quorums with the given root, and the list that it
leads to has quorums, none of them in the short form. -/
structure Adopts (list : MasternodeList) (diff : ListDiff) (root : QuorumRoot)
    (next : MasternodeList) : Prop where
  /-- The difference is accepted. -/
  apply_eq : list.apply diff = .ok next
  /-- The coinbase declares the root. -/
  declared : ∃ payload, diff.coinbasePayload? = some payload ∧ 2 ≤ payload.version.toNat ∧
    payload.quorumRoot = root
  /-- There are quorums. -/
  quorumCount_ne_zero : quorumCount next.quorums ≠ 0
  /-- All of them have the full form. -/
  hasLegacy_eq : hasLegacy next.quorums = false

/-- **The declared root is the calculated one.** -/
theorem Adopts.quorumRootOf_eq (h : list.Adopts diff root next) :
    quorumRootOf next.quorums = root := by
  obtain ⟨hnext, ⟨payload, hpayload, hversion, rfl⟩, hcount, hlegacy⟩ := h
  obtain ⟨-, haccept⟩ := acceptQuorumRoot_of_apply hpayload hversion hnext
  obtain ⟨hshort, -⟩ | ⟨-, -, hroot⟩ := acceptQuorumRoot_cases haccept
  · exact absurd (hlegacy.symm.trans hshort) (by decide)
  · exact hroot hcount

theorem Adopts.isLegacy_eq (h : list.Adopts diff root next) :
    ∀ q ∈ next.quorums.values.flatten, q.entry.isLegacy = false :=
  hasLegacy_eq_false_iff.mp h.hasLegacy_eq

/-- Such a difference is accepted if it leads to the roots that it declares. -/
theorem exists_adopts {payload : CoinbasePayload} (hpayload : diff.coinbasePayload? = some payload)
    (hversion : 2 ≤ payload.version.toNat)
    (hmasternodes : masternodeRootOf (applyMasternodes list.masternodes diff) =
      payload.masternodeRoot)
    (hquorums : applyQuorums list.network list.quorums diff = quorums)
    (hcount : quorumCount quorums ≠ 0) (hlegacy : hasLegacy quorums = false)
    (hroot : quorumRootOf quorums = payload.quorumRoot) :
    ∃ next, list.Adopts diff payload.quorumRoot next ∧ next.quorums = quorums := by
  have haccept : acceptQuorumRoot quorums payload.quorumRoot = .ok payload.quorumRoot := by
    simp [acceptQuorumRoot, hcount, hlegacy, hroot]
  have hnext := apply_eq_map hpayload hversion hmasternodes
  rw [hquorums, haccept] at hnext
  exact ⟨_, ⟨hnext, ⟨payload, hpayload, hversion, rfl⟩, hcount, hlegacy⟩, rfl⟩

/-! ### Leaves -/

/-- The digests of the entries of all quorums. -/
def entryHashes (quorums : QuorumMap) : List QuorumEntryHash :=
  quorums.values.flatten.map Quorum.entryHash

/-- The digests in the order of the leaves. -/
def sortedHashes (quorums : QuorumMap) : List QuorumEntryHash :=
  (entryHashes quorums).mergeSort fun a b => (compare a b).isLE

/-- What is hashed while the root over quorums is computed: their entries, and the pairs of the
tree. -/
def quorumStrings (quorums : QuorumMap) : List Bytes :=
  quorums.values.flatten.map (fun q => q.entry.entryPreimage) ++
    Merkle.hashed (quorumLeaves quorums)

theorem length_entryHashes (quorums : QuorumMap) :
    (entryHashes quorums).length = quorumCount quorums :=
  List.length_map _

theorem sortedHashes_perm (quorums : QuorumMap) :
    (sortedHashes quorums).Perm (entryHashes quorums) :=
  List.mergeSort_perm _ _

theorem pairwise_sortedHashes (quorums : QuorumMap) :
    (sortedHashes quorums).Pairwise fun a b => (compare a b).isLE :=
  pairwise_mergeSort_isLE compare (entryHashes quorums)

/-- The leaves are the digests in order. -/
theorem quorumLeaves_eq (quorums : QuorumMap) :
    quorumLeaves quorums = (sortedHashes quorums).map Hash.bytes := by
  have hmap := @List.map_mergeSort QuorumEntryHash Merkle.Node (fun a b => (compare a b).isLE)
    (fun a b => (compare a b).isLE) Hash.bytes (entryHashes quorums) fun a _ b _ => rfl
  rw [sortedHashes, hmap, quorumLeaves]
  simp only [entryHashes, List.map_map, List.flatMap, List.map_flatten, Function.comp_def]

theorem length_quorumLeaves (quorums : QuorumMap) :
    (quorumLeaves quorums).length = quorumCount quorums := by
  rw [quorumLeaves_eq, List.length_map, (sortedHashes_perm _).length_eq, length_entryHashes]

/-- Digests that are in order already are the leaves. -/
theorem quorumLeaves_of_pairwise
    (h : (entryHashes quorums).Pairwise fun a b => (compare a b).isLE) :
    quorumLeaves quorums = (entryHashes quorums).map Hash.bytes := by
  rw [quorumLeaves_eq, sortedHashes, List.mergeSort_of_pairwise h]

theorem mem_quorumLeaves {leaf : Merkle.Node} :
    leaf ∈ quorumLeaves quorums ↔ ∃ q ∈ quorums.values.flatten, q.entryHash.bytes = leaf := by
  simp only [quorumLeaves_eq, List.mem_map, (sortedHashes_perm quorums).mem_iff, entryHashes,
    exists_exists_and_eq_and]

/-- The leaves are digests of strings that are too long for a pair. -/
theorem Adopts.exists_of_mem_quorumLeaves (h : list.Adopts diff root next)
    (hlist : list.HasDigests) : ∀ leaf ∈ quorumLeaves next.quorums,
      ∃ string ∈ next.quorums.values.flatten.map (fun q => q.entry.entryPreimage),
        string.length ≠ 64 ∧ sha256d string = leaf := by
  intro leaf hleaf
  obtain ⟨q, hq, rfl⟩ := mem_quorumLeaves.mp hleaf
  refine ⟨q.entry.entryPreimage, List.mem_map_of_mem hq, ?_, ?_⟩
  · exact Nat.ne_of_gt (QuorumEntry.lt_length_entryPreimage (h.isLegacy_eq q hq))
  · rw [(hlist.of_apply h.apply_eq).entryHash_eq q hq]
    rfl

theorem Adopts.quorumLeaves_ne_nil (h : list.Adopts diff root next) :
    quorumLeaves next.quorums ≠ [] := by
  intro hnil
  refine h.quorumCount_ne_zero ?_
  rw [← length_quorumLeaves, hnil]
  rfl

/-! ### Binding -/

/-- **One root, one list of entries up to repetitions,** unless hashed strings collide. -/
theorem Adopts.alike_sortedHashes {diff' : ListDiff} {next' : MasternodeList}
    (h : list.Adopts diff root next) (h' : list.Adopts diff' root next')
    (hlist : list.HasDigests)
    (hcollide : ¬ Collide (quorumStrings next.quorums ++ quorumStrings next'.quorums)) :
    Merkle.Alike (sortedHashes next.quorums) (sortedHashes next'.quorums) := by
  have hroot : quorumRootOf next.quorums = quorumRootOf next'.quorums :=
    h.quorumRootOf_eq.trans h'.quorumRootOf_eq.symm
  have halike : Merkle.Alike (quorumLeaves next.quorums) (quorumLeaves next'.quorums) :=
    Merkle.alike_of_root_eq h.quorumLeaves_ne_nil h'.quorumLeaves_ne_nil
      (h.exists_of_mem_quorumLeaves hlist) (h'.exists_of_mem_quorumLeaves hlist) hcollide
      (congrArg Hash.bytes hroot)
  rw [quorumLeaves_eq, quorumLeaves_eq] at halike
  exact halike.of_map fun a _ b _ hab => Hash.bytes_inj.mp hab

/-- **What two lists with one root have in common.** They hold the same entries, each of them
equally often except for the one with the greatest digest. So they hold the same quorums exactly
when they hold equally many, and in particular when neither holds a quorum twice. All this is so
unless two of the strings that were hashed for the two roots collide. -/
theorem entryHashes_perm_iff {network : Network} {diffs : List ListDiff} {diff' : ListDiff}
    {next' : MasternodeList} (hreach : (empty network).applyAll diffs = .ok list)
    (h : list.Adopts diff root next) (h' : list.Adopts diff' root next') :
    Collide (quorumStrings next.quorums ++ quorumStrings next'.quorums) ∨
      ((entryHashes next.quorums).Perm (entryHashes next'.quorums) ↔
        quorumCount next.quorums = quorumCount next'.quorums) ∧
      ((entryHashes next.quorums).Nodup → (entryHashes next'.quorums).Nodup →
        (entryHashes next.quorums).Perm (entryHashes next'.quorums)) ∧
      (∀ hash, hash ∈ entryHashes next.quorums ↔ hash ∈ entryHashes next'.quorums) ∧
      ∀ hash, ∀ greater ∈ entryHashes next.quorums, compare hash greater = .lt →
        (entryHashes next.quorums).count hash = (entryHashes next'.quorums).count hash := by
  by_cases hcollide : Collide (quorumStrings next.quorums ++ quorumStrings next'.quorums)
  · exact .inl hcollide
  have halike := h.alike_sortedHashes h' (hasDigests_of_applyAll (hasDigests_empty network) hreach)
    hcollide
  have hsorted := sortedHashes_perm next.quorums
  have hsorted' := sortedHashes_perm next'.quorums
  have hmem (hash : QuorumEntryHash) :
      hash ∈ entryHashes next.quorums ↔ hash ∈ entryHashes next'.quorums := by
    rw [← hsorted.mem_iff, ← hsorted'.mem_iff, halike.mem_iff]
  refine .inr ⟨⟨fun hperm => ?_, fun hcount => ?_⟩, fun hnodup hnodup' => ?_, hmem,
    fun hash greater hgreater hlt => ?_⟩
  · rw [← length_entryHashes, ← length_entryHashes, hperm.length_eq]
  · have heq := halike.eq_of_length_eq (by
      rw [hsorted.length_eq, hsorted'.length_eq, length_entryHashes, length_entryHashes, hcount])
    exact hsorted.symm.trans (heq ▸ hsorted')
  · exact (List.perm_ext_iff_of_nodup hnodup hnodup').mpr hmem
  · rw [← hsorted.count_eq, ← hsorted'.count_eq]
    exact halike.count_eq (pairwise_sortedHashes _) (pairwise_sortedHashes _)
      (hsorted.mem_iff.mpr hgreater) hlt

/-! ### A quorum that is there twice -/

/-- Quorums in the full form, numbered by their blocks. -/
def numberedQuorum (n : UInt8) : QuorumEntry :=
  .full {
    version := 1
    type := .llmq50_60
    quorumHash := ⟨FixedBytes.replicate 32 n⟩
    quorumIndex := none
    signersCount := 50
    signers := List.replicate 7 0
    validMembersCount := 50
    validMembers := List.replicate 7 0
    publicKey := FixedBytes.zero 48
    vvecHash := Hash.null
    thresholdSignature := FixedBytes.zero 96
    membersSignature := FixedBytes.zero 96 }

/-- The hash whose bytes are those of a number. -/
def node (n : Nat) : Merkle.Node :=
  ⟨littleEndian 32 n, length_littleEndian 32 n⟩

/-- The digests of the quorums with the numbers three, two and one. -/
def numberedLeaf : UInt8 → Merkle.Node
  | 3 => node 0x479cd7373a385f1c49380735d20a3f98f887b407573e8a1184079b423b73b227
  | 2 => node 0x30945872fe9f2bb54976fa68aa8d2688d33757962f6202bc86bf0a7a099ca436
  | _ => node 0x84eff6595a1e658a1cb77fff6a4684aa54bebed25d482b7c8beb957dd728fc6b

theorem entryHash_numberedQuorum :
    ∀ n ∈ [3, 2, 1], (numberedQuorum n).entryHash = ⟨numberedLeaf n⟩ := by
  decide +kernel

/-- The levels of the tree over the three digests. -/
theorem parents_numberedLeaf :
    Merkle.parents ([3, 2, 1].map numberedLeaf) =
      [node 0x3f3f56c1ae8588e0a16a1a8d2720f5f2c915346cb13fc153737e2c68d328f7c4,
       node 0xf2bd7afb84a2401ec95a2c5413c7ff9724ca559a477f596834564fe2df6cbb1d] ∧
    Merkle.parents
      [node 0x3f3f56c1ae8588e0a16a1a8d2720f5f2c915346cb13fc153737e2c68d328f7c4,
       node 0xf2bd7afb84a2401ec95a2c5413c7ff9724ca559a477f596834564fe2df6cbb1d] =
      [node 0x91fe90f4b6797fded291c206f49f88254fa2dc2b093c3c96cf99da8992bc96d3] := by
  decide +kernel

/-- What the coinbase of the sample commits to: the three quorums and no masternodes. -/
def numberedPayload : CoinbasePayload where
  version := 2
  height := 1
  masternodeRoot := Hash.null
  quorumRoot := ⟨Merkle.root ([3, 2, 1].map numberedLeaf)⟩
  bestChainLockHeight := none
  bestChainLockSignature := none
  assetLockedAmount := none

/-- A difference that brings the quorums with the given numbers. -/
def numberedDiff (numbers : List UInt8) : ListDiff where
  baseBlockHash := Hash.null
  blockHash := ⟨FixedBytes.replicate 32 1⟩
  totalTransactions := 1
  merkleHashes := []
  merkleFlags := []
  coinbaseTx := ⟨3, 0, [], [], some (.coinbase numberedPayload)⟩
  deletedMasternodes := []
  newMasternodes := []
  deletedQuorums := []
  newQuorums := numbers.map numberedQuorum

/-- The quorums that it leads to. -/
def numberedQuorums (numbers : List UInt8) : QuorumMap :=
  applyQuorums .regtest OrderedMap.empty (numberedDiff numbers)

section

variable {numbers : List UInt8} (h : numbers ∈ [[3, 2, 1], [3, 2, 1, 1]])
include h

theorem entryHashes_numberedQuorums :
    entryHashes (numberedQuorums numbers) = numbers.map fun n => ⟨numberedLeaf n⟩ := by
  have hsub : ∀ numbers ∈ [[3, 2, 1], [3, 2, 1, 1]], numbers ⊆ ([3, 2, 1] : List UInt8) := by
    decide
  have hmap : entryHashes (numberedQuorums numbers) =
      numbers.map fun n => (numberedQuorum n).entryHash := by
    simp only [List.mem_cons, List.not_mem_nil, or_false] at h
    rcases h with rfl | rfl <;> rfl
  rw [hmap]
  exact List.map_congr_left fun n hn => entryHash_numberedQuorum n (hsub numbers h hn)

/-- The digests of the quorums are in order already. -/
theorem quorumLeaves_numberedQuorums :
    quorumLeaves (numberedQuorums numbers) = numbers.map numberedLeaf := by
  have hsorted : ∀ numbers ∈ [[3, 2, 1], [3, 2, 1, 1]],
      (numbers.map fun n => (⟨numberedLeaf n⟩ : QuorumEntryHash)).Pairwise
        fun a b => (compare a b).isLE := by
    decide +kernel
  rw [quorumLeaves_of_pairwise, entryHashes_numberedQuorums h, List.map_map]
  · rfl
  · rw [entryHashes_numberedQuorums h]
    exact hsorted numbers h

/-- Nothing else is hashed for the quorum that is there twice. -/
theorem quorumStrings_numberedQuorums_subset :
    quorumStrings (numberedQuorums numbers) ⊆
      [3, 2, 1].map (fun n => (numberedQuorum n).entryPreimage) ++
        Merkle.hashed ([3, 2, 1].map numberedLeaf) := by
  rw [quorumStrings, quorumLeaves_numberedQuorums h]
  simp only [List.mem_cons, List.not_mem_nil, or_false] at h
  rcases h with rfl | rfl
  · exact List.Subset.refl _
  · have hhashed : Merkle.hashed ([3, 2, 1, 1].map numberedLeaf) =
        Merkle.hashed ([3, 2, 1].map numberedLeaf) :=
      Merkle.hashed_repeat_last (numberedLeaf 1)
        (by decide : ([3, 2].map numberedLeaf).length % 2 = 0) (by decide)
    rw [hhashed]
    refine List.append_subset.mpr ⟨?_, List.subset_append_right _ _⟩
    refine List.Subset.trans ?_ (List.subset_append_left _ _)
    change [3, 2, 1, 1].map (fun n => (numberedQuorum n).entryPreimage) ⊆ _
    exact List.map_subset _ (by decide)

variable (numbers) in
/-- The difference is accepted also if it brings the last quorum twice. -/
theorem exists_adopts_numberedDiff : ∃ next,
    (empty .regtest).Adopts (numberedDiff numbers) numberedPayload.quorumRoot next ∧
      next.quorums = numberedQuorums numbers := by
  have hroot : quorumRootOf (numberedQuorums numbers) = numberedPayload.quorumRoot := by
    refine congrArg Hash.mk ?_
    rw [quorumLeaves_numberedQuorums h]
    simp only [List.mem_cons, List.not_mem_nil, or_false] at h
    rcases h with rfl | rfl
    · rfl
    · exact Merkle.root_repeat_last (numberedLeaf 1)
        (by decide : ([3, 2].map numberedLeaf).length % 2 = 0) (by decide)
  have hfull : ∀ numbers ∈ [[3, 2, 1], [3, 2, 1, 1]],
      quorumCount (numberedQuorums numbers) ≠ 0 ∧ hasLegacy (numberedQuorums numbers) = false := by
    decide
  have hpayload : (numberedDiff numbers).coinbasePayload? = some numberedPayload := rfl
  exact exists_adopts hpayload (by decide) masternodeRootOf_empty rfl (hfull numbers h).1
    (hfull numbers h).2 hroot

end

/-- No two of the strings that are hashed for the sample collide. -/
theorem not_collide_numberedQuorums :
    ¬ Collide (quorumStrings (numberedQuorums [3, 2, 1]) ++
      quorumStrings (numberedQuorums [3, 2, 1, 1])) := by
  have hentries : ([3, 2, 1].map fun n => (numberedQuorum n).entryPreimage).map sha256d =
      [3, 2, 1].map numberedLeaf := by
    rw [List.map_map]
    exact List.map_congr_left fun n hn => congrArg Hash.bytes (entryHash_numberedQuorum n hn)
  obtain ⟨hparents, hroot⟩ := parents_numberedLeaf
  intro hcollide
  refine not_collide_of_nodup ?_ (hcollide.mono (List.append_subset.mpr
    ⟨quorumStrings_numberedQuorums_subset (by decide),
      quorumStrings_numberedQuorums_subset (by decide)⟩))
  rw [List.map_append, hentries, Merkle.map_hashed_of_one_lt_length (by decide), hparents,
    Merkle.map_hashed_of_one_lt_length (by decide), hroot,
    Merkle.hashed_of_length_le_one (by decide)]
  decide +kernel

/-- Two differences that commit to one root, of which the second brings a quorum twice. -/
theorem entryHashes_perm_iff_sample : ∃ next next',
    (empty .regtest).applyAll [] = .ok (empty .regtest) ∧
    (empty .regtest).Adopts (numberedDiff [3, 2, 1]) numberedPayload.quorumRoot next ∧
    (empty .regtest).Adopts (numberedDiff [3, 2, 1, 1]) numberedPayload.quorumRoot next' ∧
    (Collide (quorumStrings next.quorums ++ quorumStrings next'.quorums) ∨
      ((entryHashes next.quorums).Perm (entryHashes next'.quorums) ↔
        quorumCount next.quorums = quorumCount next'.quorums) ∧
      ((entryHashes next.quorums).Nodup → (entryHashes next'.quorums).Nodup →
        (entryHashes next.quorums).Perm (entryHashes next'.quorums)) ∧
      (∀ hash, hash ∈ entryHashes next.quorums ↔ hash ∈ entryHashes next'.quorums) ∧
      ∀ hash, ∀ greater ∈ entryHashes next.quorums, compare hash greater = .lt →
        (entryHashes next.quorums).count hash = (entryHashes next'.quorums).count hash) := by
  obtain ⟨next, hnext, -⟩ := exists_adopts_numberedDiff [3, 2, 1] (by decide)
  obtain ⟨next', hnext', -⟩ := exists_adopts_numberedDiff [3, 2, 1, 1] (by decide)
  exact ⟨next, next', rfl, hnext, hnext', entryHashes_perm_iff (applyAll_nil _) hnext hnext'⟩

/-- **A quorum that is added twice is not noticed.** The root does not determine how often the list
holds it, although no strings collide. -/
theorem not_forall_entryHashes_perm :
    ¬ ∀ (network : Network) (diffs : List ListDiff) (list : MasternodeList) (diff diff' : ListDiff)
      (root : QuorumRoot) (next next' : MasternodeList),
      (empty network).applyAll diffs = .ok list → list.Adopts diff root next →
      list.Adopts diff' root next' →
      (entryHashes next.quorums).Perm (entryHashes next'.quorums) ∨
        Collide (quorumStrings next.quorums ++ quorumStrings next'.quorums) := by
  intro hall
  obtain ⟨next, hnext, hquorums⟩ := exists_adopts_numberedDiff [3, 2, 1] (by decide)
  obtain ⟨next', hnext', hquorums'⟩ := exists_adopts_numberedDiff [3, 2, 1, 1] (by decide)
  rcases hall .regtest [] _ _ _ _ next next' rfl hnext hnext' with hperm | hcollide
  · have hlength := hperm.length_eq
    rw [hquorums, hquorums', length_entryHashes, length_entryHashes] at hlength
    exact absurd hlength (by decide)
  · rw [hquorums, hquorums'] at hcollide
    exact not_collide_numberedQuorums hcollide

end MasternodeList

end QuorumFinality
