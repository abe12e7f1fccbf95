import QuorumFinality.Proofs.MasternodeList.Apply
import QuorumFinality.Proofs.Merkle.Binding

/-!
# What the root of the masternodes commits to

The leaves of the tree over the masternodes are the digests of their wire forms, in the order of the
registrations. A wire form starts with the registration and has 151 bytes: so no leaf is repeated,
and none can pass for a pair of hashes. Both ways in which different lists can share a Merkle root
are closed, and what is left is a collision among the strings that were hashed.

A wire form is not the whole entry: a registration that is not confirmed is written like one that
is confirmed by the null hash. The root cannot tell these apart.

## Main definitions

* `MasternodeList.IsKeyed` — each masternode stands under its registration with its own digest
* `MasternodeList.registered` — the registrations with the wire forms
* `MasternodeList.masternodeStrings` — what is hashed for the root

## Main results

* `MasternodeList.isKeyed_of_applyAll` — differences lead to nothing else
* `MasternodeList.registered_eq_or_collide` — one root, one list of masternodes
-/

namespace QuorumFinality

/-! ### The wire form of an entry -/

namespace MasternodeEntry

theorem encode_eq_append (e : MasternodeEntry) :
    ∃ rest : Bytes, rest.length = 119 ∧ Wire.encode e = e.proTxHash.bytes.toList ++ rest := by
  refine ⟨Wire.encode (e.confirmedHash.getD Hash.null) ++ (Wire.encode e.service ++
    (Wire.encode e.operatorKey ++ (Wire.encode e.votingKeyId ++ Wire.encode e.isValid))), ?_, ?_⟩
  · simp [Wire.encode, FixedBytes.length_toList]
  · simp [Wire.encode]

theorem length_encode (e : MasternodeEntry) : (Wire.encode e).length = 151 := by
  obtain ⟨rest, hrest, hencode⟩ := e.encode_eq_append
  rw [hencode, List.length_append, FixedBytes.length_toList, hrest]

/-- Entries with one wire form have one registration. -/
theorem proTxHash_eq_of_encode_eq {e e' : MasternodeEntry} (h : Wire.encode e = Wire.encode e') :
    e.proTxHash = e'.proTxHash := by
  obtain ⟨rest, -, hencode⟩ := e.encode_eq_append
  obtain ⟨rest', -, hencode'⟩ := e'.encode_eq_append
  rw [hencode, hencode'] at h
  have hbytes := (List.append_inj h (by simp only [FixedBytes.length_toList])).1
  exact Hash.bytes_inj.mp (FixedBytes.ext hbytes)

end MasternodeEntry

namespace MasternodeList

/-! ### Masternodes under their registrations -/

/-- Each masternode stands under its registration and is kept with the digest of its entry. -/
def IsKeyed (masternodes : MasternodeMap) : Prop :=
  ∀ e ∈ masternodes.entries, e.1 = e.2.entry.proTxHash ∧ e.2.entryHash = e.2.entry.entryHash

variable {m m' : MasternodeMap}

theorem IsKeyed.insert (h : IsKeyed m) (entry : MasternodeEntry) :
    IsKeyed (m.insert entry.proTxHash (Masternode.ofEntry entry)) := by
  intro e he
  rcases OrderedMap.mem_insertEntry he with rfl | he
  · exact ⟨rfl, rfl⟩
  · exact h e he

theorem IsKeyed.applyMasternodes (h : IsKeyed m) (diff : ListDiff) :
    IsKeyed (applyMasternodes m diff) :=
  forall_mem_applyMasternodes h (fun _ => ⟨rfl, rfl⟩) diff

theorem isKeyed_empty : IsKeyed OrderedMap.empty := by
  intro e he
  simp [OrderedMap.empty] at he

/-- **Differences keep masternodes under their registrations,** with their own digests. -/
theorem isKeyed_of_applyAll {list last : MasternodeList} {diffs : List ListDiff}
    (h : list.applyAll diffs = .ok last) (hkeyed : IsKeyed list.masternodes) :
    IsKeyed last.masternodes := by
  refine applyAll_keeps (P := fun l => IsKeyed l.masternodes) ?_ hkeyed h
  intro l diff next hl hnext
  obtain ⟨payload, -, -, ⟨-, rfl⟩ | ⟨_, -, -, rfl⟩⟩ := apply_cases hnext <;>
    exact hl.applyMasternodes diff

/-! ### Binding -/

/-- The registrations in order, each with the wire form of its entry. -/
def registered (masternodes : MasternodeMap) : List (ProTxHash × Bytes) :=
  masternodes.entries.map fun e => (e.1, Wire.encode e.2.entry)

/-- What is hashed while the root over masternodes is computed: their wire forms, and the pairs of
the tree. -/
def masternodeStrings (masternodes : MasternodeMap) : List Bytes :=
  (registered masternodes).map Prod.snd ++ Merkle.hashed (masternodeLeaves masternodes)

/-- No registration stands twice in a map. -/
theorem nodup_registered (m : MasternodeMap) : (registered m).Nodup := by
  refine List.pairwise_map.mpr (m.sorted.imp fun {a b} hlt heq => ?_)
  rw [(Prod.mk.inj heq).1, Std.ReflOrd.compare_self] at hlt
  contradiction

theorem IsKeyed.masternodeLeaves_eq (h : IsKeyed m) :
    masternodeLeaves m = (registered m).map fun e => sha256d e.2 := by
  simp only [masternodeLeaves, OrderedMap.values, registered, List.map_map]
  refine List.map_congr_left fun e he => ?_
  simp only [Function.comp_apply, (h e he).2]
  rfl

/-- A wire form belongs to one registration. -/
theorem IsKeyed.eq_of_snd_eq (h : IsKeyed m) (h' : IsKeyed m') :
    ∀ e ∈ registered m, ∀ e' ∈ registered m', e.2 = e'.2 → e = e' := by
  intro e he e' he' heq
  obtain ⟨kept, hkept, rfl⟩ := List.mem_map.mp he
  obtain ⟨kept', hkept', rfl⟩ := List.mem_map.mp he'
  refine Prod.ext ?_ heq
  rw [(h kept hkept).1, (h' kept' hkept').1]
  exact MasternodeEntry.proTxHash_eq_of_encode_eq heq

/-- The leaves are digests of strings that are too long for a pair. -/
theorem IsKeyed.exists_of_mem_masternodeLeaves (h : IsKeyed m) :
    ∀ leaf ∈ masternodeLeaves m,
      ∃ string ∈ (registered m).map Prod.snd, string.length ≠ 64 ∧ sha256d string = leaf := by
  intro leaf hleaf
  rw [h.masternodeLeaves_eq] at hleaf
  obtain ⟨e, he, rfl⟩ := List.mem_map.mp hleaf
  refine ⟨e.2, List.mem_map_of_mem he, ?_, rfl⟩
  obtain ⟨kept, -, rfl⟩ := List.mem_map.mp he
  rw [MasternodeEntry.length_encode]
  decide

/-- **One root, one list of masternodes.** Maps of any two sizes that have one root hold the same
registrations with the same wire forms in the same order, or two of the strings that were hashed
for the two roots collide. -/
theorem registered_eq_or_collide (h : IsKeyed m) (h' : IsKeyed m') (hne : m.entries ≠ [])
    (hne' : m'.entries ≠ []) (hroot : masternodeRootOf m = masternodeRootOf m') :
    registered m = registered m' ∨ Collide (masternodeStrings m ++ masternodeStrings m') := by
  by_cases hcollide : Collide (masternodeStrings m ++ masternodeStrings m')
  · exact .inr hcollide
  have halike : Merkle.Alike (masternodeLeaves m) (masternodeLeaves m') :=
    Merkle.alike_of_root_eq (by simpa [masternodeLeaves, OrderedMap.values] using hne)
      (by simpa [masternodeLeaves, OrderedMap.values] using hne')
      h.exists_of_mem_masternodeLeaves h'.exists_of_mem_masternodeLeaves hcollide
      (congrArg Hash.bytes hroot)
  rw [h.masternodeLeaves_eq, h'.masternodeLeaves_eq] at halike
  have halike : Merkle.Alike (registered m) (registered m') := by
    refine halike.of_map fun e he e' he' heq => h.eq_of_snd_eq h' e he e' he' ?_
    exact eq_of_not_collide hcollide
      (List.mem_append_left _ (List.mem_append_left _ (List.mem_map_of_mem he)))
      (List.mem_append_right _ (List.mem_append_left _ (List.mem_map_of_mem he'))) heq
  exact .inl (halike.eq_of_nodup (nodup_registered m) (nodup_registered m'))

/-- Three masternodes, all of them confirmed by one block or none of them confirmed. -/
def threeMasternodes (confirmedHash : Option ConfirmedHash) : MasternodeMap :=
  let entry (n : UInt8) : MasternodeEntry :=
    { proTxHash := ⟨FixedBytes.replicate 32 n⟩
      confirmedHash
      service := ⟨.v4 (FixedBytes.replicate 4 n), 9999⟩
      operatorKey := FixedBytes.replicate 48 n
      votingKeyId := FixedBytes.zero 20
      isValid := true }
  [3, 1, 2].foldl
    (fun map n => map.insert (entry n).proTxHash (Masternode.ofEntry (entry n))) OrderedMap.empty

/-- Two different maps with one root: the null hash is written like no hash. -/
theorem registered_eq_or_collide_sample :
    threeMasternodes none ≠ threeMasternodes (some Hash.null) ∧
      IsKeyed (threeMasternodes none) ∧ IsKeyed (threeMasternodes (some Hash.null)) ∧
      (threeMasternodes none).entries ≠ [] ∧ (threeMasternodes (some Hash.null)).entries ≠ [] ∧
      masternodeRootOf (threeMasternodes none) =
        masternodeRootOf (threeMasternodes (some Hash.null)) ∧
      (registered (threeMasternodes none) = registered (threeMasternodes (some Hash.null)) ∨
        Collide (masternodeStrings (threeMasternodes none) ++
          masternodeStrings (threeMasternodes (some Hash.null)))) := by
  have hkeyed (confirmedHash : Option ConfirmedHash) : IsKeyed (threeMasternodes confirmedHash) :=
    ((isKeyed_empty.insert _).insert _).insert _
  have hne : (threeMasternodes none).entries ≠ [] := by decide +kernel
  have hne' : (threeMasternodes (some Hash.null)).entries ≠ [] := by decide +kernel
  have hforms : registered (threeMasternodes none) =
      registered (threeMasternodes (some Hash.null)) := by decide +kernel
  have hroot : masternodeRootOf (threeMasternodes none) =
      masternodeRootOf (threeMasternodes (some Hash.null)) := by
    simp only [masternodeRootOf, (hkeyed _).masternodeLeaves_eq, hforms]
  exact ⟨by decide +kernel, hkeyed _, hkeyed _, hne, hne', hroot,
    registered_eq_or_collide (hkeyed _) (hkeyed _) hne hne' hroot⟩

end MasternodeList

end QuorumFinality
