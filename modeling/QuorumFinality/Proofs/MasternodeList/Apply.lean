import QuorumFinality.MasternodeList.Apply
import QuorumFinality.Proofs.Except

/-!
# What an accepted difference does

`MasternodeList.apply` checks and changes in turns. `apply_cases` says once what an acceptance
amounts to: the masternodes have the declared root, and either the coinbase commits to no quorums
and they stay as they are, or they change and have an acceptable root too. Everything that is known
of an accepted difference is read off from there.

## Main results

* `MasternodeList.acceptQuorumRoot_cases` — when the declared root of the quorums is compared
* `MasternodeList.apply_cases` — the two ways in which a difference is accepted
* `MasternodeList.acceptQuorumRoot_of_apply` — the roots of the quorums after a difference
* `MasternodeList.applyAll_append_eq_ok_iff` — a sequence of differences may be applied in two parts
* `MasternodeList.applyAll_keeps` — what each difference keeps, a sequence keeps
-/

namespace QuorumFinality

namespace MasternodeList

variable {list next last : MasternodeList} {diff : ListDiff} {quorums : QuorumMap}

/-! ### The declared roots -/

theorem acceptMasternodeRoot_eq_ok_iff {masternodes : MasternodeMap}
    {declared root : MasternodeRoot} :
    acceptMasternodeRoot masternodes declared = .ok root ↔
      masternodeRootOf masternodes = declared ∧ root = declared := by
  simp only [acceptMasternodeRoot]
  by_cases h : masternodeRootOf masternodes = declared
  · simp only [h, if_true, Except.ok.injEq, true_and]
    exact eq_comm
  · simp [h]

theorem hasLegacy_eq_false_iff :
    hasLegacy quorums = false ↔ ∀ q ∈ quorums.values.flatten, q.entry.isLegacy = false := by
  simp only [hasLegacy, List.any_eq_false, List.mem_flatten, Bool.not_eq_true]
  exact ⟨fun h q ⟨b, hb, hq⟩ => h b hb q hq, fun h b hb q hq => h q ⟨b, hb, hq⟩⟩

theorem quorumCount_ne_zero_of_hasLegacy (h : hasLegacy quorums = true) :
    quorumCount quorums ≠ 0 := by
  intro hzero
  have hnil : quorums.values.flatten = [] := List.length_eq_zero_iff.mp hzero
  have hnone : hasLegacy quorums = false := hasLegacy_eq_false_iff.mpr (by simp [hnil])
  rw [hnone] at h
  contradiction

/-- **The gate and the comparison.** With an entry in the short form the root is the declared one,
without one it is calculated; and if it is calculated over some quorums, it is also the declared
one. -/
theorem acceptQuorumRoot_cases {declared root : QuorumRoot}
    (h : acceptQuorumRoot quorums declared = .ok root) :
    (hasLegacy quorums = true ∧ root = declared) ∨
      (hasLegacy quorums = false ∧ root = quorumRootOf quorums ∧
        (quorumCount quorums ≠ 0 → quorumRootOf quorums = declared)) := by
  simp only [acceptQuorumRoot] at h
  cases hlegacy : hasLegacy quorums with
  | true =>
    rw [if_neg (quorumCount_ne_zero_of_hasLegacy hlegacy), hlegacy, if_pos rfl] at h
    exact .inl ⟨rfl, (Except.ok.inj h).symm⟩
  | false =>
    refine .inr ⟨rfl, ?_⟩
    by_cases hcount : quorumCount quorums = 0
    · rw [if_pos hcount] at h
      exact ⟨(Except.ok.inj h).symm, fun hne => absurd hcount hne⟩
    · rw [if_neg hcount, hlegacy, if_neg Bool.false_ne_true] at h
      by_cases heq : quorumRootOf quorums = declared
      · rw [if_pos heq] at h
        exact ⟨(Except.ok.inj h).symm, fun _ => heq⟩
      · rw [if_neg heq] at h
        contradiction

/-- Quorums in the full form are refused under a root that is not theirs. -/
theorem acceptQuorumRoot_eq_error {declared : QuorumRoot} (hcount : quorumCount quorums ≠ 0)
    (hlegacy : hasLegacy quorums = false) (hne : quorumRootOf quorums ≠ declared) :
    acceptQuorumRoot quorums declared =
      .error (.quorumRootMismatch declared (quorumRootOf quorums)) := by
  simp [acceptQuorumRoot, hcount, hlegacy, hne]

/-- No quorums and any quorum in the short form are accepted under every root. -/
theorem exists_acceptQuorumRoot_of_gate (declared : QuorumRoot)
    (hgate : quorumCount quorums = 0 ∨ hasLegacy quorums = true) :
    ∃ root, acceptQuorumRoot quorums declared = .ok root := by
  by_cases hcount : quorumCount quorums = 0
  · exact ⟨quorumRootOf quorums, if_pos hcount⟩
  · have hlegacy : hasLegacy quorums = true := hgate.resolve_left hcount
    exact ⟨declared, (if_neg hcount).trans (if_pos hlegacy)⟩

/-! ### One difference -/

/-- **What acceptance amounts to.** The list is moved to the block of the difference and gets its
masternodes, whose root is the declared one. The quorums change only if the coinbase commits to
them. -/
theorem apply_cases (h : list.apply diff = .ok next) :
    ∃ payload, diff.coinbasePayload? = some payload ∧
      masternodeRootOf (applyMasternodes list.masternodes diff) = payload.masternodeRoot ∧
      ((payload.hasQuorums = false ∧
          next = { list.advance diff payload with
            masternodes := applyMasternodes list.masternodes diff
            masternodeRoot := payload.masternodeRoot }) ∨
        ∃ quorumRoot, payload.hasQuorums = true ∧
          acceptQuorumRoot (applyQuorums list.network list.quorums diff) payload.quorumRoot =
            .ok quorumRoot ∧
          next = { list.advance diff payload with
            masternodes := applyMasternodes list.masternodes diff
            masternodeRoot := payload.masternodeRoot
            quorums := applyQuorums list.network list.quorums diff
            quorumRoot
            declaredQuorumRoot := payload.quorumRoot }) := by
  unfold apply at h
  cases hp : diff.coinbasePayload? with
  | none => simp [hp] at h
  | some payload =>
    simp only [hp] at h
    obtain ⟨root, hroot, h⟩ := bind_eq_ok_iff.mp h
    obtain ⟨hdeclared, rfl⟩ := acceptMasternodeRoot_eq_ok_iff.mp hroot
    refine ⟨payload, rfl, hdeclared, ?_⟩
    cases hq : payload.hasQuorums with
    | false =>
      simp only [hq] at h
      exact .inl ⟨rfl, (Except.ok.inj h).symm⟩
    | true =>
      simp only [hq] at h
      obtain ⟨quorumRoot, haccept, h⟩ := bind_eq_ok_iff.mp h
      exact .inr ⟨quorumRoot, rfl, haccept, (Except.ok.inj h).symm⟩

/-- After a difference that commits to quorums the list notes the declared root, and its own root is
the one that is accepted for its quorums under that root. -/
theorem acceptQuorumRoot_of_apply {payload : CoinbasePayload}
    (hpayload : diff.coinbasePayload? = some payload) (hversion : 2 ≤ payload.version.toNat)
    (h : list.apply diff = .ok next) :
    next.declaredQuorumRoot = payload.quorumRoot ∧
      acceptQuorumRoot next.quorums payload.quorumRoot = .ok next.quorumRoot := by
  obtain ⟨payload', hpayload', -, hcases⟩ := apply_cases h
  obtain rfl : payload = payload' := Option.some.inj (hpayload.symm.trans hpayload')
  obtain ⟨hnone, -⟩ | ⟨quorumRoot, -, haccept, rfl⟩ := hcases
  · simp [CoinbasePayload.hasQuorums, hversion] at hnone
  · exact ⟨rfl, haccept⟩

/-- A difference that commits to quorums and declares the right root of the masternodes is accepted
or refused for the root of the quorums alone. -/
theorem apply_eq_map {payload : CoinbasePayload} (hpayload : diff.coinbasePayload? = some payload)
    (hversion : 2 ≤ payload.version.toNat)
    (hmasternodes : masternodeRootOf (applyMasternodes list.masternodes diff) =
      payload.masternodeRoot) :
    list.apply diff =
      (acceptQuorumRoot (applyQuorums list.network list.quorums diff) payload.quorumRoot).map
        fun quorumRoot => { list.advance diff payload with
          masternodes := applyMasternodes list.masternodes diff
          masternodeRoot := payload.masternodeRoot
          quorums := applyQuorums list.network list.quorums diff
          quorumRoot
          declaredQuorumRoot := payload.quorumRoot } := by
  simp only [apply, hpayload, acceptMasternodeRoot_eq_ok_iff.mpr ⟨hmasternodes, rfl⟩,
    CoinbasePayload.hasQuorums, hversion, decide_true, if_true]
  cases acceptQuorumRoot (applyQuorums list.network list.quorums diff) payload.quorumRoot <;> rfl

/-- The height of a list is that of its block. -/
theorem height?_of_apply (h : list.apply diff = .ok next) : diff.height? = some next.height := by
  obtain ⟨payload, hp, -, ⟨-, rfl⟩ | ⟨_, -, -, rfl⟩⟩ := apply_cases h <;>
    simp [ListDiff.height?, hp, advance]

theorem blockHash_of_apply (h : list.apply diff = .ok next) :
    next.blockHash = diff.blockHash := by
  obtain ⟨payload, -, -, ⟨-, rfl⟩ | ⟨_, -, -, rfl⟩⟩ := apply_cases h <;> rfl

theorem network_of_apply (h : list.apply diff = .ok next) : next.network = list.network := by
  obtain ⟨payload, -, -, ⟨-, rfl⟩ | ⟨_, -, -, rfl⟩⟩ := apply_cases h <;> rfl

/-! ### The masternodes after a difference -/

/-- No masternodes have the null root. -/
theorem masternodeRootOf_empty : masternodeRootOf OrderedMap.empty = Hash.null := by
  rw [masternodeRootOf, masternodeLeaves]
  exact congrArg Hash.mk Merkle.root.eq_1

/-- Masternodes leave or arrive with their own digests; nothing else becomes of them. -/
theorem forall_mem_applyMasternodes {masternodes : MasternodeMap}
    {P : ProTxHash × Masternode → Prop} (h : ∀ e ∈ masternodes.entries, P e)
    (harrives : ∀ entry, P (entry.proTxHash, Masternode.ofEntry entry)) (diff : ListDiff) :
    ∀ e ∈ (applyMasternodes masternodes diff).entries, P e := by
  have hkept (keys : List ProTxHash) {m : MasternodeMap} (h : ∀ e ∈ m.entries, P e) :
      ∀ e ∈ (keys.foldl (fun map key => map.erase key) m).entries, P e := by
    induction keys generalizing m with
    | nil => exact h
    | cons key keys ih => exact ih fun e he => h e (List.mem_filter.mp he).1
  have hset (entries : List MasternodeEntry) {m : MasternodeMap} (h : ∀ e ∈ m.entries, P e) :
      ∀ e ∈ (entries.foldl
        (fun map entry => map.insert entry.proTxHash (Masternode.ofEntry entry)) m).entries,
        P e := by
    induction entries generalizing m with
    | nil => exact h
    | cons entry entries ih =>
      refine ih fun e he => ?_
      rcases OrderedMap.mem_insertEntry he with rfl | he
      · exact harrives entry
      · exact h e he
  exact hset diff.newMasternodes (hkept diff.deletedMasternodes h)

/-! ### Sequences of differences -/

@[simp] theorem applyAll_nil (list : MasternodeList) : list.applyAll [] = .ok list := rfl

theorem applyAll_cons (list : MasternodeList) (diff : ListDiff) (diffs : List ListDiff) :
    list.applyAll (diff :: diffs) = list.apply diff >>= fun next => next.applyAll diffs :=
  List.foldlM_cons

theorem applyAll_cons_eq_ok_iff {diffs : List ListDiff} :
    list.applyAll (diff :: diffs) = .ok last ↔
      ∃ next, list.apply diff = .ok next ∧ next.applyAll diffs = .ok last := by
  rw [applyAll_cons, bind_eq_ok_iff]

/-- A sequence of differences may be applied in two parts. -/
theorem applyAll_append_eq_ok_iff {diffs diffs' : List ListDiff} :
    list.applyAll (diffs ++ diffs') = .ok last ↔
      ∃ next, list.applyAll diffs = .ok next ∧ next.applyAll diffs' = .ok last := by
  simp only [applyAll, List.foldlM_append, bind_eq_ok_iff]

theorem applyAll_concat_eq_ok_iff {diffs : List ListDiff} :
    list.applyAll (diffs ++ [diff]) = .ok last ↔
      ∃ next, list.applyAll diffs = .ok next ∧ next.apply diff = .ok last := by
  simp only [applyAll_append_eq_ok_iff, applyAll_cons_eq_ok_iff, applyAll_nil, Except.ok.injEq,
    exists_eq_right]

/-- **What each difference keeps, a sequence keeps.** -/
theorem applyAll_keeps {P : MasternodeList → Prop}
    (hstep : ∀ list diff next, P list → apply list diff = .ok next → P next)
    {diffs : List ListDiff} (hlist : P list) (h : list.applyAll diffs = .ok last) : P last := by
  induction diffs generalizing list with
  | nil => rwa [← Except.ok.inj h]
  | cons diff diffs ih =>
    obtain ⟨next, hnext, hlast⟩ := applyAll_cons_eq_ok_iff.mp h
    exact ih (hstep list diff next hlist hnext) hlast

theorem network_of_applyAll {diffs : List ListDiff} (h : list.applyAll diffs = .ok last) :
    last.network = list.network := by
  refine applyAll_keeps (P := fun l => l.network = list.network) ?_ rfl h
  intro l diff next hl hnext
  rw [network_of_apply hnext, hl]

/-- Each of a sequence of accepted differences has a height. -/
theorem exists_height?_of_applyAll {diffs : List ListDiff} (h : list.applyAll diffs = .ok last) :
    ∀ d ∈ diffs, ∃ height, d.height? = some height := by
  induction diffs generalizing list with
  | nil => simp
  | cons diff diffs ih =>
    obtain ⟨next, hnext, hlast⟩ := applyAll_cons_eq_ok_iff.mp h
    exact List.forall_mem_cons.mpr ⟨⟨next.height, height?_of_apply hnext⟩, ih hlast⟩

/-- The height and the block after a sequence are those of its last difference. -/
theorem height?_of_applyAll_concat {diffs : List ListDiff}
    (h : list.applyAll (diffs ++ [diff]) = .ok last) :
    diff.height? = some last.height ∧ last.blockHash = diff.blockHash := by
  obtain ⟨next, -, hlast⟩ := applyAll_concat_eq_ok_iff.mp h
  exact ⟨height?_of_apply hlast, blockHash_of_apply hlast⟩

end MasternodeList

end QuorumFinality
