import QuorumFinality.Proofs.Lock.Outcome
import QuorumFinality.Proofs.Store.Interleaving
import QuorumFinality.Proofs.Store.Window

/-!
# What a longer window changes

Of two stores of one network that are told the same, the one that may keep more lists has another
base and other pending differences. Still both accept the same differences, because all that counts
for this is the latest list, and that is a replay of the history. The same goes for every list that
both keep.

So a longer window only adds answers. A lock for which the shorter window is long enough gets the
same answer, height by height: a height that the shorter window holds is held by the longer one,
with the same list. Where the shorter window ends the check with an error, nothing is said about the
longer one, which may go on and find the lock signed or refused.

## Main definitions

* `Store.Recalls` — a store has accepted the differences of a history and no others

## Main results

* `Store.Recalls.addDiff_cases` — a difference that is added to two stores with one history
* `Store.build_cases_of_limits` — differences that two stores are built from
* `Store.Reached.run_eq` — a run of two stores with one history
* `Store.Reached.listAtHeight_of_le` — a list that the shorter window holds
* `Store.Reached.isValid_eq_ok_of_le` — an answer that the shorter window gives
* `Store.build_and_isValid_of_le` — a longer window never changes an answer
-/

namespace QuorumFinality

open MasternodeList SignedLock

/-- If the trials come to the same unless the first store refuses a question, then so do the checks:
a check goes on after the same trials and ends with the same one. -/
theorem SignedLock.checkAt_eq_of_attempt {scheme : SignatureScheme} {lock : SignedLock}
    {s s' : Store} {height : UInt32}
    (h : ∀ offset, (∃ error, lock.attempt scheme s height offset = .error (.list error)) ∨
      lock.attempt scheme s' height offset = lock.attempt scheme s height offset)
    (first : Nat) (others : List Nat) :
    (∃ error, lock.checkAt scheme s height first others = .error (.list error)) ∨
      lock.checkAt scheme s' height first others = lock.checkAt scheme s height first others := by
  induction others generalizing first with
  | nil => exact h first
  | cons second others ih =>
    by_cases hrefuses : Refuses (lock.attempt scheme s height first)
    · rw [checkAt_of_refuses hrefuses]
      obtain ⟨error, herror⟩ | heq := h first
      · exact absurd herror (hrefuses.ne_list error)
      · rw [checkAt_of_refuses (heq ▸ hrefuses)]
        exact ih second
    · rw [checkAt_of_not_refuses hrefuses]
      refine (h first).imp_right fun heq => ?_
      rw [checkAt_of_not_refuses (heq ▸ hrefuses), heq]

namespace Store

/-- The store has accepted the differences of the history and no others: those that are not pending
any more have been folded into its base. -/
def Recalls (config : StoreConfig) (history : List ListDiff) (s : Store) : Prop :=
  ∃ folded, history = folded ++ s.pending ∧ Remembers config folded s

variable {scheme : SignatureScheme} {config config' : StoreConfig} {history : List ListDiff}
  {s s' : Store}

theorem Reached.recalls (h : Reached scheme config history s) : Recalls config history s :=
  h.remembers

/-! ### One history -/

/-- The latest list is a replay of the history, up to statuses. -/
theorem Recalls.exists_replay (h : Recalls config history s) : ∃ list,
    (MasternodeList.empty config.network).applyAll history = .ok list ∧
      list.forget = s.tip.forget := by
  obtain ⟨folded, rfl, hs⟩ := h
  obtain ⟨list, hlist, hforget⟩ := hs.tip_eq
  exact ⟨list, applyAll_append_eq_ok_iff.mpr ⟨s.base, hs.base_eq, hlist⟩, hforget⟩

/-- Stores with one history have one latest list. -/
theorem Recalls.forget_tip_eq (h : Recalls config history s) (h' : Recalls config' history s')
    (hnetwork : config.network = config'.network) : s.tip.forget = s'.tip.forget := by
  obtain ⟨list, hlist, hforget⟩ := h.exists_replay
  obtain ⟨list', hlist', hforget'⟩ := h'.exists_replay
  rw [hnetwork, hlist'] at hlist
  rw [← hforget, ← hforget', Except.ok.inj hlist]

/-- A difference that extends the latest list is accepted, and is the last one of the history. -/
theorem Recalls.addDiff_of_apply (h : Recalls config history s) {diff : ListDiff}
    (hbase : diff.baseBlockHash = s.tip.blockHash) {tip : MasternodeList}
    (htip : s.tip.apply diff = .ok tip) :
    ∃ next, s.addDiff diff = (next, .ok ()) ∧ Recalls config (history ++ [diff]) next := by
  obtain ⟨folded, rfl, hs⟩ := h
  obtain ⟨_, -, hnot⟩ | ⟨folded', next, hnext, -, -, hpending, hnextRemembers⟩ :=
    hs.addDiff_cases diff
  · exact absurd ⟨hbase, tip, htip⟩ hnot
  · exact ⟨next, hnext, folded', hpending.symm, hnextRemembers⟩

/-- **A difference that is added to two stores with one history** is refused by both, for the same
reason, or accepted by both, and then they have one history again. -/
theorem Recalls.addDiff_cases (h : Recalls config history s) (h' : Recalls config' history s')
    (hnetwork : config.network = config'.network) (diff : ListDiff) :
    (∃ error, s.addDiff diff = (s, .error error) ∧ s'.addDiff diff = (s', .error error)) ∨
      ∃ next next', s.addDiff diff = (next, .ok ()) ∧ s'.addDiff diff = (next', .ok ()) ∧
        Recalls config (history ++ [diff]) next ∧ Recalls config' (history ++ [diff]) next' := by
  have hforget := h.forget_tip_eq h' hnetwork
  have hblock : s.tip.blockHash = s'.tip.blockHash := by
    rw [← blockHash_forget, hforget, blockHash_forget]
  have happly : (s.tip.apply diff).map MasternodeList.forget =
      (s'.tip.apply diff).map MasternodeList.forget := by
    rw [forget_apply, hforget, ← forget_apply]
  by_cases hbase : diff.baseBlockHash = s.tip.blockHash
  · obtain ⟨error, herror, herror'⟩ | ⟨tip, tip', htip, htip', -⟩ := map_eq_map_iff.mp happly
    · exact .inl ⟨error, by simp [addDiff, hbase, herror],
        by simp [addDiff, hbase, hblock, herror']⟩
    · obtain ⟨next, hnext, hrecalls⟩ := h.addDiff_of_apply hbase htip
      obtain ⟨next', hnext', hrecalls'⟩ := h'.addDiff_of_apply (hbase.trans hblock) htip'
      exact .inr ⟨next, next', hnext, hnext', hrecalls, hrecalls'⟩
  · refine .inl ⟨.notContiguous s.tip.blockHash diff.baseBlockHash, by simp [addDiff, hbase], ?_⟩
    rw [hblock] at hbase ⊢
    simp [addDiff, hbase]

/-- Differences that are added one after another. -/
theorem Recalls.addDiffs_cases (h : Recalls config history s) (h' : Recalls config' history s')
    (hnetwork : config.network = config'.network) (diffs : List ListDiff) :
    (∃ error, s.addDiffs diffs = .error error ∧ s'.addDiffs diffs = .error error) ∨
      ∃ next next', s.addDiffs diffs = .ok next ∧ s'.addDiffs diffs = .ok next' := by
  induction diffs generalizing history s s' with
  | nil => exact .inr ⟨s, s', rfl, rfl⟩
  | cons diff rest ih =>
    unfold Store.addDiffs
    obtain ⟨error, herror, herror'⟩ | ⟨next, next', hnext, hnext', hrecalls, hrecalls'⟩ :=
      h.addDiff_cases h' hnetwork diff
    · rw [herror, herror']
      exact .inl ⟨error, rfl, rfl⟩
    · rw [hnext, hnext']
      exact ih hrecalls hrecalls'

/-- **Differences that two stores are built from.** If both limits are high enough, then both
attempts fail for the same reason, or both succeed. -/
theorem build_cases_of_limits {network : Network} {limit limit' : UInt64}
    (hlimit : StoreConfig.minLists ≤ limit.toNat) (hlimit' : StoreConfig.minLists ≤ limit'.toNat)
    (diffs : List ListDiff) :
    (∃ error, build ⟨network, limit⟩ diffs = .error error ∧
        build ⟨network, limit'⟩ diffs = .error error) ∨
      ∃ s s', build ⟨network, limit⟩ diffs = .ok s ∧ build ⟨network, limit'⟩ diffs = .ok s' := by
  have hvalid : StoreConfig.validate ⟨network, limit⟩ = .ok () := if_neg (Nat.not_lt.mpr hlimit)
  have hvalid' : StoreConfig.validate ⟨network, limit'⟩ = .ok () := if_neg (Nat.not_lt.mpr hlimit')
  simp only [build, hvalid, hvalid']
  by_cases hlength : diffs.length < StoreConfig.minLists
  · simp only [if_pos hlength]
    exact .inl ⟨_, rfl, rfl⟩
  · simp only [if_neg hlength]
    cases diffs with
    | nil => exact .inl ⟨_, rfl, rfl⟩
    | cons first rest =>
      dsimp only
      cases hbase : ofDiff first network with
      | error error => exact .inl ⟨error, rfl, rfl⟩
      | ok base =>
        have hrecalls (limit : UInt64) : Recalls ⟨network, limit⟩ [first]
            { config := ⟨network, limit⟩, base, diffs := [], tip := base } :=
          ⟨[first], rfl, remembers_of_ofDiff hbase⟩
        exact (hrecalls limit).addDiffs_cases (hrecalls limit') rfl rest

/-! ### Runs -/

/-- An operation on two stores with one history. -/
theorem Reached.step_eq (h : Reached scheme config history s)
    (h' : Reached scheme config' history s') (hnetwork : config.network = config'.network)
    (diff : ListDiff) : (s.addDiff diff).2 = (s'.addDiff diff).2 ∧
      s.accepted (.add diff) = s'.accepted (.add diff) := by
  obtain ⟨error, herror, herror'⟩ | ⟨next, next', hnext, hnext', -⟩ :=
    h.recalls.addDiff_cases h'.recalls hnetwork diff
  · simp only [accepted, herror, herror', and_self]
  · simp only [accepted, hnext, hnext', and_self]

/-- **A run of two stores with one history.** Each difference meets the same fate, so they have one
history in the end. -/
theorem Reached.run_eq (h : Reached scheme config history s)
    (h' : Reached scheme config' history s') (hnetwork : config.network = config'.network)
    (ops : List Op) :
    s.addResults scheme ops = s'.addResults scheme ops ∧
      s.acceptedAll scheme ops = s'.acceptedAll scheme ops := by
  induction ops generalizing history s s' with
  | nil => exact ⟨rfl, rfl⟩
  | cons op ops ih =>
    cases op with
    | add diff =>
      obtain ⟨hresult, haccepted⟩ := h.step_eq h' hnetwork diff
      have hstep' := h'.step (.add diff)
      rw [← haccepted] at hstep'
      obtain ⟨hresults, hrest⟩ := ih (h.step (.add diff)) hstep'
      exact ⟨congrArg₂ List.cons hresult hresults, congrArg₂ (· ++ ·) haccepted hrest⟩
    | verify => exact ih (h.step .verify) (h'.step .verify)

/-! ### Windows of one history -/

/-- Stores with one history have one latest height. -/
theorem Reached.tipHeight_eq (h : Reached scheme config history s)
    (h' : Reached scheme config' history s') (hnetwork : config.network = config'.network) :
    s.tipHeight = s'.tipHeight := by
  rw [tipHeight, ← height_forget, h.recalls.forget_tip_eq h'.recalls hnetwork, height_forget,
    tipHeight]

/-- **The longer window ends with the shorter one.** -/
theorem Reached.heights_suffix (h : Reached scheme config history s)
    (h' : Reached scheme config' history s') (hle : config.maxLists ≤ config'.maxLists) :
    s.heights <:+ s'.heights := by
  have hlength : s.heights.length ≤ s'.heights.length := by
    rw [UInt64.le_iff_toNat_le] at hle
    rw [h.length_heights, h'.length_heights]
    omega
  obtain ⟨folded, hhistory, hs⟩ := h.recalls
  obtain ⟨folded', hhistory', hs'⟩ := h'.recalls
  obtain ⟨init, -, hheights⟩ := hs.filterMap_height?
  obtain ⟨init', -, hheights'⟩ := hs'.filterMap_height?
  rw [← hhistory] at hheights
  rw [← hhistory'] at hheights'
  exact List.suffix_of_suffix_length_le ⟨init, hheights.symm⟩ ⟨init', hheights'.symm⟩ hlength

/-- So it begins no later, if the heights ascend. -/
theorem Reached.baseHeight_le (h : Reached scheme config history s)
    (h' : Reached scheme config' history s') (hle : config.maxLists ≤ config'.maxLists)
    (hasc : Ascending history) : s'.baseHeight ≤ s.baseHeight := by
  have hmem : s.baseHeight ∈ s'.heights := (h.heights_suffix h' hle).subset (by simp [heights])
  obtain ⟨folded, rfl, hs⟩ := h'.recalls
  obtain ⟨hfirst, -⟩ := List.pairwise_cons.mp (hs.pairwise_heights hasc)
  rcases List.mem_cons.mp hmem with heq | hmem
  · exact UInt32.le_of_eq heq.symm
  · exact UInt32.le_of_lt (hfirst _ hmem)

/-! ### Answers of the shorter window -/

section Answers

variable (h : Reached scheme config history s)
  (h' : Reached scheme config' history s') (hnetwork : config.network = config'.network)
  (hle : config.maxLists ≤ config'.maxLists) (hasc : Ascending history)

include h h' hnetwork hle hasc

/-- **A list that the shorter window holds** is held by the longer one: both are the replay of one
history as far as the height. -/
theorem Reached.listAtHeight_of_le {height : UInt32} (hin : ¬ s.IsOutside height) :
    ∃ list list', s.listAtHeight height = .ok list ∧ s'.listAtHeight height = .ok list' ∧
      list.forget = list'.forget := by
  simp only [IsOutside, not_or, UInt32.not_lt] at hin
  have hbase' : s'.baseHeight ≤ height := UInt32.le_trans (h.baseHeight_le h' hle hasc) hin.1
  have htip' : height ≤ s'.tipHeight := by
    rw [← h.tipHeight_eq h' hnetwork]
    exact hin.2
  obtain ⟨held, list, hheld, hlist, hforget⟩ := h.exists_holds hasc hin.1 hin.2
  obtain ⟨held', list', hheld', hlist', hforget'⟩ := h'.exists_holds hasc hbase' htip'
  refine ⟨list, list', hlist, hlist', ?_⟩
  obtain ⟨folded, rfl, hs⟩ := h.recalls
  obtain ⟨folded', hhistory, hs'⟩ := h'.recalls
  -- the two stores split the history at different places, but a replay does not see the split
  have hreplay := hheld.applyAll_filter hs hasc
  rw [hhistory] at hasc hreplay
  rw [hnetwork, hheld'.applyAll_filter hs' hasc] at hreplay
  rw [hforget, hforget', Except.ok.inj hreplay]

/-- A trial for which the shorter window is long enough comes to the same in the longer one. -/
theorem Reached.attempt_eq_of_le (lock : SignedLock) (height : UInt32) (offset : Nat) :
    (∃ error, lock.attempt scheme s height offset = .error (.list error)) ∨
      lock.attempt scheme s' height offset = lock.attempt scheme s height offset := by
  by_cases hin : s.IsOutside (back height offset)
  · exact .inl ⟨_, attempt_of_outside hin⟩
  · obtain ⟨list, list', hlist, hlist', hforget⟩ :=
      h.listAtHeight_of_le h' hnetwork hle hasc hin
    refine .inr ?_
    rw [attempt_of_listAtHeight hlist, attempt_of_listAtHeight hlist', ← checkAgainst_forget,
      ← hforget, checkAgainst_forget]

/-- **An answer that the shorter window gives** about a lock is also that of the longer one. -/
theorem Reached.isValid_eq_ok_of_le {lock : SignedLock} {height : UInt32} {answer : Bool}
    (hanswer : lock.isValid scheme s height = .ok answer) :
    lock.isValid scheme s' height = .ok answer := by
  obtain ⟨error, herror⟩ | heq := checkAt_eq_of_attempt
    (h.attempt_eq_of_le h' hnetwork hle hasc lock height) signingOffset [0, 2 * signingOffset]
  · rw [SignedLock.isValid_eq_error_iff.mpr herror] at hanswer
    contradiction
  · rw [← hanswer, SignedLock.isValid, SignedLock.isValid, check, check, heq]

end Answers

/-- **A longer window never changes an answer.** Two stores that differ in their limits are made of
the same differences, and any run on them accepts and refuses the same ones. If the heights of those
that are accepted ascend, then whatever the shorter window says about a lock in the end, the longer
one says as well. -/
theorem build_and_isValid_of_le {network : Network} {limit limit' : UInt64}
    (hlimit : StoreConfig.minLists ≤ limit.toNat) (hle : limit ≤ limit')
    (scheme : SignatureScheme) (diffs : List ListDiff) :
    (∃ error, build ⟨network, limit⟩ diffs = .error error ∧
        build ⟨network, limit'⟩ diffs = .error error) ∨
      ∃ s s', build ⟨network, limit⟩ diffs = .ok s ∧ build ⟨network, limit'⟩ diffs = .ok s' ∧
        ∀ ops, s.addResults scheme ops = s'.addResults scheme ops ∧
          (Ascending (diffs ++ s.acceptedAll scheme ops) →
            (∀ (l : ChainLock) (answer : Bool),
              l.isValid scheme (s.run scheme ops) = .ok answer →
              l.isValid scheme (s'.run scheme ops) = .ok answer) ∧
            ∀ (l : InstantLock) (answer : Bool),
              l.isValid scheme (s.run scheme ops) = .ok answer →
              l.isValid scheme (s'.run scheme ops) = .ok answer) := by
  have hlimit' : StoreConfig.minLists ≤ limit'.toNat :=
    hlimit.trans (UInt64.le_iff_toNat_le.mp hle)
  refine (build_cases_of_limits hlimit hlimit' diffs).imp_right ?_
  rintro ⟨s, s', hbuild, hbuild'⟩
  refine ⟨s, s', hbuild, hbuild', fun ops => ?_⟩
  have hs : Reached scheme ⟨network, limit⟩ diffs s := .build hbuild
  have hs' : Reached scheme ⟨network, limit'⟩ diffs s' := .build hbuild'
  obtain ⟨hresults, haccepted⟩ := hs.run_eq hs' rfl ops
  refine ⟨hresults, fun hasc => ?_⟩
  have hrun := hs.run ops
  have hrun' := hs'.run ops
  rw [← haccepted] at hrun'
  refine ⟨fun l answer hanswer => hrun.isValid_eq_ok_of_le hrun' rfl hle hasc hanswer,
    fun l answer hanswer => ?_⟩
  have hvalid : l.signed.isValid scheme (s'.run scheme ops) (s.run scheme ops).tipHeight =
      .ok answer :=
    hrun.isValid_eq_ok_of_le hrun' rfl hle hasc hanswer
  rwa [hrun.tipHeight_eq hrun' rfl] at hvalid

/-- Operations after which a window of sixteen lists has lost the first one. -/
def sampleOps : List Op :=
  [.add (Sample.diff 17), .verify, .add (Sample.diff 5)]

/-- A lock of the block at a height. It is signed if this is the tenth block. -/
def sampleLock (height : UInt32) : ChainLock :=
  ⟨height, Sample.block height.toNat, Sample.lockSignature⟩

theorem exists_narrow_sample : ∃ s, build ⟨.regtest, 16⟩ Sample.chain = .ok s ∧
    decide (s.acceptedAll Sample.scheme sampleOps = [Sample.diff 17] ∧
      (sampleLock 10).isValid Sample.scheme (s.run Sample.scheme sampleOps) = .ok true ∧
      (sampleLock 9).isValid Sample.scheme (s.run Sample.scheme sampleOps) =
        .error (.heightOutOfRange 1 2 17)) :=
  any_toOption_iff.mp (by decide +kernel)

/-- A lock of the tenth block is found to be signed in the second list, which both windows hold. For
a lock of the ninth block the first list is asked for, which the shorter window has lost. -/
theorem build_and_isValid_of_le_sample : ∃ s s',
    build ⟨.regtest, 16⟩ Sample.chain = .ok s ∧ build ⟨.regtest, 17⟩ Sample.chain = .ok s' ∧
    Ascending (Sample.chain ++ s.acceptedAll Sample.scheme sampleOps) ∧
    (sampleLock 9).isValid Sample.scheme (s.run Sample.scheme sampleOps) =
      .error (.heightOutOfRange 1 2 17) ∧
    (sampleLock 10).isValid Sample.scheme (s.run Sample.scheme sampleOps) = .ok true ∧
    (sampleLock 10).isValid Sample.scheme (s'.run Sample.scheme sampleOps) = .ok true := by
  obtain ⟨s, hbuild, hdecide⟩ := exists_narrow_sample
  obtain ⟨haccepted, htenth, hninth⟩ := of_decide_eq_true hdecide
  have hasc : Ascending (Sample.chain ++ s.acceptedAll Sample.scheme sampleOps) := by
    rw [haccepted]
    decide
  obtain ⟨error, herror, -⟩ | ⟨s₀, s', hbuild₀, hbuild', hrun⟩ :=
    @build_and_isValid_of_le .regtest 16 17 (by decide) (by decide) Sample.scheme Sample.chain
  · rw [hbuild] at herror
    contradiction
  · obtain rfl : s = s₀ := Except.ok.inj (hbuild.symm.trans hbuild₀)
    have hlonger := ((hrun sampleOps).2 hasc).1 (sampleLock 10) true htenth
    exact ⟨s, s', hbuild, hbuild', hasc, hninth, htenth, hlonger⟩

end Store

end QuorumFinality
