import Mathlib.Data.List.Induction
import QuorumFinality.Proofs.MasternodeList.Buckets
import QuorumFinality.Proofs.Store.Lookup

/-!
# How long a quorum stays verified

The status "verified" is meant to be final: a verified quorum is not asked again. But a pass over
the quorums looks for the list at the block of a quorum before it looks at the quorum, and it skips
the quorum if there is none. So a quorum that was verified long ago is marked as skipped by the
first pass after its block has left the window, and as it cannot be verified any more, it remains
so. Nothing else ends the status, because differences carry it along.

To say this of a quorum over a run, the quorum has to be followed through its bucket: there may be
others with the same entry, so it is its place that tells it apart.

## Main definitions

* `Store.quorumAt`, `Store.followAll` — the quorum at a place, and where a run has moved it to
* `Store.StaysVerified` — a quorum is verified for as long as it can be followed

## Main results

* `Store.Reached.verifyNext_cases` — what a pass does to a quorum
* `Store.Reached.exists_quorumAt_of_followAll` — following a quorum never leads to another entry
* `Store.Reached.quorumAt_step` — what an operation does to a verified quorum
* `Store.staysVerified_iff` — a quorum stays verified if each pass finds its block retained
-/

namespace QuorumFinality

open MasternodeList

/-! ### One quorum -/

/-- Given the list at its block, a quorum can be verified or not, but the attempt cannot fail. -/
theorem Quorum.verify_of_checkList (scheme : SignatureScheme) {q : Quorum} {list : MasternodeList}
    (h : q.checkList list = .ok ()) :
    (q.verify scheme list).2 = .ok (q.verify scheme list).1.isVerified := by
  rw [checkList_eq_ok_iff] at h
  obtain ⟨hverified, heq⟩ | ⟨-, hother, -⟩ | ⟨hverified, -, -, heq⟩ | ⟨-, -, -, heq⟩ :=
    q.verify_cases scheme list
  · simp [heq, hverified]
  · exact absurd h hother
  · simp [heq, hverified]
  · rw [heq, isVerified_record]

namespace Store

variable {scheme : SignatureScheme} {config : StoreConfig} {history : List ListDiff} {s : Store}
  {type : QuorumType} {i : Nat} {q : Quorum}

/-- **What a pass does to a quorum.** If the block of the quorum is retained, then the quorum is
verified against the list at its block; otherwise it is skipped, whatever its status is. -/
theorem Reached.verifyNext_cases (h : Reached scheme config history s) (hasc : Ascending history)
    (q : Quorum) :
    (s.Retains q.entry.quorumHash.retype ∧ ∃ list,
        s.listAtQuorum q.entry.quorumHash = .ok list ∧
        ∀ count, s.verifyNext scheme (.ok count) q =
          (.ok (if (q.verify scheme list).1.isVerified then count + 1 else count),
            (q.verify scheme list).1)) ∨
      (¬ s.Retains q.entry.quorumHash.retype ∧
        ∀ count, s.verifyNext scheme (.ok count) q =
          (.ok count, { q with status := .skipped (.missedList q.entry.quorumHash) })) := by
  obtain ⟨hretained, list, hlist, hblock⟩ | ⟨hmissing, hlist⟩ :=
    h.listAtQuorum_cases hasc q.entry.quorumHash
  · refine .inl ⟨hretained, list, hlist, fun count => ?_⟩
    have hcheck : q.checkList list = .ok () := by
      rw [Quorum.checkList, if_pos]
      rw [hblock]
      rfl
    have hverify : s.verifyQuorum scheme q =
        ((q.verify scheme list).1, .ok (q.verify scheme list).1.isVerified) := by
      simp only [verifyQuorum, hlist, Quorum.verify_of_checkList scheme hcheck, Except.mapError]
    cases hverified : (q.verify scheme list).1.isVerified <;>
      simp [verifyNext, hverify, hverified]
  · refine .inr ⟨hmissing, fun count => ?_⟩
    simp only [verifyNext, verifyQuorum, hlist]

/-- No quorum ends a pass. -/
theorem Reached.verifyNext_eq (h : Reached scheme config history s) (hasc : Ascending history)
    (count : Nat) (q : Quorum) :
    s.verifyNext scheme (.ok count) q =
      (.ok (if (s.attempt scheme q).isVerified then count + 1 else count),
        s.attempt scheme q) := by
  obtain ⟨-, list, -, hnext⟩ | ⟨-, hnext⟩ := h.verifyNext_cases hasc q
  · simp only [attempt, hnext]
  · simp [attempt, hnext, Quorum.isVerified]

/-- **A verified quorum whose block is gone loses its status.** Otherwise it is not asked again. -/
theorem Reached.attempt_of_isVerified (h : Reached scheme config history s)
    (hasc : Ascending history) (hq : q.isVerified) :
    s.attempt scheme q =
      if s.Retains q.entry.quorumHash.retype then q
      else { q with status := .skipped (.missedList q.entry.quorumHash) } := by
  obtain ⟨hretained, list, -, hnext⟩ | ⟨hmissing, hnext⟩ := h.verifyNext_cases hasc q
  · rw [if_pos hretained, attempt, hnext, Quorum.verify, if_pos hq]
  · rw [if_neg hmissing, attempt, hnext]

theorem entry_attempt (scheme : SignatureScheme) (s : Store) (q : Quorum) :
    (s.attempt scheme q).entry = q.entry := by
  have hforget := s.forget_verifyNext scheme (.ok 0) q
  rw [← Quorum.entry_forget, attempt, hforget, Quorum.entry_forget]

/-! ### Following a quorum -/

/-- The quorum at a place among the quorums of a type in the latest list. -/
def quorumAt (s : Store) (type : QuorumType) (i : Nat) : Option Quorum :=
  (s.tip.quorumsOfType type)[i]?

/-- The place after an operation of the quorum at a place. Only a difference that is accepted and
commits to quorums can move it or make it leave. -/
def follow (s : Store) (type : QuorumType) (i : Nat) : Op → Option Nat
  | .add diff =>
    match (s.addDiff diff).2 with
    | .ok () =>
      if diff.commitsToQuorums then
        diff.placeAfter s.tip.network type (s.tip.quorumsOfType type) i
      else some i
    | .error _ => some i
  | .verify => some i

/-- The place after a run of the quorum at a place, unless it has left. -/
def followAll (scheme : SignatureScheme) (s : Store) (type : QuorumType) :
    List Op → Nat → Option Nat
  | [], i => some i
  | op :: ops, i => do
    let j ← s.follow type i op
    (s.step scheme op).followAll scheme type ops j

theorem followAll_concat (s : Store) (type : QuorumType) (ops : List Op) (op : Op) (i : Nat) :
    s.followAll scheme type (ops ++ [op]) i =
      (s.followAll scheme type ops i).bind fun j => (s.run scheme ops).follow type j op := by
  induction ops generalizing s i with
  | nil => simp [followAll, Store.run, Option.bind_eq_bind]
  | cons first ops ih => simp [followAll, Store.run, ih, Option.bind_assoc]

/-- A difference carries a quorum along as it is. -/
theorem Reached.quorumAt_step_add (h : Reached scheme config history s) {diff : ListDiff} {j : Nat}
    (hi : s.quorumAt type i = some q) (hj : s.follow type i (.add diff) = some j) :
    (s.step scheme (.add diff)).quorumAt type j = some q := by
  obtain ⟨folded, -, hs⟩ := h.remembers
  obtain ⟨error, hrefused, -⟩ | ⟨_, s', haccepted, -, htip, -, -⟩ := hs.addDiff_cases diff
  · simp only [follow, hrefused, Option.some.injEq] at hj
    rwa [Store.step, hrefused, ← hj]
  · simp only [follow, haccepted] at hj
    simp only [Store.step, haccepted, quorumAt]
    split at hj
    · rename_i hcommits
      exact getElem?_placeAfter htip hcommits hi hj
    · rename_i hcommits
      rw [quorumsOfType_apply htip, if_neg hcommits, ← Option.some.inj hj]
      exact hi

/-- A pass attempts the quorum at each place. -/
theorem Reached.quorumAt_step_verify (h : Reached scheme config history s)
    (hasc : Ascending history) (type : QuorumType) (i : Nat) :
    (s.step scheme .verify).quorumAt type i = (s.quorumAt type i).map (s.attempt scheme) := by
  have hends : s.NeverEnds scheme := fun count q => ⟨_, h.verifyNext_eq hasc count q⟩
  rw [quorumAt, Store.step, quorumsOfType_verifyCurrent scheme hends, List.getElem?_map]
  rfl

/-! ### Steps and runs -/

/-- **What an operation does to a quorum.** It has the same entry wherever it is moved, and if it
is verified it remains so, unless the operation is a pass and its block is gone. -/
theorem Reached.quorumAt_step (h : Reached scheme config history s) (hasc : Ascending history)
    {op : Op} {j : Nat} (hi : s.quorumAt type i = some q) (hj : s.follow type i op = some j) :
    ∃ q', (s.step scheme op).quorumAt type j = some q' ∧ q'.entry = q.entry ∧
      (q.isVerified → (q'.isVerified ↔
        (op = .verify → s.Retains q.entry.quorumHash.retype))) := by
  cases op with
  | add diff => exact ⟨q, h.quorumAt_step_add hi hj, rfl, fun hq => by simp [hq]⟩
  | verify =>
    rw [← Option.some.inj hj]
    refine ⟨s.attempt scheme q, by rw [h.quorumAt_step_verify hasc, hi]; rfl,
      entry_attempt scheme s q, fun hq => ?_⟩
    rw [h.attempt_of_isVerified hasc hq]
    by_cases hretained : s.Retains q.entry.quorumHash.retype
    · simp [hretained, hq]
    · simp [hretained, Quorum.isVerified]

/-- The history up to some point of a run ascends if that of the whole run does. -/
theorem ascending_acceptedAll_of_prefix {ops done : List Op}
    (hasc : Ascending (history ++ s.acceptedAll scheme ops)) (hdone : done <+: ops) :
    Ascending (history ++ s.acceptedAll scheme done) := by
  obtain ⟨rest, rfl⟩ := hdone
  rw [acceptedAll_append, ← List.append_assoc] at hasc
  exact hasc.of_append

/-- **Following a quorum never leads to another entry.** -/
theorem Reached.exists_quorumAt_of_followAll (h : Reached scheme config history s) {ops : List Op}
    (hasc : Ascending (history ++ s.acceptedAll scheme ops)) (hi : s.quorumAt type i = some q)
    {j : Nat} (hj : s.followAll scheme type ops i = some j) :
    ∃ q', (s.run scheme ops).quorumAt type j = some q' ∧ q'.entry = q.entry := by
  induction ops using List.reverseRecOn generalizing j with
  | nil => exact ⟨q, by rwa [← Option.some.inj hj], rfl⟩
  | append_singleton ops op ih =>
    have hops := ascending_acceptedAll_of_prefix hasc (List.prefix_append ops [op])
    rw [followAll_concat] at hj
    obtain ⟨k, hk, hj⟩ := Option.bind_eq_some_iff.mp hj
    obtain ⟨q', hq', hentry⟩ := ih hops hk
    obtain ⟨q'', hq'', hentry', -⟩ := (h.run ops).quorumAt_step hops hq' hj
    exact ⟨q'', by rwa [run_concat], hentry'.trans hentry⟩

/-- The quorum at a place is verified, and at every point of a run it still is, as long as it is
neither deleted nor pushed out. -/
def StaysVerified (scheme : SignatureScheme) (s : Store) (type : QuorumType) (i : Nat)
    (ops : List Op) : Prop :=
  ∀ done, done <+: ops → ∀ j, s.followAll scheme type done i = some j →
    ∃ q, (s.run scheme done).quorumAt type j = some q ∧ q.isVerified

/-- **When a verified quorum stays verified.** It does so exactly if each pass that comes while it
is there finds its block still retained. -/
theorem staysVerified_iff (h : Reached scheme config history s) {ops : List Op}
    (hasc : Ascending (history ++ s.acceptedAll scheme ops)) (hi : s.quorumAt type i = some q)
    (hq : q.isVerified) :
    s.StaysVerified scheme type i ops ↔
      ∀ done, done ++ [.verify] <+: ops → (s.followAll scheme type done i).isSome →
        (s.run scheme done).Retains q.entry.quorumHash.retype := by
  constructor
  · intro hstays done hdone hthere
    obtain ⟨j, hj⟩ := Option.isSome_iff_exists.mp hthere
    have hprefix : done <+: ops := (List.prefix_append done [.verify]).trans hdone
    have hasc := ascending_acceptedAll_of_prefix hasc hprefix
    obtain ⟨q₁, hq₁, hentry⟩ := h.exists_quorumAt_of_followAll hasc hi hj
    obtain ⟨q₂, hq₂, -, hstep⟩ := (h.run done).quorumAt_step hasc hq₁
      (show (s.run scheme done).follow type j .verify = some j from rfl)
    obtain ⟨q₁', hq₁', hverified₁⟩ := hstays done hprefix j hj
    obtain ⟨q₂', hq₂', hverified₂⟩ := hstays _ hdone j (by rw [followAll_concat, hj]; rfl)
    rw [hq₁, Option.some.injEq] at hq₁'
    rw [run_concat, hq₂, Option.some.injEq] at hq₂'
    rw [← hentry]
    exact (hstep (hq₁' ▸ hverified₁)).mp (hq₂' ▸ hverified₂) rfl
  · intro hretained done hdone
    induction done using List.reverseRecOn with
    | nil =>
      intro j hj
      exact ⟨q, by rwa [← Option.some.inj hj], hq⟩
    | append_singleton done op ih =>
      intro j hj
      have hprefix : done <+: ops := (List.prefix_append done [op]).trans hdone
      have hasc := ascending_acceptedAll_of_prefix hasc hprefix
      rw [followAll_concat] at hj
      obtain ⟨k, hk, hj⟩ := Option.bind_eq_some_iff.mp hj
      obtain ⟨q₁, hq₁, hverified⟩ := ih hprefix k hk
      obtain ⟨q₁', hq₁', hentry⟩ := h.exists_quorumAt_of_followAll hasc hi hk
      rw [hq₁, Option.some.injEq] at hq₁'
      obtain ⟨q₂, hq₂, -, hstep⟩ := (h.run done).quorumAt_step hasc hq₁ hj
      refine ⟨q₂, by rwa [run_concat], (hstep hverified).mpr ?_⟩
      rintro rfl
      rw [hq₁', hentry]
      exact hretained done hdone (by rw [hk]; rfl)

/-- In the sample the quorum can be verified, and one more difference folds its block away. -/
theorem exists_verified_sample : ∃ s q, Reached Sample.scheme Sample.config Sample.chain s ∧
    Ascending (Sample.chain ++ s.acceptedAll Sample.scheme [.add (Sample.diff 17), .verify]) ∧
    s.quorumAt .test 0 = some q ∧ q.isVerified ∧
    s.followAll Sample.scheme .test [.add (Sample.diff 17), .verify] 0 = some 0 ∧
    ∃ q', (s.run Sample.scheme [.add (Sample.diff 17), .verify]).quorumAt .test 0 = some q' ∧
      ¬ q'.isVerified := by
  have hplace {s : Store} {status : VerificationStatus} (h : Sample.statuses s = [status]) :
      ∃ q, s.quorumAt .test 0 = some q ∧ q.status = status := by
    obtain ⟨q, hq, rfl⟩ := List.map_eq_singleton_iff.mp h
    exact ⟨q, by simp [quorumAt, hq], rfl⟩
  obtain ⟨s, hs, hverified, hskipped⟩ := Sample.exists_verified
  obtain ⟨q, hq, hstatus⟩ := hplace hverified
  obtain ⟨q', hq', hstatus'⟩ := hplace hskipped
  refine ⟨s, q, hs, ?_, hq, by simp [Quorum.isVerified, hstatus], ?_, q', hq',
    by simp [Quorum.isVerified, hstatus']⟩
  · simp only [acceptedAll, accepted, List.append_nil]
    split
    · decide
    · decide
  · simp only [followAll, follow]
    split <;> rfl

theorem staysVerified_iff_sample : ∃ s q, Reached Sample.scheme Sample.config Sample.chain s ∧
    Ascending (Sample.chain ++ s.acceptedAll Sample.scheme [.add (Sample.diff 17), .verify]) ∧
    s.quorumAt .test 0 = some q ∧ q.isVerified ∧
    (s.StaysVerified Sample.scheme .test 0 [.add (Sample.diff 17), .verify] ↔
      ∀ done, done ++ [.verify] <+: [.add (Sample.diff 17), .verify] →
        (s.followAll Sample.scheme .test done 0).isSome →
          (s.run Sample.scheme done).Retains q.entry.quorumHash.retype) := by
  obtain ⟨s, q, hs, hasc, hq, hverified, -, -⟩ := exists_verified_sample
  exact ⟨s, q, hs, hasc, hq, hverified, staysVerified_iff hs hasc hq hverified⟩

/-- **A verified quorum need not stay verified,** even if it remains in its place. -/
theorem not_forall_staysVerified :
    ¬ ∀ (scheme : SignatureScheme) (config : StoreConfig) (history : List ListDiff) (s : Store)
      (type : QuorumType) (i : Nat) (q : Quorum) (ops : List Op),
      Reached scheme config history s → Ascending (history ++ s.acceptedAll scheme ops) →
      s.quorumAt type i = some q → q.isVerified → s.StaysVerified scheme type i ops := by
  intro hall
  obtain ⟨s, q, hs, hasc, hq, hverified, hfollow, q', hq', hlost⟩ := exists_verified_sample
  obtain ⟨q'', hq'', hstill⟩ :=
    hall _ _ _ s .test 0 q _ hs hasc hq hverified _ (List.prefix_refl _) 0 hfollow
  rw [hq', Option.some.injEq] at hq''
  exact hlost (hq'' ▸ hstill)

end Store

end QuorumFinality
