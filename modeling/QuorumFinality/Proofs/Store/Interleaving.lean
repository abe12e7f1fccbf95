import QuorumFinality.Proofs.Lock.Acceptance
import QuorumFinality.Proofs.Store.Pass
import QuorumFinality.Proofs.Store.Run

/-!
# Verifying quorums among other things

Quorums may be verified at any time, and what this writes into the latest list goes into every list
that is made from it later. Still nobody can tell when it was done, or whether it was done at all,
unless by looking at the statuses: no difference, no look-up and no lock looks at one.

Two stores that are the same up to the statuses of their latest lists stay so when a difference is
added to both, and when the quorums of one of them are verified. So a run can be compared with the
run that is left of it without the verifications, step by step.

## Main definitions

* `Store.addResults` — what becomes of the differences of a run
* `Store.AnswersAlike` — stores that cannot be told apart by their answers

## Main results

* `Store.map_forget_addDiff` — a difference that is added to stores that are the same up to statuses
* `Store.answersAlike_of_forget_eq` — stores that are the same up to statuses answer alike
* `Store.forget_run_filter` — a run and the run without the verifications
* `Store.verifying_is_silent` — verifying has no effect beyond the statuses
-/

namespace QuorumFinality

open MasternodeList

namespace Store

variable {scheme : SignatureScheme} {s s' : Store}

/-! ### Lists -/

theorem map_forget_listAtHeight (s : Store) (height : UInt32) :
    (s.forget.listAtHeight height).map MasternodeList.forget =
      (s.listAtHeight height).map MasternodeList.forget :=
  s.map_listAtHeight_setTip s.tip.height_forget s.tip.forget_forget height

theorem map_forget_listAtBlock (s : Store) (block : BlockHash) :
    (s.forget.listAtBlock block).map MasternodeList.forget =
      (s.listAtBlock block).map MasternodeList.forget :=
  s.map_listAtBlock_setTip s.tip.height_forget s.tip.forget_forget block

theorem map_forget_listAtQuorum (s : Store) (quorum : QuorumHash) :
    (s.forget.listAtQuorum quorum).map MasternodeList.forget =
      (s.listAtQuorum quorum).map MasternodeList.forget :=
  s.map_listAtQuorum_setTip s.tip.height_forget s.tip.forget_forget quorum

/-! ### Locks -/

theorem attempt_forget (lock : SignedLock) (s : Store) (height : UInt32) (offset : Nat) :
    lock.attempt scheme s.forget height offset = lock.attempt scheme s height offset := by
  have hlist := s.map_forget_listAtHeight (SignedLock.back height offset)
  rw [SignedLock.back] at hlist
  rw [SignedLock.attempt, SignedLock.attempt]
  obtain ⟨error, h, h'⟩ | ⟨list, list', h, h', hforget⟩ := map_eq_map_iff.mp hlist
  · rw [h, h']
  · have hcheck : lock.checkAgainst scheme list = lock.checkAgainst scheme list' := by
      rw [← SignedLock.checkAgainst_forget, hforget, SignedLock.checkAgainst_forget]
    rw [h, h']
    exact hcheck

theorem checkAt_forget (lock : SignedLock) (s : Store) (height : UInt32) (first : Nat)
    (others : List Nat) :
    lock.checkAt scheme s.forget height first others = lock.checkAt scheme s height first others := by
  induction others generalizing first with
  | nil => exact attempt_forget lock s height first
  | cons second others ih => rw [SignedLock.checkAt, SignedLock.checkAt, attempt_forget, ih]

/-- **No lock looks at a status.** -/
theorem check_forget (lock : SignedLock) (s : Store) (height : UInt32) :
    lock.check scheme s.forget height = lock.check scheme s height :=
  checkAt_forget lock s height signingOffset _

/-! ### Answers -/

/-- Two stores that cannot be told apart by what they answer, if nobody looks at a status. -/
structure AnswersAlike (scheme : SignatureScheme) (s s' : Store) : Prop where
  /-- They keep lists for the same heights. -/
  heights_eq : s.heights = s'.heights
  /-- Their base lists are the same, statuses included. -/
  base_eq : s.base = s'.base
  /-- Their latest lists are those of one block. -/
  tipHash_eq : s.tip.blockHash = s'.tip.blockHash
  /-- Their latest lists are the same. -/
  tip_eq : s.tip.forget = s'.tip.forget
  /-- They have the same list for each height, or refuse it alike. -/
  listAtHeight_eq : ∀ height, (s.listAtHeight height).map MasternodeList.forget =
    (s'.listAtHeight height).map MasternodeList.forget
  /-- They have the same list for each block. -/
  listAtBlock_eq : ∀ block, (s.listAtBlock block).map MasternodeList.forget =
    (s'.listAtBlock block).map MasternodeList.forget
  /-- They have the same list for each quorum. -/
  listAtQuorum_eq : ∀ quorum, (s.listAtQuorum quorum).map MasternodeList.forget =
    (s'.listAtQuorum quorum).map MasternodeList.forget
  /-- They check each chain lock alike. -/
  chainLock_eq : ∀ l : ChainLock,
    l.check scheme s = l.check scheme s' ∧ l.isValid scheme s = l.isValid scheme s'
  /-- They check each instant lock alike. -/
  instantLock_eq : ∀ l : InstantLock,
    l.check scheme s = l.check scheme s' ∧ l.isValid scheme s = l.isValid scheme s'

/-- **Stores that are the same up to statuses** answer alike. -/
theorem answersAlike_of_forget_eq (h : s.forget = s'.forget) : AnswersAlike scheme s s' := by
  have hcheck (lock : SignedLock) (height : UInt32) :
      lock.check scheme s height = lock.check scheme s' height := by
    rw [← check_forget, h, check_forget]
  have htip : s.tipHeight = s'.tipHeight := by
    rw [← tipHeight_forget, h, tipHeight_forget]
  refine ⟨?_, ?_, ?_, ?_, fun height => ?_, fun block => ?_, fun quorum => ?_, fun l => ?_,
    fun l => ?_⟩
  · rw [← heights_forget, h, heights_forget]
  · rw [← base_forget, h, base_forget]
  · rw [← blockHash_forget, ← tip_forget, h, tip_forget, blockHash_forget]
  · rw [← tip_forget, h, tip_forget]
  · rw [← map_forget_listAtHeight, h, map_forget_listAtHeight]
  · rw [← map_forget_listAtBlock, h, map_forget_listAtBlock]
  · rw [← map_forget_listAtQuorum, h, map_forget_listAtQuorum]
  · have hl : l.check scheme s = l.check scheme s' := hcheck l.signed l.height
    exact ⟨hl, congrArg SignedLock.verdict hl⟩
  · have hl : l.check scheme s = l.check scheme s' := by
      rw [InstantLock.check, InstantLock.check, htip, hcheck]
    exact ⟨hl, congrArg SignedLock.verdict hl⟩

/-! ### Steps -/

/-- Folding looks at the base alone. -/
theorem map_forget_prune (s : Store) :
    s.forget.prune = Prod.map Store.forget id s.prune :=
  rfl

/-- **No difference looks at a status** of the latest list. It is refused for the same reason, or
leads to the same store up to statuses. -/
theorem map_forget_addDiff (s : Store) (diff : ListDiff) :
    Prod.map Store.forget id (s.forget.addDiff diff) =
      Prod.map Store.forget id (s.addDiff diff) := by
  rw [addDiff, addDiff, tip_forget, blockHash_forget, diffs_forget]
  by_cases hbase : diff.baseBlockHash = s.tip.blockHash
  · rw [if_neg (not_not_intro hbase), if_neg (not_not_intro hbase)]
    obtain ⟨error, h, h'⟩ | ⟨tip, tip', h, h', hforget⟩ :=
      map_eq_map_iff.mp (forget_apply s.tip diff)
    · rw [h, h']
      exact Prod.ext s.forget_forget rfl
    · have hheight : tip.height = tip'.height := by
        rw [← height_forget, hforget, height_forget]
      have hstore : forget { s with diffs := s.diffs ++ [(tip.height, diff)], tip } =
          forget { s with diffs := s.diffs ++ [(tip'.height, diff)], tip := tip' } := by
        rw [forget, forget, hheight, hforget]
      simp only [h, h']
      rw [← map_forget_prune, ← map_forget_prune, hstore]
      rfl
  · rw [if_pos hbase, if_pos hbase]
    exact Prod.ext s.forget_forget rfl

/-! ### Runs -/

/-- Whether an operation adds a difference. -/
def Op.isAdd : Op → Bool
  | .add _ => true
  | .verify => false

/-- What becomes of the differences of a run, one after another. -/
def addResults (scheme : SignatureScheme) (s : Store) : List Op → List (Except ListError Unit)
  | [] => []
  | .add diff :: ops => (s.addDiff diff).2 :: ((s.addDiff diff).1).addResults scheme ops
  | .verify :: ops => ((s.verifyCurrent scheme).1).addResults scheme ops

/-- **A run and the run without the verifications,** made on stores that are the same up to
statuses: each difference meets the same fate, and so the stores stay the same up to statuses. -/
theorem forget_run_filter (ops : List Op) (h : s.forget = s'.forget) :
    s.addResults scheme ops = s'.addResults scheme (ops.filter Op.isAdd) ∧
      (s.run scheme ops).forget = (s'.run scheme (ops.filter Op.isAdd)).forget := by
  induction ops generalizing s s' with
  | nil => exact ⟨rfl, h⟩
  | cons op ops ih =>
    cases op with
    | add diff =>
      have hadd : Prod.map Store.forget id (s.addDiff diff) =
          Prod.map Store.forget id (s'.addDiff diff) := by
        rw [← map_forget_addDiff, h, map_forget_addDiff]
      obtain ⟨hstore, hresult⟩ := Prod.mk.inj hadd
      obtain ⟨hresults, hrun⟩ := ih hstore
      exact ⟨congrArg₂ List.cons hresult hresults, hrun⟩
    | verify =>
      -- the run without the verifications does not move
      have hstore : (s.verifyCurrent scheme).1.forget = s'.forget := by
        rw [forget_verifyCurrent, h]
      exact ih hstore

/-- **Verifying has no effect beyond the statuses.** If the verifications are left out of a run,
each difference that is added meets the same fate, and in the end the store answers alike. -/
theorem verifying_is_silent (scheme : SignatureScheme) (s : Store) (ops : List Op) :
    s.addResults scheme ops = s.addResults scheme (ops.filter Op.isAdd) ∧
      AnswersAlike scheme (s.run scheme ops) (s.run scheme (ops.filter Op.isAdd)) := by
  obtain ⟨hresults, hrun⟩ := forget_run_filter ops (rfl : s.forget = s.forget)
  exact ⟨hresults, answersAlike_of_forget_eq hrun⟩

end Store

end QuorumFinality
