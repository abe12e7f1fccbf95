import QuorumFinality.Proofs.Lock.Acceptance

/-!
# What a check of a lock can come to

The check of a lock looks up lists, replays differences, searches for a signer, decodes a key and a
signature, and does so at up to three heights. Nearly everything that can go wrong on the way is an
answer, not an error: the lock is not signed. What is left is a question that the store refuses, and
a store that has been reached refuses only the heights outside its window. A replay never fails,
because the differences of the window were accepted once, and the order of their heights does not
matter.

## Main results

* `SignedLock.checkAgainst_ok_or_refuses` — a list accepts a lock or refuses it
* `Store.Reached.attempt_cases` — a trial, also if the heights of the history are in disorder
* `Store.Reached.isValid_eq_error_iff` — when a check ends with an error, and with which
* `Store.isValid_answers_or_outside` — there is an answer, or a height is outside the window
-/

namespace QuorumFinality

open MasternodeList SignedLock

/-- Every list accepts a lock or refuses it, and its refusal is not one of the store. -/
theorem SignedLock.checkAgainst_ok_or_refuses (scheme : SignatureScheme) (lock : SignedLock)
    (list : MasternodeList) :
    lock.checkAgainst scheme list = .ok () ∨ Refuses (lock.checkAgainst scheme list) := by
  obtain ⟨entry, hexpected⟩ | hlegacy := exists_isExpected_or lock list
  · exact (checkAgainst_cases scheme hexpected).imp And.right And.right
  · exact .inr (refuses_checkAgainst_of_isLegacy hlegacy)

/-- A check of a lock ends with an error only if the store refused a question. -/
theorem SignedLock.isValid_eq_error_iff {scheme : SignatureScheme} {lock : SignedLock} {s : Store}
    {height : UInt32} {error : ListError} :
    lock.isValid scheme s height = .error error ↔
      lock.check scheme s height = .error (.list error) := by
  rw [isValid]
  cases lock.check scheme s height with
  | ok _ => simp [verdict]
  | error error => cases error <;> simp [verdict]

namespace Store

variable {scheme : SignatureScheme} {config : StoreConfig} {history : List ListDiff} {s : Store}
  {lock : SignedLock} {height : UInt32} {offset : Nat} {error : ListError}

/-- **What a trial comes to.** Within the window the lock is accepted or refused. -/
theorem Reached.attempt_cases (h : Reached scheme config history s) (lock : SignedLock)
    (height : UInt32) (offset : Nat) :
    (s.IsOutside (back height offset) ∧ lock.attempt scheme s height offset =
        .error (.list (.heightOutOfRange (back height offset) s.baseHeight s.tipHeight))) ∨
      (¬ s.IsOutside (back height offset) ∧ (lock.attempt scheme s height offset = .ok () ∨
        Refuses (lock.attempt scheme s height offset))) := by
  by_cases hout : s.IsOutside (back height offset)
  · exact .inl ⟨hout, attempt_of_outside hout⟩
  · refine .inr ⟨hout, ?_⟩
    simp only [IsOutside, not_or, UInt32.not_lt] at hout
    obtain ⟨folded, -, hs⟩ := h.remembers
    obtain ⟨list, hlist⟩ := hs.exists_listAtHeight hout.1 hout.2
    rw [attempt_of_listAtHeight hlist]
    exact checkAgainst_ok_or_refuses scheme lock list

/-- A trial is an error of the store only for a height outside the window. -/
theorem Reached.attempt_eq_error_iff (h : Reached scheme config history s) :
    lock.attempt scheme s height offset = .error (.list error) ↔
      s.IsOutside (back height offset) ∧
        error = .heightOutOfRange (back height offset) s.baseHeight s.tipHeight := by
  obtain ⟨hout, hattempt⟩ | ⟨hin, hattempt | hrefuses⟩ := h.attempt_cases lock height offset
  · simp only [hattempt, hout, Except.error.injEq, LockError.list.injEq, true_and]
    exact eq_comm
  · simp [hattempt, hin]
  · simp [hin, hrefuses.ne_list error]

/-- **When a check ends with an error.** One of the three heights lies outside the window, which is
what the error reports, and the lock was refused at those that were tried before. -/
theorem Reached.isValid_eq_error_iff (h : Reached scheme config history s) :
    lock.isValid scheme s height = .error error ↔
      ∃ before offset after, [8, 0, 16] = before ++ offset :: after ∧
        (s.IsOutside (back height offset) ∧
          error = .heightOutOfRange (back height offset) s.baseHeight s.tipHeight) ∧
        ∀ earlier ∈ before, Refuses (lock.attempt scheme s height earlier) := by
  have hresult : ¬ Refuses (.error (.list error)) := fun hrefuses => hrefuses.ne_list error rfl
  rw [SignedLock.isValid_eq_error_iff, check, checkAt_eq_iff hresult]
  simp only [h.attempt_eq_error_iff]
  rfl

/-- The check of a lock around a height comes to an answer, or to the report of one of its three
heights, which lies outside the window. -/
theorem Reached.isValid_cases (h : Reached scheme config history s) (lock : SignedLock)
    (height : UInt32) :
    lock.isValid scheme s height = .ok true ∨ lock.isValid scheme s height = .ok false ∨
      ∃ offset ∈ [8, 0, 16], s.IsOutside (back height offset) ∧
        lock.isValid scheme s height =
          .error (.heightOutOfRange (back height offset) s.baseHeight s.tipHeight) := by
  cases hresult : lock.isValid scheme s height with
  | ok answer => cases answer <;> simp
  | error error =>
    obtain ⟨before, offset, after, hsplit, ⟨hout, rfl⟩, -⟩ := h.isValid_eq_error_iff.mp hresult
    exact .inr (.inr ⟨offset, by simp [hsplit], hout, rfl⟩)

/-- **There is an answer, or a height is outside the window.** A chain lock is checked around its
height and an instant lock around the latest block. Nothing else that goes wrong is an error: no
replay, no key, no signature and no quorum. -/
theorem isValid_answers_or_outside (h : Reached scheme config history s) :
    (∀ l : ChainLock, l.isValid scheme s = .ok true ∨ l.isValid scheme s = .ok false ∨
      ∃ offset ∈ [8, 0, 16],
        (back l.height offset < s.baseHeight ∨ s.tipHeight < back l.height offset) ∧
        l.isValid scheme s =
          .error (.heightOutOfRange (back l.height offset) s.baseHeight s.tipHeight)) ∧
    ∀ l : InstantLock, l.isValid scheme s = .ok true ∨ l.isValid scheme s = .ok false ∨
      ∃ offset ∈ [8, 0, 16],
        (back s.tipHeight offset < s.baseHeight ∨ s.tipHeight < back s.tipHeight offset) ∧
        l.isValid scheme s =
          .error (.heightOutOfRange (back s.tipHeight offset) s.baseHeight s.tipHeight) :=
  ⟨fun l => h.isValid_cases l.signed l.height, fun l => h.isValid_cases l.signed s.tipHeight⟩

theorem isValid_answers_or_outside_sample : ∃ s,
    Reached Sample.scheme Sample.config Sample.chain s ∧
    (∀ l : ChainLock, l.isValid Sample.scheme s = .ok true ∨ l.isValid Sample.scheme s = .ok false ∨
      ∃ offset ∈ [8, 0, 16],
        (back l.height offset < s.baseHeight ∨ s.tipHeight < back l.height offset) ∧
        l.isValid Sample.scheme s =
          .error (.heightOutOfRange (back l.height offset) s.baseHeight s.tipHeight)) ∧
    ∀ l : InstantLock, l.isValid Sample.scheme s = .ok true ∨ l.isValid Sample.scheme s = .ok false ∨
      ∃ offset ∈ [8, 0, 16],
        (back s.tipHeight offset < s.baseHeight ∨ s.tipHeight < back s.tipHeight offset) ∧
        l.isValid Sample.scheme s =
          .error (.heightOutOfRange (back s.tipHeight offset) s.baseHeight s.tipHeight) := by
  obtain ⟨s, hs⟩ := Sample.exists_reached
  exact ⟨s, hs, isValid_answers_or_outside hs⟩

end Store

end QuorumFinality
