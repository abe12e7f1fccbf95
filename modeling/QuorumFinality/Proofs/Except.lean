/-!
# Chains of checks

A computation that may be refused is a chain of steps, each with its own refusal. These lemmas take
such a chain apart at its outcome, so that no later proof has to open the monad.
-/

namespace QuorumFinality

variable {ε α β : Type}

theorem bind_eq_ok_iff {x : Except ε α} {f : α → Except ε β} {b : β} :
    x >>= f = .ok b ↔ ∃ a, x = .ok a ∧ f a = .ok b := by
  cases x <;> simp [bind, Except.bind]

theorem map_eq_ok_iff {x : Except ε α} {f : α → β} {b : β} :
    x.map f = .ok b ↔ ∃ a, x = .ok a ∧ f a = b := by
  cases x <;> simp [Except.map]

/-- Two computations have the same outcome up to a function if both are refused for one reason, or
both succeed with values that the function does not tell apart. -/
theorem map_eq_map_iff {x y : Except ε α} {f : α → β} : x.map f = y.map f ↔
    (∃ e, x = .error e ∧ y = .error e) ∨ ∃ a b, x = .ok a ∧ y = .ok b ∧ f a = f b := by
  cases x with
  | error e => cases y <;> simp [Except.map, eq_comm]
  | ok a => cases y <;> simp [Except.map]

/-- A list of computations succeeds if each of them does. -/
theorem mapM_eq_ok_iff {f : α → Except ε β} {l : List α} {bs : List β} :
    l.mapM f = .ok bs ↔ l.map f = bs.map .ok := by
  induction l generalizing bs with
  | nil => cases bs <;> simp [pure, Except.pure]
  | cons a l ih =>
    simp only [List.mapM_cons, bind_eq_ok_iff, ih, List.map_cons]
    cases bs with
    | nil => simp [pure, Except.pure]
    | cons b bs =>
      simp only [pure, Except.pure, Except.ok.injEq, List.cons.injEq, List.map_cons]
      exact ⟨fun ⟨_, ha, _, hl, rfl, rfl⟩ => ⟨ha, hl⟩, fun ⟨ha, hl⟩ => ⟨b, ha, bs, hl, rfl, rfl⟩⟩

/-- The test can be evaluated, so this is how a computation is run on a sample. -/
theorem any_toOption_iff {x : Except ε α} {p : α → Bool} :
    x.toOption.any p ↔ ∃ a, x = .ok a ∧ p a := by
  cases x <;> simp [Except.toOption]

end QuorumFinality
