import QuorumFinality.Proofs.Lock.Outcome
import QuorumFinality.Proofs.Store.Window

/-!
# Whether a window is long enough for locks

An instant lock is checked around the latest block, and the last of the three heights is sixteen
blocks before it. A window of sixteen lists reaches back fifteen blocks only, since the latest list
is one of the sixteen; and so many lists are enough for a store to be made of and to keep. A store
of the least size has one list too few: if the lock is refused at the first two heights, the check
ends with an error instead of an answer. Seventeen lists are enough, and so is a window that starts
at the first block of the chain, before which there is nothing to ask for.

## Main results

* `SignedLock.toNat_back` — the height so many blocks before another one
* `Store.Reached.isOutside_back_iff` — which of these heights a store does not reach
* `Store.isValid_error_iff_of_consecutive` — when the check of an instant lock ends with an error
* `Store.isOutside_back_of_minLists` — a store with as few lists as it may keep, for which it does
-/

namespace QuorumFinality

open MasternodeList SignedLock

theorem SignedLock.toNat_back (height : UInt32) (offset : Nat) :
    (back height offset).toNat = height.toNat - offset := by
  have hlt := height.toNat_lt
  rw [back, UInt32.toNat_ofNat_of_lt' (by simp only [UInt32.size]; omega)]

namespace Store

variable {scheme : SignatureScheme} {config : StoreConfig} {history : List ListDiff} {s : Store}

/-- **Which heights a store does not reach.** A height so many blocks before the latest one is
outside the window if there are not more lists than that, unless the window starts at the first
block. -/
theorem Reached.isOutside_back_iff (h : Reached scheme config history s)
    (hheights : Consecutive history) (offset : Nat) :
    s.IsOutside (back s.tipHeight offset) ↔
      min history.length config.maxLists.toNat ≤ offset ∧ s.baseHeight ≠ 0 := by
  have htip := h.toNat_tipHeight hheights
  have hzero : s.baseHeight = 0 ↔ s.baseHeight.toNat = 0 := by
    rw [← UInt32.toNat_inj, UInt32.toNat_zero]
  simp only [IsOutside, UInt32.lt_iff_toNat_lt, toNat_back, ne_eq, hzero]
  omega

/-- The first two heights at which an instant lock is checked are always within the window. -/
theorem Reached.not_isOutside_back (h : Reached scheme config history s)
    (hheights : Consecutive history) {offset : Nat} (hoffset : offset < StoreConfig.minLists) :
    ¬ s.IsOutside (back s.tipHeight offset) := by
  have hmin := h.minLists_le
  rw [h.isOutside_back_iff hheights]
  omega

/-- **When the check of an instant lock ends with an error.** The first two heights are within the
window. The third one is if the history and the limit are one longer than the least that a store
accepts, or if the window starts at the first block. If it is not, then a lock that is refused at
the first two heights makes the check end with an error; no other lock does. -/
theorem isValid_error_iff_of_consecutive (h : Reached scheme config history s)
    (hheights : Consecutive history) :
    (∀ offset ∈ [8, 0], ¬ s.IsOutside (back s.tipHeight offset)) ∧
    (¬ s.IsOutside (back s.tipHeight 16) ↔
      (StoreConfig.minLists < history.length ∧ StoreConfig.minLists < config.maxLists.toNat) ∨
        s.baseHeight = 0) ∧
    ∀ l : InstantLock,
      (∃ height base tip, l.isValid scheme s = .error (.heightOutOfRange height base tip)) ↔
        (∀ offset ∈ [8, 0], l.signed.RefusedAt scheme s (back s.tipHeight offset)) ∧
          s.IsOutside (back s.tipHeight 16) := by
  have hasc := hheights.ascending
  have hfirst : ¬ s.IsOutside (back s.tipHeight 8) := h.not_isOutside_back hheights (by decide)
  have hsecond : ¬ s.IsOutside (back s.tipHeight 0) := h.not_isOutside_back hheights (by decide)
  refine ⟨by simp [hfirst, hsecond], ?_, fun l => ?_⟩
  · rw [h.isOutside_back_iff hheights, not_and_or, not_not, Nat.not_le, Nat.lt_min]
    rfl
  · have herror (error : ListError) : l.isValid scheme s = .error error ↔
        ∃ before offset after, [8, 0, 16] = before ++ offset :: after ∧
          (s.IsOutside (back s.tipHeight offset) ∧
            error = .heightOutOfRange (back s.tipHeight offset) s.baseHeight s.tipHeight) ∧
          ∀ earlier ∈ before, Refuses (l.signed.attempt scheme s s.tipHeight earlier) :=
      h.isValid_eq_error_iff
    simp only [herror, exists_split_cons_iff, h.attempt_refused_iff hasc]
    simp [hfirst, hsecond, and_assoc]

theorem isValid_error_iff_of_consecutive_sample : ∃ s,
    Reached Sample.scheme Sample.config Sample.chain s ∧ Consecutive Sample.chain ∧
    (∀ offset ∈ [8, 0], ¬ s.IsOutside (back s.tipHeight offset)) ∧
    (¬ s.IsOutside (back s.tipHeight 16) ↔
      (StoreConfig.minLists < Sample.chain.length ∧
        StoreConfig.minLists < Sample.config.maxLists.toNat) ∨ s.baseHeight = 0) ∧
    ∀ l : InstantLock,
      (∃ height base tip, l.isValid Sample.scheme s = .error (.heightOutOfRange height base tip)) ↔
        (∀ offset ∈ [8, 0], l.signed.RefusedAt Sample.scheme s (back s.tipHeight offset)) ∧
          s.IsOutside (back s.tipHeight 16) := by
  obtain ⟨s, hs⟩ := Sample.exists_reached
  have hheights : Consecutive Sample.chain := by decide
  exact ⟨s, hs, hheights, isValid_error_iff_of_consecutive hs hheights⟩

/-- A lock of the output that no transaction has. -/
def unsignedLock : InstantLock where
  version := 0
  inputs := [.null]
  txid := Hash.null
  cycleHash := none
  signature := FixedBytes.zero 96

/-- **A store that keeps as few lists as it may does not reach back far enough.** It is made of
seventeen differences without a gap in their heights, and the list that the check asks for last is
that of the first one, which has been folded away. No list has a quorum that could sign, and instead
of saying so the check of a lock ends with an error. -/
theorem isOutside_back_of_minLists : ∃ s,
    Reached Sample.scheme ⟨.mainnet, 16⟩ (Sample.chain ++ [Sample.diff 17]) s ∧
    Consecutive (Sample.chain ++ [Sample.diff 17]) ∧ s.IsOutside (back s.tipHeight 16) ∧
    unsignedLock.isValid Sample.scheme s = .error (.heightOutOfRange 1 2 17) := by
  have hsample : ∃ s, Store.build ⟨.mainnet, 16⟩ (Sample.chain ++ [Sample.diff 17]) = .ok s ∧
      decide (s.IsOutside (back s.tipHeight 16) ∧
        unsignedLock.isValid Sample.scheme s = .error (.heightOutOfRange 1 2 17)) :=
    any_toOption_iff.mp (by decide +kernel)
  obtain ⟨s, hbuild, hdecide⟩ := hsample
  obtain ⟨hout, herror⟩ := of_decide_eq_true hdecide
  exact ⟨s, .build hbuild, by decide, hout, herror⟩

end Store

end QuorumFinality
