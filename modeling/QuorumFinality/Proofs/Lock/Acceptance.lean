import QuorumFinality.Lock.ChainLock
import QuorumFinality.Lock.InstantLock
import QuorumFinality.Proofs.MasternodeList.Signers
import QuorumFinality.Proofs.Store.Lookup

/-!
# Which locks are accepted

A lock is checked at one height after another, and each check goes through a look-up, a search and
a signature. Here the outcome is said without any of that: the store holds a list for a height, one
quorum of the list is expected to sign, and its key, the signature and the digest fit together. A
lock is accepted if this is so at one of three heights and every height that was tried before lies
within the window but did not lead to a signature.

The last clause is easy to overlook. A height outside the window ends the check at once, so a lock
that a later height would accept is refused.

## Main definitions

* `SignedLock.IsExpected` — the entry of the quorum that is expected to sign
* `SignedLock.IsSignedBy`, `SignedLock.IsNotSignedBy` — the signature is that of an entry, or not
* `SignedLock.SignedAt`, `SignedLock.RefusedAt` — the same for the list that is held for a height
* `SignedLock.AcceptedAround` — the three heights and their order

## Main results

* `SignedLock.checkAt_eq_iff` — trying one offset after another
* `Store.Reached.attempt_eq_ok_iff`, `Store.Reached.attempt_refused_iff` — a single trial
* `Store.isValid_iff_acceptedAround` — which locks are accepted
-/

namespace QuorumFinality

open MasternodeList

namespace SignedLock

variable (scheme : SignatureScheme) (lock : SignedLock)

/-! ### What is expected -/

/-- The quorum of an entry is expected to sign: of the quorums of the type that have the full form,
it is the first one with the least rank, ranks being compared with their last byte first. -/
def IsExpected (network : Network) (list : MasternodeList) (entry : FullQuorumEntry) : Prop :=
  ∃ q, q.entry = .full entry ∧
    IsFirstLeast (fun q : Quorum => (q.entry.orderingHash lock.request).bytes.reverse)
      ((list.quorumsOfType (lock.signerType network)).filter fun q => !q.entry.isLegacy) q

/-- The bytes whose double digest is signed. -/
def signedBytes (entry : FullQuorumEntry) : Bytes :=
  UInt8.ofNat entry.type.number ::
    (entry.quorumHash.bytes.toList ++ lock.request.bytes.toList ++ lock.message.toList)

/-- The key of an entry and the signature of the lock can be decoded and fit together. -/
def IsSignedBy (entry : FullQuorumEntry) : Prop :=
  ∃ key signature, scheme.decodeKey entry.publicKey = some key ∧
    scheme.decodeSignature lock.signature = some signature ∧
    scheme.verify key (sha256d (lock.signedBytes entry)).toList signature = .ok ()

/-- The key or the signature cannot be decoded, or they do not fit together. -/
def IsNotSignedBy (entry : FullQuorumEntry) : Prop :=
  scheme.decodeKey entry.publicKey = none ∨ scheme.decodeSignature lock.signature = none ∨
    ∃ key signature failure, scheme.decodeKey entry.publicKey = some key ∧
      scheme.decodeSignature lock.signature = some signature ∧
      scheme.verify key (sha256d (lock.signedBytes entry)).toList signature = .error failure

/-- The expected signer of the list that is held for a height has signed the lock. -/
def SignedAt (s : Store) (height : UInt32) : Prop :=
  ∃ list, s.Holds height list ∧
    ∃ entry, lock.IsExpected s.config.network list entry ∧ lock.IsSignedBy scheme entry

/-- A list is held for a height, but none of its quorums is expected to sign, or the one that is
has not signed the lock. -/
def RefusedAt (s : Store) (height : UInt32) : Prop :=
  ∃ list, s.Holds height list ∧
    ((∀ q ∈ list.quorumsOfType (lock.signerType s.config.network), q.entry.isLegacy) ∨
      ∃ entry, lock.IsExpected s.config.network list entry ∧ lock.IsNotSignedBy scheme entry)

/-- The height so many blocks before a height. There is none before the first block. -/
def back (height : UInt32) (offset : Nat) : UInt32 :=
  UInt32.ofNat (height.toNat - offset)

/-- Eight blocks before a height, at it, or sixteen blocks before it the lock is signed, and it is
refused at those of the three that come earlier. -/
def AcceptedAround (s : Store) (height : UInt32) : Prop :=
  ∃ before offset after, [8, 0, 16] = before ++ offset :: after ∧
    lock.SignedAt scheme s (back height offset) ∧
    ∀ earlier ∈ before, lock.RefusedAt scheme s (back height earlier)

variable {scheme : SignatureScheme} {lock : SignedLock} {list : MasternodeList}
  {entry : FullQuorumEntry} {q : Quorum}

/-! ### A single list -/

/-- A refusal that is not one of the store. Only such a refusal leads to the next trial. -/
def Refuses (result : Except LockError Unit) : Prop :=
  ∃ error, result = .error error ∧ ∀ reason, error ≠ .list reason

theorem Refuses.ne_ok {result : Except LockError Unit} (h : Refuses result) : result ≠ .ok () := by
  obtain ⟨error, rfl, -⟩ := h
  simp

theorem Refuses.ne_list {result : Except LockError Unit} (h : Refuses result)
    (reason : ListError) : result ≠ .error (.list reason) := by
  obtain ⟨error, rfl, hlist⟩ := h
  simpa using hlist reason

/-- A quorum in the full form signed the lock or did not, and the check says which. -/
theorem checkMessage_cases (hq : q.entry = .full entry) :
    (lock.IsSignedBy scheme entry ∧
        q.checkMessage scheme (lock.signId q.entry) lock.signature = .ok ()) ∨
      (lock.IsNotSignedBy scheme entry ∧
        Refuses (q.checkMessage scheme (lock.signId q.entry) lock.signature)) := by
  have hlegacy : q.entry.isLegacy = false := by rw [hq]; rfl
  have hkey : q.entry.publicKey = entry.publicKey := by rw [hq]; rfl
  have hdigest : (lock.signId q.entry).bytes = sha256d (lock.signedBytes entry) := by rw [hq]; rfl
  simp only [Quorum.checkMessage, hlegacy, hkey, hdigest, SignatureScheme.key,
    SignatureScheme.signature]
  cases hk : scheme.decodeKey entry.publicKey with
  | none => exact .inr ⟨.inl hk, .publicKey entry.publicKey.text, rfl, by simp⟩
  | some key =>
    cases hs : scheme.decodeSignature lock.signature with
    | none => exact .inr ⟨.inr (.inl hs), .signature lock.signature.text, rfl, by simp⟩
    | some signature =>
      cases hv : scheme.verify key (sha256d (lock.signedBytes entry)).toList signature with
      | ok _ => exact .inl ⟨⟨key, signature, hk, hs, hv⟩, by simp [Except.mapError, bind,
          Except.bind, hv, pure, Except.pure]⟩
      | error failure =>
        refine .inr ⟨.inr (.inr ⟨key, signature, failure, hk, hs, hv⟩), ?_⟩
        exact ⟨_, by simp [Except.mapError, bind, Except.bind, hv, throw, throwThe,
          MonadExceptOf.throw]; rfl, by simp⟩

theorem isExpected_iff {network : Network} :
    lock.IsExpected network list entry ↔
      ∃ q, list.signer? (lock.signerType network) lock.request = some q ∧
        q.entry = .full entry := by
  constructor
  · rintro ⟨q, hq, hleast⟩
    exact ⟨q, firstLeast_eq_some_iff.mpr hleast, hq⟩
  · rintro ⟨q, hleast, hq⟩
    exact ⟨q, hq, firstLeast_eq_some_iff.mp hleast⟩

theorem IsSignedBy.not_isNotSignedBy (h : lock.IsSignedBy scheme entry) :
    ¬ lock.IsNotSignedBy scheme entry := by
  obtain ⟨key, signature, hkey, hsignature, hverify⟩ := h
  rintro (hnone | hnone | ⟨_, _, _, hkey', hsignature', hfailure⟩)
  · simp [hkey] at hnone
  · simp [hsignature] at hnone
  · rw [hkey, Option.some.injEq] at hkey'
    rw [hsignature, Option.some.injEq] at hsignature'
    subst hkey' hsignature'
    simp [hverify] at hfailure

/-- The check of a list says whether the expected signer has signed. -/
theorem checkAgainst_cases (scheme : SignatureScheme)
    (h : lock.IsExpected list.network list entry) :
    (lock.IsSignedBy scheme entry ∧ lock.checkAgainst scheme list = .ok ()) ∨
      (lock.IsNotSignedBy scheme entry ∧ Refuses (lock.checkAgainst scheme list)) := by
  obtain ⟨q, hsigner, hq⟩ := isExpected_iff.mp h
  have hcheck : lock.checkAgainst scheme list =
      q.checkMessage scheme (lock.signId q.entry) lock.signature := by
    have hlist : lock.signer? list = some q := hsigner
    simp only [checkAgainst, hlist]
  rw [hcheck]
  exact checkMessage_cases hq

/-- Without an expected signer there is no quorum in the full form. -/
theorem exists_isExpected_or (lock : SignedLock) (list : MasternodeList) :
    (∃ entry, lock.IsExpected list.network list entry) ∨
      (∀ q ∈ list.quorumsOfType (lock.signerType list.network), q.entry.isLegacy) := by
  cases hsigner : list.signer? (lock.signerType list.network) lock.request with
  | none =>
    refine .inr fun q hq => ?_
    simpa using List.filter_eq_nil_iff.mp (firstLeast_eq_none_iff.mp hsigner) q hq
  | some q =>
    have hmem := (firstLeast_eq_some_iff.mp hsigner).mem
    cases hq : q.entry with
    | legacy entry => simp [signingQuorums, hq, QuorumEntry.isLegacy] at hmem
    | full entry => exact .inl ⟨entry, isExpected_iff.mpr ⟨q, hsigner, hq⟩⟩

theorem refuses_checkAgainst_of_isLegacy
    (h : ∀ q ∈ list.quorumsOfType (lock.signerType list.network), q.entry.isLegacy) :
    Refuses (lock.checkAgainst scheme list) := by
  have hnone : lock.signer? list = none := by
    refine firstLeast_eq_none_iff.mpr (List.filter_eq_nil_iff.mpr fun q hq => ?_)
    simp [h q hq]
  exact ⟨.noQuorums list.height (lock.signerType list.network),
    by simp only [checkAgainst, hnone], by simp⟩

/-- **When a list accepts a lock.** -/
theorem checkAgainst_eq_ok_iff : lock.checkAgainst scheme list = .ok () ↔
    ∃ entry, lock.IsExpected list.network list entry ∧ lock.IsSignedBy scheme entry := by
  constructor
  · intro hok
    obtain ⟨entry, hexpected⟩ | hlegacy := exists_isExpected_or lock list
    · obtain ⟨hsigned, -⟩ | ⟨-, hrefuses⟩ := checkAgainst_cases scheme hexpected
      · exact ⟨entry, hexpected, hsigned⟩
      · exact absurd hok hrefuses.ne_ok
    · exact absurd hok (refuses_checkAgainst_of_isLegacy hlegacy).ne_ok
  · rintro ⟨entry, hexpected, hsigned⟩
    obtain ⟨-, hok⟩ | ⟨hnot, -⟩ := checkAgainst_cases scheme hexpected
    · exact hok
    · exact absurd hnot hsigned.not_isNotSignedBy

/-- **When a list refuses a lock.** -/
theorem refuses_checkAgainst_iff : Refuses (lock.checkAgainst scheme list) ↔
    (∀ q ∈ list.quorumsOfType (lock.signerType list.network), q.entry.isLegacy) ∨
      ∃ entry, lock.IsExpected list.network list entry ∧ lock.IsNotSignedBy scheme entry := by
  constructor
  · intro hrefuses
    obtain ⟨entry, hexpected⟩ | hlegacy := exists_isExpected_or lock list
    · obtain ⟨-, hok⟩ | ⟨hnot, -⟩ := checkAgainst_cases scheme hexpected
      · exact absurd hok hrefuses.ne_ok
      · exact .inr ⟨entry, hexpected, hnot⟩
    · exact .inl hlegacy
  · rintro (hlegacy | ⟨entry, hexpected, hnot⟩)
    · exact refuses_checkAgainst_of_isLegacy hlegacy
    · obtain ⟨hsigned, -⟩ | ⟨-, hrefuses⟩ := checkAgainst_cases scheme hexpected
      · exact absurd hnot hsigned.not_isNotSignedBy
      · exact hrefuses

/-- The check of a list looks at no status. -/
theorem checkAgainst_forget (lock : SignedLock) (list : MasternodeList) :
    lock.checkAgainst scheme list.forget = lock.checkAgainst scheme list := by
  have hsigner : lock.signer? list.forget = (lock.signer? list).map Quorum.forget :=
    signer?_forget list (lock.signerType list.network) lock.request
  rw [checkAgainst, checkAgainst, hsigner]
  cases lock.signer? list <;> rfl

/-! ### One trial after another -/

/-- Whether a list can be split at an element with one property, before which all elements have
another, is decided from its first element on. -/
theorem exists_split_cons_iff {α : Type} {p r : α → Prop} {a : α} {l : List α} :
    (∃ before b after, a :: l = before ++ b :: after ∧ p b ∧ ∀ c ∈ before, r c) ↔
      p a ∨ (r a ∧ ∃ before b after, l = before ++ b :: after ∧ p b ∧ ∀ c ∈ before, r c) := by
  constructor
  · rintro ⟨before, b, after, hsplit, hp, hr⟩
    cases before with
    | nil =>
      rw [(List.cons.inj hsplit).1]
      exact .inl hp
    | cons c before =>
      obtain ⟨rfl, hrest⟩ := List.cons.inj hsplit
      obtain ⟨ha, hr⟩ := List.forall_mem_cons.mp hr
      exact .inr ⟨ha, before, b, after, hrest, hp, hr⟩
  · rintro (hp | ⟨ha, before, b, after, rfl, hp, hr⟩)
    · exact ⟨[], a, l, rfl, hp, by simp⟩
    · exact ⟨a :: before, b, after, rfl, hp, List.forall_mem_cons.mpr ⟨ha, hr⟩⟩

variable {s : Store} {height : UInt32} {first second : Nat} {others : List Nat}

/-- A refusal of the lock leads to the next trial. -/
theorem checkAt_of_refuses (h : Refuses (lock.attempt scheme s height first)) :
    lock.checkAt scheme s height first (second :: others) =
      lock.checkAt scheme s height second others := by
  obtain ⟨error, herror, hlist⟩ := h
  rw [checkAt, herror]
  cases error with
  | list reason => exact absurd rfl (hlist reason)
  | _ => rfl

/-- Everything else is the result. -/
theorem checkAt_of_not_refuses (h : ¬ Refuses (lock.attempt scheme s height first)) :
    lock.checkAt scheme s height first others = lock.attempt scheme s height first := by
  cases others with
  | nil => rfl
  | cons second others =>
    cases hfirst : lock.attempt scheme s height first with
    | ok _ => rw [checkAt, hfirst]
    | error error =>
      rw [checkAt, hfirst]
      cases error with
      | list reason => rfl
      | _ => exact absurd ⟨_, hfirst, by simp⟩ h

/-- **Trying one offset after another.** What does not lead to a next trial is the result if it is
that of one of the trials and all trials before were refusals of the lock and not of the store. -/
theorem checkAt_eq_iff {result : Except LockError Unit} (hresult : ¬ Refuses result) :
    lock.checkAt scheme s height first others = result ↔
      ∃ before offset after, first :: others = before ++ offset :: after ∧
        lock.attempt scheme s height offset = result ∧
        ∀ earlier ∈ before, Refuses (lock.attempt scheme s height earlier) := by
  induction others generalizing first with
  | nil =>
    rw [exists_split_cons_iff]
    simp [checkAt]
  | cons second others ih =>
    rw [exists_split_cons_iff, ← ih]
    by_cases hrefuses : Refuses (lock.attempt scheme s height first)
    · have hne : lock.attempt scheme s height first ≠ result := fun heq => hresult (heq ▸ hrefuses)
      rw [checkAt_of_refuses hrefuses]
      simp [hrefuses, hne]
    · rw [checkAt_of_not_refuses hrefuses]
      simp [hrefuses]

/-- The lock is signed if one of the trials finds it so. -/
theorem checkAt_eq_ok_iff : lock.checkAt scheme s height first others = .ok () ↔
    ∃ before offset after, first :: others = before ++ offset :: after ∧
      lock.attempt scheme s height offset = .ok () ∧
      ∀ earlier ∈ before, Refuses (lock.attempt scheme s height earlier) :=
  checkAt_eq_iff fun h => h.ne_ok rfl

/-- A lock counts as signed exactly if its check succeeds. -/
theorem isValid_eq_ok_true_iff :
    lock.isValid scheme s height = .ok true ↔ lock.check scheme s height = .ok () := by
  rw [isValid]
  cases lock.check scheme s height with
  | ok _ => simp [verdict]
  | error error => cases error <;> simp [verdict]

end SignedLock

namespace Store

open SignedLock

variable {scheme : SignatureScheme} {config : StoreConfig} {history : List ListDiff} {s : Store}
  {list : MasternodeList} {lock : SignedLock} {height : UInt32} {offset : Nat}

/-! ### A trial against a store -/

/-- All lists of a store belong to its network. -/
theorem Reached.network_of_holds (h : Reached scheme config history s)
    (hheld : s.Holds height list) : list.network = s.config.network := by
  obtain ⟨folded, -, hs⟩ := h.remembers
  obtain ⟨-, -, before, after, -, -, -, hreplay⟩ := hheld
  rw [network_of_applyAll hreplay, network_of_applyAll hs.base_eq, hs.config_eq]
  rfl

/-- A trial is the check of the list that the store answers with. -/
theorem attempt_of_listAtHeight (h : s.listAtHeight (back height offset) = .ok list) :
    lock.attempt scheme s height offset = lock.checkAgainst scheme list := by
  rw [back] at h
  simp only [SignedLock.attempt, h]
  rfl

/-- A trial within the window is the check of the list that is held. -/
theorem Reached.attempt_of_holds (h : Reached scheme config history s) (hasc : Ascending history)
    (hheld : s.Holds (back height offset) list) :
    lock.attempt scheme s height offset = lock.checkAgainst scheme list := by
  obtain ⟨held, list', hheld', hlist, hforget⟩ := h.exists_holds hasc hheld.base_le hheld.le_tip
  rw [hheld'.unique hheld] at hforget
  rw [attempt_of_listAtHeight hlist, ← checkAgainst_forget, hforget, checkAgainst_forget]

/-- A trial outside the window is a refusal of the store. -/
theorem attempt_of_outside
    (h : back height offset < s.baseHeight ∨ s.tipHeight < back height offset) :
    lock.attempt scheme s height offset =
      .error (.list (.heightOutOfRange (back height offset) s.baseHeight s.tipHeight)) := by
  simp only [UInt32.lt_iff_toNat_lt, back] at h
  simp only [SignedLock.attempt, listAtHeight, if_pos h]
  rfl

/-- A trial either is within the window or is a refusal of the store. -/
theorem Reached.holds_or_outside (h : Reached scheme config history s) (hasc : Ascending history)
    (lock : SignedLock) (height : UInt32) (offset : Nat) :
    (∃ list, s.Holds (back height offset) list) ∨
      ∃ reason, lock.attempt scheme s height offset = .error (.list reason) := by
  by_cases hout : back height offset < s.baseHeight ∨ s.tipHeight < back height offset
  · exact .inr ⟨_, attempt_of_outside hout⟩
  · simp only [not_or, UInt32.not_lt] at hout
    obtain ⟨held, -, hheld, -⟩ := h.exists_holds hasc hout.1 hout.2
    exact .inl ⟨held, hheld⟩

/-- **When a trial succeeds.** -/
theorem Reached.attempt_eq_ok_iff (h : Reached scheme config history s) (hasc : Ascending history) :
    lock.attempt scheme s height offset = .ok () ↔
      lock.SignedAt scheme s (back height offset) := by
  constructor
  · intro hok
    obtain ⟨list, hheld⟩ | ⟨reason, hreason⟩ := h.holds_or_outside hasc lock height offset
    · rw [h.attempt_of_holds hasc hheld, checkAgainst_eq_ok_iff, h.network_of_holds hheld] at hok
      exact ⟨list, hheld, hok⟩
    · rw [hok] at hreason
      contradiction
  · rintro ⟨list, hheld, hsigned⟩
    rwa [h.attempt_of_holds hasc hheld, checkAgainst_eq_ok_iff, h.network_of_holds hheld]

/-- **When a trial leads to the next one.** -/
theorem Reached.attempt_refused_iff (h : Reached scheme config history s)
    (hasc : Ascending history) :
    Refuses (lock.attempt scheme s height offset) ↔
      lock.RefusedAt scheme s (back height offset) := by
  constructor
  · intro hrefuses
    obtain ⟨list, hheld⟩ | ⟨reason, hreason⟩ := h.holds_or_outside hasc lock height offset
    · rw [h.attempt_of_holds hasc hheld, refuses_checkAgainst_iff, h.network_of_holds hheld]
        at hrefuses
      exact ⟨list, hheld, hrefuses⟩
    · exact absurd hreason (hrefuses.ne_list reason)
  · rintro ⟨list, hheld, hrefused⟩
    rwa [h.attempt_of_holds hasc hheld, refuses_checkAgainst_iff, h.network_of_holds hheld]

/-- **When the check of a lock around a height succeeds.** -/
theorem Reached.isValid_eq_ok_true_iff (h : Reached scheme config history s)
    (hasc : Ascending history) :
    lock.isValid scheme s height = .ok true ↔ lock.AcceptedAround scheme s height := by
  rw [SignedLock.isValid_eq_ok_true_iff, check, checkAt_eq_ok_iff]
  simp only [h.attempt_eq_ok_iff hasc, h.attempt_refused_iff hasc]
  rfl

/-- **Which locks are accepted.** A chain lock is accepted around its height, an instant lock
around the latest block. -/
theorem isValid_iff_acceptedAround (h : Reached scheme config history s)
    (hasc : Ascending history) :
    (∀ l : ChainLock, l.isValid scheme s = .ok true ↔
      SignedLock.AcceptedAround scheme
        { request := l.requestId, message := l.blockHash.bytes, signature := l.signature
          signerType := Network.chainLockType } s l.height) ∧
    ∀ l : InstantLock, l.isValid scheme s = .ok true ↔
      SignedLock.AcceptedAround scheme
        { request := l.requestId, message := l.txid.bytes, signature := l.signature
          signerType := Network.instantSendType } s s.tipHeight :=
  ⟨fun _ => h.isValid_eq_ok_true_iff hasc, fun _ => h.isValid_eq_ok_true_iff hasc⟩

theorem isValid_iff_acceptedAround_sample : ∃ s,
    Reached Sample.scheme Sample.config Sample.chain s ∧ Ascending Sample.chain ∧
    (∀ l : ChainLock, l.isValid Sample.scheme s = .ok true ↔
      SignedLock.AcceptedAround Sample.scheme
        { request := l.requestId, message := l.blockHash.bytes, signature := l.signature
          signerType := Network.chainLockType } s l.height) ∧
    ∀ l : InstantLock, l.isValid Sample.scheme s = .ok true ↔
      SignedLock.AcceptedAround Sample.scheme
        { request := l.requestId, message := l.txid.bytes, signature := l.signature
          signerType := Network.instantSendType } s s.tipHeight := by
  obtain ⟨s, hs⟩ := Sample.exists_reached
  exact ⟨s, hs, Sample.ascending_chain, isValid_iff_acceptedAround hs Sample.ascending_chain⟩

end Store

end QuorumFinality
