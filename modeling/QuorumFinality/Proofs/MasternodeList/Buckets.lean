import QuorumFinality.Proofs.MasternodeList.Apply
import QuorumFinality.OrderedMap.Lemmas

/-!
# The quorums of a type after a difference

A difference is applied to the quorums one deletion and one arrival after the other, over a map of
all types. What comes of it for one type is simple: the quorums that are not deleted, the arrivals
behind them, and of all these only the last ones if there are more than may be active. A bucket is
a queue, so a quorum never changes its place among the others, and it leaves in one of two ways: it
is deleted or it is pushed out.

## Main definitions

* `ListDiff.deletes`, `ListDiff.arrivals` — what a difference does to the quorums of a type
* `ListDiff.placeAfter` — where a quorum is found after a difference, unless it is gone
* `MasternodeList.IsFresh` — lists whose quorums are as they arrived

## Main results

* `MasternodeList.foldl_push` — what arrives pushes out the oldest
* `MasternodeList.quorumsOfType_apply` — the quorums of a type after a difference
* `MasternodeList.getElem?_placeAfter` — a quorum that stays is found in its place, as it was
* `MasternodeList.isFresh_of_applyAll` — differences lead to no other lists from the empty one
-/

namespace QuorumFinality

namespace ListDiff

variable (diff : ListDiff) (network : Network) (type : QuorumType)

/-- Whether the coinbase commits to the quorums. -/
def commitsToQuorums : Bool :=
  diff.coinbasePayload?.any CoinbasePayload.hasQuorums

/-- Whether a quorum of the type is one of those that are no longer active. -/
def deletes (q : Quorum) : Bool :=
  diff.deletedQuorums.any fun d => d.type = type ∧ d.quorumHash = q.entry.quorumHash

/-- The quorums of the type that have become active. -/
def arrivals : List Quorum :=
  if type ∈ network.quorumTypes then
    (diff.newQuorums.filter fun entry => entry.type = type).map Quorum.ofEntry
  else []

/-- The quorums of a bucket that are not deleted. -/
def kept (bucket : List Quorum) : List Quorum :=
  bucket.filter fun q => !diff.deletes type q

/-- How many quorums have to go for the others to be as many as may be active. -/
def pushedOut (bucket : List Quorum) : Nat :=
  (diff.arrivals network type).length - (type.activeCount - (diff.kept type bucket).length)

/-- The place after the difference of the quorum at a place of a bucket. There is none if the
quorum is deleted or pushed out. -/
def placeAfter (bucket : List Quorum) (i : Nat) : Option Nat :=
  if bucket[i]?.any (diff.deletes type) then none
  else
    let before := (diff.kept type (bucket.take i)).length
    let gone := diff.pushedOut network type bucket
    if before < gone then none else some (before - gone)

variable {diff} {network} {type} in
/-- What arrives is of a type that the network has, and fresh from its entry. -/
theorem of_mem_arrivals {q : Quorum} (h : q ∈ diff.arrivals network type) :
    type ∈ network.quorumTypes ∧ q.entry.type = type ∧ q = Quorum.ofEntry q.entry := by
  unfold arrivals at h
  split at h
  · rename_i hmem
    obtain ⟨entry, hentry, rfl⟩ := List.mem_map.mp h
    exact ⟨hmem, of_decide_eq_true (List.mem_filter.mp hentry).2, rfl⟩
  · simp at h

end ListDiff

namespace MasternodeList

/-! ### A bucket as a queue -/

/-- **What arrives pushes out the oldest.** A bucket that is too large to begin with does not
shrink. -/
theorem foldl_push {limit : Nat} (hlimit : 0 < limit) (bucket fresh : List Quorum) :
    fresh.foldl (push limit) bucket =
      (bucket ++ fresh).drop (fresh.length - (limit - bucket.length)) := by
  induction fresh generalizing bucket with
  | nil => simp
  | cons q fresh ih =>
    rw [List.foldl_cons, ih]
    by_cases hfull : limit ≤ bucket.length
    · cases bucket with
      | nil => exact absurd hfull (Nat.not_le.mpr hlimit)
      | cons oldest rest =>
        simp only [List.length_cons] at hfull
        have hroom : limit - (rest.length + 1) = 0 := by omega
        simp [push, hfull, hroom]
    · have hcount : fresh.length - (limit - (bucket.length + 1)) =
          fresh.length + 1 - (limit - bucket.length) := by omega
      simp [push, hfull, hcount]

theorem activeCount_pos (type : QuorumType) : 0 < type.activeCount := by
  cases type <;> decide

/-! ### The bucket of a type -/

/-- The quorums of a type in a map, which need not have an entry for it. -/
def bucket (quorums : QuorumMap) (type : QuorumType) : List Quorum :=
  (quorums.get? type).getD []

theorem bucket_insert_self (quorums : QuorumMap) (type : QuorumType) (b : List Quorum) :
    bucket (quorums.insert type b) type = b := by
  simp [bucket]

theorem bucket_insert_of_ne (quorums : QuorumMap) (b : List Quorum) {type type' : QuorumType}
    (h : type ≠ type') : bucket (quorums.insert type' b) type = bucket quorums type := by
  rw [bucket, OrderedMap.get?_insert_of_ne _ _ h, bucket]

theorem bucket_deleteQuorum (quorums : QuorumMap) (d : DeletedQuorum) (type : QuorumType) :
    bucket (deleteQuorum quorums d) type = (bucket quorums type).filter fun q =>
      !decide (d.type = type ∧ d.quorumHash = q.entry.quorumHash) := by
  by_cases htype : d.type = type
  · subst htype
    cases hget : quorums.get? d.type with
    | none => simp [deleteQuorum, hget, bucket]
    | some b =>
      simp only [deleteQuorum, hget, bucket_insert_self]
      simp [bucket, hget, eq_comm]
  · have hall : bucket (deleteQuorum quorums d) type = bucket quorums type := by
      unfold deleteQuorum
      split
      · rfl
      · exact bucket_insert_of_ne _ _ (Ne.symm htype)
    rw [hall, List.filter_eq_self.mpr]
    simp [htype]

theorem bucket_foldl_deleteQuorum (quorums : QuorumMap) (ds : List DeletedQuorum)
    (type : QuorumType) :
    bucket (ds.foldl deleteQuorum quorums) type = (bucket quorums type).filter fun q =>
      !ds.any fun d => d.type = type ∧ d.quorumHash = q.entry.quorumHash := by
  induction ds generalizing quorums with
  | nil => exact (List.filter_eq_self.mpr fun _ _ => rfl).symm
  | cons d ds ih =>
    rw [List.foldl_cons, ih, bucket_deleteQuorum, List.filter_filter]
    refine List.filter_congr fun q _ => ?_
    rw [List.any_cons, Bool.not_or, Bool.and_comm]

theorem bucket_addQuorum (network : Network) (quorums : QuorumMap) (entry : QuorumEntry)
    (type : QuorumType) :
    bucket (addQuorum network quorums entry) type =
      if type ∈ network.quorumTypes ∧ entry.type = type then
        push type.activeCount (bucket quorums type) (Quorum.ofEntry entry)
      else bucket quorums type := by
  by_cases htype : entry.type = type
  · subst htype
    by_cases hmem : entry.type ∈ network.quorumTypes
    · simp only [addQuorum, hmem, if_true, bucket_insert_self, and_self]
      rfl
    · simp [addQuorum, hmem]
  · rw [if_neg fun h => htype h.2, addQuorum]
    split
    · exact bucket_insert_of_ne _ _ (Ne.symm htype)
    · rfl

theorem bucket_foldl_addQuorum (network : Network) (quorums : QuorumMap)
    (entries : List QuorumEntry) (type : QuorumType) :
    bucket (entries.foldl (addQuorum network) quorums) type =
      (if type ∈ network.quorumTypes then
        (entries.filter fun entry => entry.type = type).map Quorum.ofEntry
      else []).foldl (push type.activeCount) (bucket quorums type) := by
  induction entries generalizing quorums with
  | nil => simp
  | cons entry entries ih =>
    rw [List.foldl_cons, ih, bucket_addQuorum]
    by_cases hmem : type ∈ network.quorumTypes
    · by_cases htype : entry.type = type <;> simp [hmem, htype]
    · simp [hmem]

/-- A type without quorums has an empty bucket, whether the map has an entry for it or not. -/
theorem bucket_filter_isEmpty (quorums : QuorumMap) (type : QuorumType) :
    bucket (quorums.filter fun _ b => !b.isEmpty) type = bucket quorums type := by
  rw [bucket, OrderedMap.get?_filter, bucket]
  cases quorums.get? type with
  | none => rfl
  | some b => cases b <;> rfl

/-- **The bucket of a type after the changes of a difference.** -/
theorem bucket_applyQuorums (network : Network) (quorums : QuorumMap) (diff : ListDiff)
    (type : QuorumType) :
    bucket (applyQuorums network quorums diff) type =
      (diff.kept type (bucket quorums type) ++ diff.arrivals network type).drop
        (diff.pushedOut network type (bucket quorums type)) := by
  rw [applyQuorums, bucket_filter_isEmpty, bucket_foldl_addQuorum, bucket_foldl_deleteQuorum,
    foldl_push (activeCount_pos type)]
  rfl

/-! ### After a difference -/

variable {list next : MasternodeList} {diff : ListDiff}

/-- **The quorums of a type after a difference.** They are what they were unless the coinbase
commits to them. -/
theorem quorumsOfType_apply (h : list.apply diff = .ok next) (type : QuorumType) :
    next.quorumsOfType type =
      if diff.commitsToQuorums then
        (diff.kept type (list.quorumsOfType type) ++ diff.arrivals list.network type).drop
          (diff.pushedOut list.network type (list.quorumsOfType type))
      else list.quorumsOfType type := by
  obtain ⟨payload, hp, -, ⟨hq, rfl⟩ | ⟨_, hq, -, rfl⟩⟩ := apply_cases h
  · simp [ListDiff.commitsToQuorums, hp, hq, quorumsOfType, advance]
  · simp only [ListDiff.commitsToQuorums, hp, Option.any_some, hq, if_true]
    exact bucket_applyQuorums list.network list.quorums diff type

/-- A quorum of the list after a difference was there before or has just arrived. -/
theorem mem_quorumsOfType_apply (h : list.apply diff = .ok next) {type : QuorumType} {q : Quorum}
    (hq : q ∈ next.quorumsOfType type) :
    q ∈ list.quorumsOfType type ∨ q ∈ diff.arrivals list.network type := by
  rw [quorumsOfType_apply h] at hq
  split at hq
  · exact (List.mem_append.mp (List.mem_of_mem_drop hq)).imp (fun hq => (List.mem_filter.mp hq).1) id
  · exact .inl hq

/-- Each quorum is as it arrived: with its digests, and with no attempt to verify it. -/
def IsFresh (list : MasternodeList) : Prop :=
  ∀ type, ∀ q ∈ list.quorumsOfType type, q = Quorum.ofEntry q.entry

theorem isFresh_empty (network : Network) : (empty network).IsFresh := by
  intro type q hq
  contradiction

theorem IsFresh.of_apply (hlist : list.IsFresh) (h : list.apply diff = .ok next) :
    next.IsFresh := by
  intro type q hq
  rcases mem_quorumsOfType_apply h hq with hold | harrived
  · exact hlist type q hold
  · exact (ListDiff.of_mem_arrivals harrived).2.2

/-- **Differences alone attempt nothing.** -/
theorem isFresh_of_applyAll {network : Network} {diffs : List ListDiff}
    (h : (empty network).applyAll diffs = .ok list) : list.IsFresh :=
  applyAll_keeps (fun _ _ _ hl hnext => hl.of_apply hnext) (isFresh_empty network) h

/-- A quorum of a list is one of those of a type. -/
theorem mem_flatten_values_iff {q : Quorum} :
    q ∈ list.quorums.values.flatten ↔ ∃ type, q ∈ list.quorumsOfType type := by
  constructor
  · intro hq
    obtain ⟨b, hb, hq⟩ := List.mem_flatten.mp hq
    obtain ⟨⟨type, b⟩, he, rfl⟩ := List.mem_map.mp hb
    exact ⟨type, by rwa [quorumsOfType, OrderedMap.mem_entries_iff.mp he]⟩
  · rintro ⟨type, hq⟩
    cases hget : list.quorums.get? type with
    | none => simp [quorumsOfType, hget] at hq
    | some b =>
      rw [quorumsOfType, hget] at hq
      exact List.mem_flatten.mpr
        ⟨b, List.mem_map.mpr ⟨_, OrderedMap.mem_entries_iff.mpr hget, rfl⟩, hq⟩

/-- What a filter keeps comes after as many elements as it keeps of those before. -/
theorem getElem?_filter_length {α : Type} {p : α → Bool} {l : List α} {i : Nat} {a : α}
    (hi : l[i]? = some a) (ha : p a) :
    (l.filter p)[((l.take i).filter p).length]? = some a := by
  obtain ⟨hlt, rfl⟩ := List.getElem?_eq_some_iff.mp hi
  have hsplit : l.filter p = (l.take i).filter p ++ l[i] :: (l.drop (i + 1)).filter p := by
    rw [← List.filter_cons_of_pos ha, ← List.filter_append, ← List.drop_eq_getElem_cons hlt,
      List.take_append_drop]
  rw [hsplit, List.getElem?_append_right (Nat.le_refl _), Nat.sub_self]
  rfl

/-- **A quorum that stays is found in its place, as it was.** -/
theorem getElem?_placeAfter {type : QuorumType} {i j : Nat} {q : Quorum}
    (h : list.apply diff = .ok next) (hcommits : diff.commitsToQuorums)
    (hi : (list.quorumsOfType type)[i]? = some q)
    (hj : diff.placeAfter list.network type (list.quorumsOfType type) i = some j) :
    (next.quorumsOfType type)[j]? = some q := by
  rw [quorumsOfType_apply h, if_pos hcommits]
  simp only [ListDiff.placeAfter, hi, Option.any_some] at hj
  split at hj
  · simp at hj
  · rename_i hstays
    split at hj
    · simp at hj
    · rename_i hgone
      have hkept :=
        getElem?_filter_length (p := fun q => !diff.deletes type q) hi (by simpa using hstays)
      rw [← Option.some.inj hj, List.getElem?_drop, Nat.add_sub_cancel' (Nat.not_lt.mp hgone)]
      exact (List.getElem?_append_left (List.getElem?_eq_some_iff.mp hkept).1).trans hkept

end MasternodeList

end QuorumFinality
