import QuorumFinality.OrderedMap

/-!
# What a map holds

`OrderedMap.get?` is the view of a map: each operation is described by what it does to the values
of keys, and two maps with the same values are the same map, because there is only one order in
which the entries can stand.

## Main results

* `OrderedMap.mem_entries_iff`: the entries are the keys with their values.
* `OrderedMap.ext_get?`: maps with the same values of all keys are equal.
* `OrderedMap.get?_insert_self`, `OrderedMap.get?_insert_of_ne`, `OrderedMap.get?_erase_self`,
  `OrderedMap.get?_erase_of_ne`: what inserting and erasing do.
* `OrderedMap.erase_comm`, `OrderedMap.insert_comm`: the order of changes does not matter.
* `OrderedMap.ofList_entries`: a map is made again from its entries.
* `OrderedMap.get?_mapValues`: what replacing every value does.
-/

namespace QuorumFinality

namespace OrderedMap

universe u v w

variable {κ : Type u} {α : Type v} [Ord κ] [Std.LawfulEqOrd κ]

/-! ### Entries and values -/

theorem get?_eq_some_iff_find? {m : OrderedMap κ α} {k : κ} {a : α} :
    m.get? k = some a ↔ m.entries.find? (fun e => compare e.1 k = .eq) = some (k, a) := by
  constructor
  · intro h
    obtain ⟨e, he, rfl⟩ := Option.map_eq_some_iff.1 h
    have hk : e.1 = k := by
      simpa [Std.LawfulEqOrd.compare_eq_iff_eq] using List.find?_some he
    rw [he, ← hk]
  · intro h
    simp [get?, h]

/-- In a list with strictly increasing keys, an entry is the first one of its key. -/
theorem find?_eq_some_of_mem {l : List (κ × α)} {k : κ} {a : α}
    (hl : l.Pairwise fun a b => compare a.1 b.1 = .lt) (h : (k, a) ∈ l) :
    l.find? (fun e => compare e.1 k = .eq) = some (k, a) := by
  induction l with
  | nil => simp at h
  | cons e rest ih =>
    obtain ⟨he, hrest⟩ := List.pairwise_cons.1 hl
    rcases List.mem_cons.1 h with rfl | h
    · simp [Std.ReflOrd.compare_self]
    · have hne : compare e.1 k ≠ .eq := by
        rw [he _ h]
        decide
      simp [hne, ih hrest h]

/-- The entries are the keys with their values. -/
theorem mem_entries_iff {m : OrderedMap κ α} {k : κ} {a : α} :
    (k, a) ∈ m.entries ↔ m.get? k = some a := by
  rw [get?_eq_some_iff_find?]
  exact ⟨find?_eq_some_of_mem m.sorted, List.mem_of_find?_eq_some⟩

/-- Two lists with strictly increasing keys and the same entries are equal. -/
theorem eq_of_mem_iff [Std.TransOrd κ] {l l' : List (κ × α)}
    (hl : l.Pairwise fun a b => compare a.1 b.1 = .lt)
    (hl' : l'.Pairwise fun a b => compare a.1 b.1 = .lt) (h : ∀ e, e ∈ l ↔ e ∈ l') : l = l' := by
  induction l generalizing l' with
  | nil =>
    cases l' with
    | nil => rfl
    | cons e' _ => exact absurd ((h e').2 List.mem_cons_self) (by simp)
  | cons e rest ih =>
    cases l' with
    | nil => exact absurd ((h e).1 List.mem_cons_self) (by simp)
    | cons e' rest' =>
      obtain ⟨he, hrest⟩ := List.pairwise_cons.1 hl
      obtain ⟨he', hrest'⟩ := List.pairwise_cons.1 hl'
      have heq : e = e' := by
        rcases List.mem_cons.1 ((h e).1 List.mem_cons_self) with heq | hmem
        · exact heq
        rcases List.mem_cons.1 ((h e').2 List.mem_cons_self) with heq | hmem'
        · exact heq.symm
        have hlt := he' e hmem
        rw [Std.OrientedCmp.gt_iff_lt.2 (he e' hmem')] at hlt
        contradiction
      subst heq
      have hne {x : κ × α} {l : List (κ × α)} (hx : ∀ b ∈ l, compare e.1 b.1 = .lt)
          (hm : x ∈ l) : x ≠ e := by
        rintro rfl
        simpa [Std.ReflOrd.compare_self] using hx x hm
      refine congrArg (e :: ·) (ih hrest hrest' fun x => ⟨fun hx => ?_, fun hx => ?_⟩)
      · exact ((List.mem_cons.1 ((h x).1 (List.mem_cons_of_mem e hx))).resolve_left (hne he hx))
      · exact ((List.mem_cons.1 ((h x).2 (List.mem_cons_of_mem e hx))).resolve_left (hne he' hx))

/-- Maps with the same values of all keys are equal. -/
theorem ext_get? [Std.TransOrd κ] {m m' : OrderedMap κ α} (h : ∀ k, m.get? k = m'.get? k) : m = m' := by
  refine OrderedMap.ext (eq_of_mem_iff m.sorted m'.sorted fun e => ?_)
  rw [show e = (e.1, e.2) from rfl, mem_entries_iff, mem_entries_iff, h]

omit [Std.LawfulEqOrd κ] in
@[simp]
theorem get?_empty (k : κ) : (empty : OrderedMap κ α).get? k = none :=
  rfl

/-! ### Filtering -/

theorem get?_filter (p : κ → α → Bool) (m : OrderedMap κ α) (k : κ) :
    (m.filter p).get? k = (m.get? k).filter (p k) := by
  refine Option.ext fun a => ?_
  rw [← mem_entries_iff, Option.filter_eq_some_iff, ← mem_entries_iff]
  simp [filter]

@[simp]
theorem get?_erase_self (m : OrderedMap κ α) (k : κ) : (m.erase k).get? k = none := by
  simp [erase, get?_filter, Std.ReflOrd.compare_self]

theorem get?_erase_of_ne (m : OrderedMap κ α) {k k' : κ} (h : k' ≠ k) :
    (m.erase k).get? k' = m.get? k' := by
  have hne : (compare k' k != .eq) = true := by
    simpa using fun heq => h (Std.LawfulEqOrd.eq_of_compare heq)
  rw [erase, get?_filter]
  cases m.get? k' <;> simp [Option.filter, hne]

omit [Std.LawfulEqOrd κ] in
/-- Entries may be erased in any order. -/
theorem erase_comm (m : OrderedMap κ α) (k k' : κ) :
    (m.erase k).erase k' = (m.erase k').erase k := by
  refine OrderedMap.ext ?_
  simp only [erase, filter, List.filter_filter, Bool.and_comm]

/-! ### Inserting -/

theorem find?_insertEntry_self (k : κ) (a : α) (l : List (κ × α)) :
    (insertEntry k a l).find? (fun e => compare e.1 k = .eq) = some (k, a) := by
  induction l with
  | nil => simp [insertEntry, Std.ReflOrd.compare_self]
  | cons e rest ih =>
    unfold insertEntry
    split
    · simp [Std.ReflOrd.compare_self]
    · simp [Std.ReflOrd.compare_self]
    next hk =>
      have hne : compare e.1 k ≠ .eq := by
        intro heq
        rw [Std.LawfulEqOrd.eq_of_compare heq, Std.ReflOrd.compare_self] at hk
        contradiction
      simp [hne, ih]

theorem find?_insertEntry_of_ne (a : α) (l : List (κ × α)) {k k' : κ} (h : k' ≠ k) :
    (insertEntry k a l).find? (fun e => compare e.1 k' = .eq) =
      l.find? (fun e => compare e.1 k' = .eq) := by
  have hne : compare k k' ≠ .eq := fun heq => h (Std.LawfulEqOrd.eq_of_compare heq).symm
  induction l with
  | nil => simp [insertEntry, hne]
  | cons e rest ih =>
    unfold insertEntry
    split
    · simp [hne]
    next hk =>
      have hne' : compare e.1 k' ≠ .eq := by
        rwa [← Std.LawfulEqOrd.eq_of_compare hk]
      simp [hne, hne']
    · simp [List.find?_cons, ih]

@[simp]
theorem get?_insert_self [Std.TransOrd κ] (m : OrderedMap κ α) (k : κ) (a : α) :
    (m.insert k a).get? k = some a := by
  simp [get?, insert, find?_insertEntry_self]

theorem get?_insert_of_ne [Std.TransOrd κ] (m : OrderedMap κ α) (a : α) {k k' : κ}
    (h : k' ≠ k) :
    (m.insert k a).get? k' = m.get? k' := by
  simp [get?, insert, find?_insertEntry_of_ne a m.entries h]

/-- Entries of different keys may be inserted in any order. -/
theorem insert_comm [Std.TransOrd κ] (m : OrderedMap κ α) (a a' : α) {k k' : κ} (h : k ≠ k') :
    (m.insert k a).insert k' a' = (m.insert k' a').insert k a := by
  refine ext_get? fun j => ?_
  by_cases hk : j = k
  · subst hk
    rw [get?_insert_of_ne _ _ h, get?_insert_self, get?_insert_self]
  · rw [get?_insert_of_ne _ _ hk]
    by_cases hk' : j = k'
    · subst hk'
      rw [get?_insert_self, get?_insert_self]
    · rw [get?_insert_of_ne _ _ hk', get?_insert_of_ne _ _ hk', get?_insert_of_ne _ _ hk]

omit [Std.LawfulEqOrd κ] in
/-- An entry whose key is greater than all others stands last. -/
theorem insertEntry_of_forall_lt [Std.OrientedOrd κ] {k : κ} {a : α} {l : List (κ × α)}
    (h : ∀ e ∈ l, compare e.1 k = .lt) : insertEntry k a l = l ++ [(k, a)] := by
  induction l with
  | nil => rfl
  | cons e rest ih =>
    obtain ⟨he, hrest⟩ := List.forall_mem_cons.1 h
    rw [insertEntry, Std.OrientedOrd.eq_swap, he]
    exact congrArg (e :: ·) (ih hrest)

theorem entries_foldl_insert [Std.TransOrd κ] {m : OrderedMap κ α} {l : List (κ × α)}
    (h : (m.entries ++ l).Pairwise fun a b => compare a.1 b.1 = .lt) :
    (l.foldl (fun m e => m.insert e.1 e.2) m).entries = m.entries ++ l := by
  induction l generalizing m with
  | nil => exact (List.append_nil _).symm
  | cons e l ih =>
    have hlt : ∀ e' ∈ m.entries, compare e'.1 e.1 = .lt := fun e' he' =>
      (List.pairwise_append.1 h).2.2 e' he' e List.mem_cons_self
    have hentries : (m.insert e.1 e.2).entries = m.entries ++ [e] := insertEntry_of_forall_lt hlt
    rw [List.append_cons, ← hentries] at h
    rw [List.foldl_cons, ih h, hentries, List.append_cons m.entries e l]

/-- **A map is made again from its entries.** -/
theorem ofList_entries [Std.TransOrd κ] (m : OrderedMap κ α) : ofList m.entries = m :=
  OrderedMap.ext (entries_foldl_insert (m := empty) m.sorted)

/-! ### Replacing values -/

theorem mapValues_eq_self {f : α → α} {m : OrderedMap κ α}
    (h : ∀ k a, m.get? k = some a → f a = a) : m.mapValues f = m := by
  refine OrderedMap.ext ?_
  refine (List.map_congr_left fun e he => ?_).trans (List.map_id _)
  exact congrArg (Prod.mk e.1) (h e.1 e.2 (mem_entries_iff.1 he))

omit [Std.LawfulEqOrd κ] in
theorem get?_mapValues (f : α → α) (m : OrderedMap κ α) (k : κ) :
    (m.mapValues f).get? k = (m.get? k).map f := by
  simp only [get?, mapValues, List.find?_map, Option.map_map]
  rfl

omit [Std.LawfulEqOrd κ] in
theorem values_mapValues (f : α → α) (m : OrderedMap κ α) :
    (m.mapValues f).values = m.values.map f := by
  simp [values, mapValues]

theorem mapValues_insert [Std.TransOrd κ] (f : α → α) (m : OrderedMap κ α) (k : κ) (a : α) :
    (m.insert k a).mapValues f = (m.mapValues f).insert k (f a) := by
  refine ext_get? fun k' => ?_
  by_cases h : k' = k
  · subst h
    simp [get?_mapValues]
  · simp [get?_mapValues, get?_insert_of_ne, h]

omit [Std.LawfulEqOrd κ] in
/-- A test that does not see what is replaced may come before or after. -/
theorem mapValues_filter (f : α → α) (p : κ → α → Bool) (m : OrderedMap κ α)
    (hp : ∀ k a, p k (f a) = p k a) : (m.filter p).mapValues f = (m.mapValues f).filter p := by
  refine OrderedMap.ext ?_
  simp only [mapValues, filter, List.filter_map]
  refine congrArg (List.map _) (List.filter_congr fun e _ => ?_)
  exact (hp e.1 e.2).symm

omit [Std.LawfulEqOrd κ] in
theorem mapValues_mapValues (f g : α → α) (m : OrderedMap κ α) :
    (m.mapValues g).mapValues f = m.mapValues (f ∘ g) := by
  refine OrderedMap.ext ?_
  simp [mapValues, Function.comp_def]

omit [Ord κ] [Std.LawfulEqOrd κ] in
/-- With a state carried along, each entry is still made from the entry of its key. -/
theorem mem_mapAccumEntries {σ : Type w} {f : σ → α → σ × α} {s : σ} {l : List (κ × α)}
    {e : κ × α} (h : e ∈ (mapAccumEntries f s l).2) :
    ∃ s', ∃ e' ∈ l, e = (e'.1, (f s' e'.2).2) := by
  induction l generalizing s with
  | nil => simp [mapAccumEntries] at h
  | cons first rest ih =>
    rcases List.mem_cons.1 h with rfl | h
    · exact ⟨s, first, List.mem_cons_self, rfl⟩
    · obtain ⟨s', e', he', rfl⟩ := ih h
      exact ⟨s', e', List.mem_cons_of_mem _ he', rfl⟩

end OrderedMap

end QuorumFinality
