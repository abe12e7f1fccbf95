/-!
# Maps in the order of their keys

A map is the list of its entries, with the keys strictly increasing. Masternodes are enumerated by
their hashes and quorums by their types, and both orders show: the first in Merkle roots, the
second in everything that goes over all quorums. The order is kept by the type, so two maps are
equal as soon as they hold the same entries.

## Main definitions

* `OrderedMap`: entries with strictly increasing keys.
* `OrderedMap.get?`, `OrderedMap.insert`, `OrderedMap.erase`, `OrderedMap.filter`.
* `OrderedMap.mapAccum`: replaces the values in order while a state is carried along.
-/

namespace QuorumFinality

universe u v w

/-- Entries with strictly increasing keys. -/
structure OrderedMap (κ : Type u) (α : Type v) [Ord κ] where
  /-- The entries in the order of their keys. -/
  entries : List (κ × α)
  /-- Each key is less than all later ones. -/
  sorted : entries.Pairwise fun a b => compare a.1 b.1 = .lt

namespace OrderedMap

variable {κ : Type u} {α : Type v} [Ord κ]

@[ext]
theorem ext {m m' : OrderedMap κ α} (h : m.entries = m'.entries) : m = m' := by
  cases m
  cases m'
  simp_all

instance [DecidableEq κ] [DecidableEq α] : DecidableEq (OrderedMap κ α) := fun m m' =>
  decidable_of_iff (m.entries = m'.entries) ⟨ext, congrArg entries⟩

/-- The map without entries. -/
def empty : OrderedMap κ α :=
  ⟨[], List.Pairwise.nil⟩

/-- How many entries the map has. -/
def size (m : OrderedMap κ α) : Nat :=
  m.entries.length

/-- The keys in order. -/
def keys (m : OrderedMap κ α) : List κ :=
  m.entries.map Prod.fst

/-- The values in the order of their keys. -/
def values (m : OrderedMap κ α) : List α :=
  m.entries.map Prod.snd

/-- The value of a key. -/
def get? (m : OrderedMap κ α) (k : κ) : Option α :=
  (m.entries.find? fun e => compare e.1 k = .eq).map Prod.snd

/-- Whether a key has a value. -/
def contains (m : OrderedMap κ α) (k : κ) : Bool :=
  (m.get? k).isSome

/-- The entries for which a test holds. -/
def filter (p : κ → α → Bool) (m : OrderedMap κ α) : OrderedMap κ α :=
  ⟨m.entries.filter fun e => p e.1 e.2, m.sorted.filter _⟩

/-- The map without the entry of a key. -/
def erase (m : OrderedMap κ α) (k : κ) : OrderedMap κ α :=
  m.filter fun k' _ => compare k' k != .eq

/-! ### Insertion -/

/-- Puts an entry in its place, instead of the entry of the same key if there is one. -/
def insertEntry (k : κ) (a : α) : List (κ × α) → List (κ × α)
  | [] => [(k, a)]
  | e :: rest =>
    match compare k e.1 with
    | .lt => (k, a) :: e :: rest
    | .eq => (k, a) :: rest
    | .gt => e :: insertEntry k a rest

theorem mem_insertEntry {k : κ} {a : α} {l : List (κ × α)} {e : κ × α}
    (h : e ∈ insertEntry k a l) : e = (k, a) ∨ e ∈ l := by
  induction l with
  | nil => simpa [insertEntry] using h
  | cons f rest ih =>
    unfold insertEntry at h
    split at h
    · simpa using h
    · rcases List.mem_cons.1 h with h | h
      · exact Or.inl h
      · exact Or.inr (List.mem_cons_of_mem _ h)
    · rcases List.mem_cons.1 h with h | h
      · exact Or.inr (h ▸ List.mem_cons_self)
      · exact (ih h).imp id (List.mem_cons_of_mem _)

theorem sorted_insertEntry [Std.TransOrd κ] [Std.LawfulEqOrd κ] {k : κ} {a : α}
    {l : List (κ × α)} (h : l.Pairwise fun a b => compare a.1 b.1 = .lt) :
    (insertEntry k a l).Pairwise fun a b => compare a.1 b.1 = .lt := by
  induction l with
  | nil => simp [insertEntry]
  | cons e rest ih =>
    obtain ⟨he, hrest⟩ := List.pairwise_cons.1 h
    unfold insertEntry
    split
    next hk =>
      refine List.pairwise_cons.2 ⟨fun b hb => ?_, h⟩
      rcases List.mem_cons.1 hb with rfl | hb
      · exact hk
      · exact Std.TransCmp.lt_trans hk (he b hb)
    next hk =>
      have hk : k = e.1 := Std.LawfulEqOrd.eq_of_compare hk
      exact List.pairwise_cons.2 ⟨fun b hb => by simpa [hk] using he b hb, hrest⟩
    next hk =>
      refine List.pairwise_cons.2 ⟨fun b hb => ?_, ih hrest⟩
      rcases mem_insertEntry hb with rfl | hb
      · exact Std.OrientedCmp.gt_iff_lt.1 hk
      · exact he b hb

/-- The map in which a key has the given value. -/
def insert [Std.TransOrd κ] [Std.LawfulEqOrd κ] (m : OrderedMap κ α) (k : κ) (a : α) :
    OrderedMap κ α :=
  ⟨insertEntry k a m.entries, sorted_insertEntry m.sorted⟩

/-- The map of a list of entries; of several entries of a key the last one counts. -/
def ofList [Std.TransOrd κ] [Std.LawfulEqOrd κ] (l : List (κ × α)) : OrderedMap κ α :=
  l.foldl (fun m e => m.insert e.1 e.2) empty

/-! ### Replacing values -/

/-- Replaces the values of a list of entries from the front, with a state carried along. -/
def mapAccumEntries {σ : Type w} (f : σ → α → σ × α) (s : σ) :
    List (κ × α) → σ × List (κ × α)
  | [] => (s, [])
  | e :: rest =>
    let (s, a) := f s e.2
    let (s, rest) := mapAccumEntries f s rest
    (s, (e.1, a) :: rest)

theorem keys_mapAccumEntries {κ : Type u} {α : Type v} {σ : Type w} (f : σ → α → σ × α) (s : σ)
    (l : List (κ × α)) : (mapAccumEntries f s l).2.map Prod.fst = l.map Prod.fst := by
  induction l generalizing s with
  | nil => rfl
  | cons e rest ih => simp [mapAccumEntries, ih]

/-- Replaces the values in the order of their keys, with a state carried along. -/
def mapAccum {σ : Type w} (f : σ → α → σ × α) (s : σ) (m : OrderedMap κ α) :
    σ × OrderedMap κ α :=
  let result := mapAccumEntries f s m.entries
  (result.1, ⟨result.2, by
    have h : (result.2.map Prod.fst).Pairwise fun a b => compare a b = .lt := by
      rw [keys_mapAccumEntries]
      exact List.pairwise_map.2 m.sorted
    exact List.pairwise_map.1 h⟩)

/-- Replaces every value. -/
def mapValues (f : α → α) (m : OrderedMap κ α) : OrderedMap κ α :=
  ⟨m.entries.map fun e => (e.1, f e.2), List.pairwise_map.2 m.sorted⟩

end OrderedMap

end QuorumFinality
