import Mathlib.Data.List.Nodup
import QuorumFinality.Merkle

/-!
# What a Merkle root commits to

A root does not say how many leaves there are. A last hash without a partner is paired with itself,
so a list that repeats its last leaf may have the root of the list that does not; and nothing marks
a hash as a leaf or as an inner node, so a list of inner nodes has the root of the leaves below.
These are the only two ways in which different lists can share a root, unless two of the byte
strings that were hashed collide.

The second way is closed when the leaves are digests of strings that do not have the length of a
pair of hashes. The first one remains: all that can be said then is that one of two lists with one
root continues the other with hashes that the other already has.

## Main definitions

* `Collide` — two different byte strings with one double digest
* `Merkle.pairs`, `Merkle.levels`, `Merkle.hashed` — the tree over a list and what is hashed for it
* `Merkle.Repeats`, `Merkle.Alike` — one list continues the other without a new element

## Main results

* `Merkle.Alike.of_parents` — what holds of two levels holds of the levels below
* `Merkle.exists_level_alike` — lists with one root stand at some level of each other's tree
* `Merkle.root_repeat_last` — the root does not tell whether a last leaf is repeated
* `Merkle.alike_of_root_eq` — leaves that are told apart from inner nodes
-/

namespace QuorumFinality

/-- Two different byte strings among the given ones have the same double digest. -/
def Collide (strings : List Bytes) : Prop :=
  ∃ a ∈ strings, ∃ b ∈ strings, a ≠ b ∧ sha256d a = sha256d b

theorem eq_of_not_collide {strings : List Bytes} (h : ¬ Collide strings) {a b : Bytes}
    (ha : a ∈ strings) (hb : b ∈ strings) (heq : sha256d a = sha256d b) : a = b := by
  by_contra hne
  exact h ⟨a, ha, b, hb, hne, heq⟩

theorem not_collide_of_nodup {strings : List Bytes} (h : (strings.map sha256d).Nodup) :
    ¬ Collide strings := by
  rintro ⟨a, ha, b, hb, hne, heq⟩
  exact hne (List.inj_on_of_nodup_map h ha hb heq)

theorem Collide.mono {strings strings' : List Bytes} (h : Collide strings)
    (hsub : strings ⊆ strings') : Collide strings' :=
  let ⟨a, ha, b, hb, hne⟩ := h
  ⟨a, hsub ha, b, hsub hb, hne⟩

namespace Merkle

/-! ### Lists that repeat -/

section Repeats

variable {α β : Type} {l l' : List α}

/-- A list continues another one with elements that the other one has. -/
def Repeats (l l' : List α) : Prop :=
  l <+: l' ∧ l' ⊆ l

/-- One of two lists continues the other with elements that the other has. -/
def Alike (l l' : List α) : Prop :=
  Repeats l l' ∨ Repeats l' l

theorem Alike.refl (l : List α) : Alike l l :=
  .inl ⟨List.prefix_refl l, fun _ h => h⟩

theorem Alike.symm (h : Alike l l') : Alike l' l :=
  Or.symm h

theorem Repeats.mem_iff (h : Repeats l l') {a : α} : a ∈ l ↔ a ∈ l' :=
  ⟨fun ha => h.1.subset ha, fun ha => h.2 ha⟩

theorem Alike.mem_iff (h : Alike l l') {a : α} : a ∈ l ↔ a ∈ l' :=
  h.elim (fun h => h.mem_iff) fun h => h.mem_iff.symm

theorem Alike.eq_of_length_eq (h : Alike l l') (hlength : l.length = l'.length) : l = l' := by
  rcases h with ⟨hstart, -⟩ | ⟨hstart, -⟩
  · exact hstart.eq_of_length hlength
  · exact (hstart.eq_of_length hlength.symm).symm

/-- A list without repetitions is not continued by repeating. -/
theorem Repeats.eq_of_nodup (h : Repeats l l') (hnodup : l'.Nodup) : l = l' := by
  obtain ⟨⟨rest, rfl⟩, hsub⟩ := h
  have hrest : rest = [] := by
    refine List.eq_nil_iff_forall_not_mem.mpr fun a ha => ?_
    exact (List.nodup_append.mp hnodup).2.2 a (hsub (by simp [ha])) a ha rfl
  rw [hrest, List.append_nil]

theorem Alike.eq_of_nodup (h : Alike l l') (hl : l.Nodup) (hl' : l'.Nodup) : l = l' :=
  h.elim (fun h => h.eq_of_nodup hl') fun h => (h.eq_of_nodup hl).symm

theorem prefix_of_map {f : α → β} (hf : ∀ a ∈ l, ∀ b ∈ l', f a = f b → a = b)
    (h : l.map f <+: l'.map f) : l <+: l' := by
  induction l generalizing l' with
  | nil => exact List.nil_prefix
  | cons a l ih =>
    cases l' with
    | nil => simp at h
    | cons b l' =>
      obtain ⟨hab, hrest⟩ := List.cons_prefix_cons.mp h
      obtain rfl : a = b := hf a (by simp) b (by simp) hab
      exact List.cons_prefix_cons.mpr
        ⟨rfl, ih (fun x hx y hy => hf x (by simp [hx]) y (by simp [hy])) hrest⟩

theorem Repeats.of_map {f : α → β} (hf : ∀ a ∈ l, ∀ b ∈ l', f a = f b → a = b)
    (h : Repeats (l.map f) (l'.map f)) : Repeats l l' := by
  refine ⟨prefix_of_map hf h.1, fun b hb => ?_⟩
  obtain ⟨a, ha, hab⟩ := List.mem_map.mp (h.2 (List.mem_map_of_mem hb))
  rwa [← hf a ha b hb hab]

/-- What holds of the images of two lists holds of the lists, if no two of their elements have the
same image. -/
theorem Alike.of_map {f : α → β} (hf : ∀ a ∈ l, ∀ b ∈ l', f a = f b → a = b)
    (h : Alike (l.map f) (l'.map f)) : Alike l l' :=
  h.imp (Repeats.of_map hf) (Repeats.of_map fun a ha b hb hab => (hf b hb a ha hab.symm).symm)

end Repeats

/-! ### Pairs -/

/-- The pairs of a level. A last hash without a partner is paired with itself. -/
def pairs : List Node → List (Node × Node)
  | left :: right :: rest => (left, right) :: pairs rest
  | [last] => [(last, last)]
  | [] => []

/-- What is hashed for a pair. -/
def joined (p : Node × Node) : Bytes :=
  p.1.toList ++ p.2.toList

@[simp] theorem length_joined (p : Node × Node) : (joined p).length = 64 := by
  simp [joined, FixedBytes.length_toList]

theorem joined_injective {p q : Node × Node} (h : joined p = joined q) : p = q := by
  obtain ⟨hleft, hright⟩ := List.append_inj h (by simp [FixedBytes.length_toList])
  exact Prod.ext (FixedBytes.ext hleft) (FixedBytes.ext hright)

theorem parents_eq_map (level : List Node) :
    parents level = (pairs level).map fun p => sha256d (joined p) := by
  fun_induction parents level with
  | case1 left right rest ih => simp [pairs, ih, parent, joined]
  | case2 last => simp [pairs, parent, joined]
  | case3 => rfl

theorem mem_iff_exists_mem_pairs {level : List Node} {a : Node} :
    a ∈ level ↔ ∃ p ∈ pairs level, a = p.1 ∨ a = p.2 := by
  fun_induction pairs level with
  | case1 left right rest ih => simp [ih, or_assoc]
  | case2 last => simp
  | case3 => simp

/-- Pairs that continue other pairs come from a level that continues the other one, or that falls
short of it by the partner of its last hash. -/
theorem prefix_or_prefix_of_pairs {level level' : List Node} (h : pairs level <+: pairs level') :
    level <+: level' ∨ level' <+: level := by
  fun_induction pairs level generalizing level' with
  | case1 left right rest ih =>
    match level' with
    | [] => simp [pairs] at h
    | [last] =>
      obtain ⟨hpair, hrest⟩ := List.cons_prefix_cons.mp h
      obtain ⟨rfl, rfl⟩ := Prod.mk.inj hpair
      exact .inr (by simp)
    | left' :: right' :: rest' =>
      obtain ⟨hpair, hrest⟩ := List.cons_prefix_cons.mp h
      obtain ⟨rfl, rfl⟩ := Prod.mk.inj hpair
      simpa [List.cons_prefix_cons] using ih hrest
  | case2 last =>
    match level' with
    | [] => simp [pairs] at h
    | [last'] => simp_all [pairs]
    | left' :: right' :: rest' => simp_all [pairs]
  | case3 => exact .inl List.nil_prefix

theorem Repeats.alike_of_pairs {level level' : List Node}
    (h : Repeats (pairs level) (pairs level')) : Alike level level' := by
  have hmem {a : Node} : a ∈ level ↔ a ∈ level' := by
    simp only [mem_iff_exists_mem_pairs, h.mem_iff]
  rcases prefix_or_prefix_of_pairs h.1 with hstart | hstart
  · exact .inl ⟨hstart, fun a ha => hmem.mpr ha⟩
  · exact .inr ⟨hstart, fun a ha => hmem.mp ha⟩

theorem Alike.of_pairs {level level' : List Node} (h : Alike (pairs level) (pairs level')) :
    Alike level level' :=
  h.elim (fun h => h.alike_of_pairs) fun h => h.alike_of_pairs.symm

/-- **Down one level.** If no two of the strings that are hashed collide, then what holds of the
levels above holds of the levels below. -/
theorem Alike.of_parents {strings : List Bytes} (hstrings : ¬ Collide strings)
    {level level' : List Node} (hlevel : (pairs level).map joined ⊆ strings)
    (hlevel' : (pairs level').map joined ⊆ strings)
    (h : Alike (parents level) (parents level')) : Alike level level' := by
  rw [parents_eq_map, parents_eq_map] at h
  refine Alike.of_pairs (h.of_map fun p hp q hq hpq => ?_)
  exact joined_injective (eq_of_not_collide hstrings (hlevel (List.mem_map_of_mem hp))
    (hlevel' (List.mem_map_of_mem hq)) hpq)

/-! ### Levels -/

/-- The levels of the tree over a list, from the list itself up to the root. -/
def levels (level : List Node) : List (List Node) :=
  if level.length ≤ 1 then [level] else level :: levels (parents level)
termination_by level.length
decreasing_by
  rw [length_parents]
  omega

/-- What is hashed while the root over a list is computed: the pairs of each level that has more
than one hash. -/
def hashed (level : List Node) : List Bytes :=
  (levels level).flatMap fun l => if l.length ≤ 1 then [] else (pairs l).map joined

theorem levels_of_length_le_one {level : List Node} (h : level.length ≤ 1) :
    levels level = [level] := by
  rw [levels, if_pos h]

theorem levels_of_one_lt_length {level : List Node} (h : 1 < level.length) :
    levels level = level :: levels (parents level) := by
  rw [levels, if_neg (Nat.not_le.mpr h)]

theorem root_of_one_lt_length {level : List Node} (h : 1 < level.length) :
    root level = root (parents level) := by
  match level with
  | [] => simp at h
  | [only] => simp at h
  | left :: right :: rest => rw [root]

theorem mem_levels_self (level : List Node) : level ∈ levels level := by
  rw [levels]
  split <;> simp

/-- A level is the list itself or stands right above another one. -/
theorem mem_levels_cases {level upper : List Node} (h : upper ∈ levels level) :
    upper = level ∨ ∃ lower ∈ levels level, 1 < lower.length ∧ upper = parents lower := by
  fun_induction levels level with
  | case1 level hlength => exact .inl (List.mem_singleton.mp h)
  | case2 level hlength ih =>
    rcases List.mem_cons.mp h with rfl | h
    · exact .inl rfl
    · obtain rfl | ⟨lower, hlower, hlength', rfl⟩ := ih h
      · exact .inr ⟨level, List.mem_cons_self, Nat.not_le.mp hlength, rfl⟩
      · exact .inr ⟨lower, List.mem_cons_of_mem _ hlower, hlength', rfl⟩

theorem map_joined_subset_hashed {level lower : List Node} (h : lower ∈ levels level)
    (hlength : 1 < lower.length) : (pairs lower).map joined ⊆ hashed level := by
  intro string hstring
  refine List.mem_flatMap.mpr ⟨lower, h, ?_⟩
  rwa [if_neg (Nat.not_le.mpr hlength)]

theorem hashed_of_length_le_one {level : List Node} (h : level.length ≤ 1) :
    hashed level = [] := by
  rw [hashed, levels_of_length_le_one h, List.flatMap_singleton, if_pos h]

theorem hashed_of_one_lt_length {level : List Node} (h : 1 < level.length) :
    hashed level = (pairs level).map joined ++ hashed (parents level) := by
  rw [hashed, levels_of_one_lt_length h, List.flatMap_cons, if_neg (Nat.not_le.mpr h), hashed]

/-- The digests of what is hashed above the leaves are the next level and those above it. -/
theorem map_hashed_of_one_lt_length {level : List Node} (h : 1 < level.length) :
    (hashed level).map sha256d = parents level ++ (hashed (parents level)).map sha256d := by
  rw [hashed_of_one_lt_length h, List.map_append, List.map_map, parents_eq_map]
  rfl

theorem parents_ne_nil {level : List Node} (h : level ≠ []) : parents level ≠ [] := by
  have hlength := length_parents level
  have hpos := List.length_pos_iff.mpr h
  exact List.length_pos_iff.mp (by omega)

/-- The last level is the root alone. -/
theorem singleton_root_mem_levels {level : List Node} (h : level ≠ []) :
    [root level] ∈ levels level := by
  fun_induction levels level with
  | case1 level hlength =>
    obtain ⟨only, rfl⟩ := List.length_eq_one_iff.mp
      (Nat.le_antisymm hlength (List.length_pos_iff.mpr h))
    simp [root]
  | case2 level hlength ih =>
    rw [root_of_one_lt_length (Nat.not_le.mp hlength)]
    exact List.mem_cons_of_mem _ (ih (parents_ne_nil h))

theorem eq_singleton_root {level : List Node} (hne : level ≠ []) (h : level.length ≤ 1) :
    level = [root level] := by
  have hmem := singleton_root_mem_levels hne
  rw [levels_of_length_le_one h] at hmem
  exact (List.mem_singleton.mp hmem).symm

/-! ### A leaf that is repeated -/

theorem pairs_repeat_last (front : List Node) (last : Node) (h : front.length % 2 = 0) :
    pairs (front ++ [last, last]) = pairs (front ++ [last]) := by
  fun_induction pairs front with
  | case1 left right rest ih =>
    have hrest : rest.length % 2 = 0 := by simpa [Nat.add_assoc] using h
    simp [pairs, ih hrest]
  | case2 only => simp at h
  | case3 => rfl

theorem parents_repeat_last (front : List Node) (last : Node) (h : front.length % 2 = 0) :
    parents (front ++ [last, last]) = parents (front ++ [last]) := by
  rw [parents_eq_map, parents_eq_map, pairs_repeat_last front last h]

section

variable {front : List Node} (last : Node) (h : front.length % 2 = 0) (hne : front ≠ [])
include h hne

/-- **The root does not tell** whether the last of an odd number of leaves is there twice. -/
theorem root_repeat_last : root (front ++ [last, last]) = root (front ++ [last]) := by
  have hlength : 1 < (front ++ [last]).length := by simpa using List.length_pos_iff.mpr hne
  have hlength' : 1 < (front ++ [last, last]).length := by simp
  rw [root_of_one_lt_length hlength, root_of_one_lt_length hlength',
    parents_repeat_last front last h]

/-- Nor do the strings that are hashed for it. -/
theorem hashed_repeat_last : hashed (front ++ [last, last]) = hashed (front ++ [last]) := by
  have hlength : 1 < (front ++ [last]).length := by simpa using List.length_pos_iff.mpr hne
  have hlength' : 1 < (front ++ [last, last]).length := by simp
  rw [hashed_of_one_lt_length hlength, hashed_of_one_lt_length hlength',
    pairs_repeat_last front last h, parents_repeat_last front last h]

end

/-! ### Binding -/

variable {strings : List Bytes} {level level' : List Node}

/-- A level of the one tree that is alike to the second level of the other has a level below, which
is alike to the leaves of the other. -/
theorem exists_level_alike_of_parents (hstrings : ¬ Collide strings)
    (hlevel : hashed level ⊆ strings) (hlevel' : hashed level' ⊆ strings)
    (h : 1 < level.length) (h' : 1 < level'.length)
    (hupper : ∃ upper ∈ levels (parents level), Alike upper (parents level')) :
    ∃ upper ∈ levels level, Alike upper level' := by
  obtain ⟨upper, hmem, halike⟩ := hupper
  have hlower : ∃ lower ∈ levels level, 1 < lower.length ∧ upper = parents lower := by
    rw [levels_of_one_lt_length h]
    obtain rfl | ⟨lower, hlower, hlength, rfl⟩ := mem_levels_cases hmem
    · exact ⟨level, List.mem_cons_self, h, rfl⟩
    · exact ⟨lower, List.mem_cons_of_mem _ hlower, hlength, rfl⟩
  obtain ⟨lower, hlower, hlength, rfl⟩ := hlower
  refine ⟨lower, hlower, halike.of_parents hstrings ?_ ?_⟩
  · exact List.Subset.trans (map_joined_subset_hashed hlower hlength) hlevel
  · exact List.Subset.trans (map_joined_subset_hashed (mem_levels_self level') h') hlevel'

/-- **Lists with one root** stand at some level of each other's tree, up to repetitions. -/
theorem exists_level_alike (hstrings : ¬ Collide strings) (hlevel : hashed level ⊆ strings)
    (hlevel' : hashed level' ⊆ strings) (hne : level ≠ []) (hne' : level' ≠ [])
    (hroot : root level = root level') :
    (∃ upper ∈ levels level, Alike upper level') ∨ ∃ upper ∈ levels level', Alike upper level := by
  -- the induction goes up both trees at once, until one of them has come to its root
  fun_induction levels level generalizing level' with
  | case1 level hlength =>
    refine .inr ⟨[root level'], singleton_root_mem_levels hne', ?_⟩
    rw [← hroot, ← eq_singleton_root hne hlength]
    exact .refl level
  | case2 level hlength ih =>
    have h : 1 < level.length := Nat.not_le.mp hlength
    by_cases h' : 1 < level'.length
    · have hsub := hlevel
      have hsub' := hlevel'
      rw [hashed_of_one_lt_length h] at hsub
      rw [hashed_of_one_lt_length h'] at hsub'
      rw [root_of_one_lt_length h, root_of_one_lt_length h'] at hroot
      rw [← levels_of_one_lt_length h]
      refine (ih (List.append_subset.mp hsub).2 (List.append_subset.mp hsub').2
        (parents_ne_nil hne) (parents_ne_nil hne') hroot).imp ?_ ?_
      · exact exists_level_alike_of_parents hstrings hlevel hlevel' h h'
      · exact exists_level_alike_of_parents hstrings hlevel' hlevel h' h
    · refine .inl ⟨[root level], ?_, ?_⟩
      · rw [← levels_of_one_lt_length h]
        exact singleton_root_mem_levels hne
      · rw [hroot, ← eq_singleton_root hne' (Nat.not_lt.mp h')]
        exact .refl level'

/-- A level whose hashes are digests of strings that are no pairs has no level below. -/
theorem eq_of_alike_level (hstrings : ¬ Collide strings) (hlevel : hashed level ⊆ strings)
    (hleaf : ∀ a ∈ level', ∃ string ∈ strings, string.length ≠ 64 ∧ sha256d string = a)
    {upper : List Node} (hupper : upper ∈ levels level) (halike : Alike upper level') :
    upper = level := by
  obtain rfl | ⟨lower, hlower, hlength, rfl⟩ := mem_levels_cases hupper
  · rfl
  -- the first hash of an inner level is the digest of a pair, and a leaf at the same time
  exfalso
  match lower with
  | [] => simp at hlength
  | [only] => simp at hlength
  | left :: right :: rest =>
    have hparent : parent left right ∈ level' := halike.mem_iff.mp (by simp [parents])
    obtain ⟨string, hstring, hstringLength, hdigest⟩ := hleaf _ hparent
    have hpair : joined (left, right) ∈ strings :=
      hlevel (map_joined_subset_hashed hlower hlength (by simp [pairs]))
    rw [eq_of_not_collide hstrings hstring hpair hdigest] at hstringLength
    exact hstringLength (length_joined _)

/-- **A root commits to its leaves up to repetitions,** if the leaves are digests of strings that do
not have the length of a pair, and neither these nor the pairs collide. -/
theorem alike_of_root_eq {forms forms' : List Bytes} (hne : level ≠ []) (hne' : level' ≠ [])
    (hleaf : ∀ a ∈ level, ∃ form ∈ forms, form.length ≠ 64 ∧ sha256d form = a)
    (hleaf' : ∀ a ∈ level', ∃ form ∈ forms', form.length ≠ 64 ∧ sha256d form = a)
    (hcollide : ¬ Collide ((forms ++ hashed level) ++ (forms' ++ hashed level')))
    (hroot : root level = root level') : Alike level level' := by
  obtain ⟨hforms, hlevel⟩ := List.append_subset.mp
    (List.subset_append_left (forms ++ hashed level) (forms' ++ hashed level'))
  obtain ⟨hforms', hlevel'⟩ := List.append_subset.mp
    (List.subset_append_right (forms ++ hashed level) (forms' ++ hashed level'))
  obtain ⟨upper, hupper, halike⟩ | ⟨upper, hupper, halike⟩ :=
    exists_level_alike hcollide hlevel hlevel' hne hne' hroot
  · have hstring : ∀ a ∈ level', ∃ string ∈ (forms ++ hashed level) ++ (forms' ++ hashed level'),
        string.length ≠ 64 ∧ sha256d string = a := fun a ha =>
      let ⟨form, hform, hdigest⟩ := hleaf' a ha
      ⟨form, hforms' hform, hdigest⟩
    rwa [← eq_of_alike_level hcollide hlevel hstring hupper halike]
  · have hstring : ∀ a ∈ level, ∃ string ∈ (forms ++ hashed level) ++ (forms' ++ hashed level'),
        string.length ≠ 64 ∧ sha256d string = a := fun a ha =>
      let ⟨form, hform, hdigest⟩ := hleaf a ha
      ⟨form, hforms hform, hdigest⟩
    rw [← eq_of_alike_level hcollide hlevel' hstring hupper halike]
    exact halike.symm

end Merkle

end QuorumFinality
