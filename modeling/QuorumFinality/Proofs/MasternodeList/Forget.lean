import QuorumFinality.OrderedMap.Lemmas
import QuorumFinality.Proofs.MasternodeList.Apply

/-!
# Lists up to the statuses of their quorums

Whether a quorum has been verified is a note that a store makes in its latest list. A list that is
made again from the base carries no such notes, so two lists for one block agree only once the
statuses are forgotten.

Forgetting is harmless because no difference looks at a status: neither the changes nor the roots
depend on one. It does not commute with applying a difference outright, since new quorums arrive
with an initial status that forgetting would lose. What holds is that forgetting *before* makes no
difference to somebody who forgets *after*.

## Main definitions

* `Quorum.forget`, `MasternodeList.forget` — without the statuses

## Main results

* `MasternodeList.forget_apply` — a difference is applied alike to lists that differ in statuses
* `MasternodeList.exists_apply_eq_ok_of_forget` — in particular both accept it, or neither does
-/

namespace QuorumFinality

/-- A quorum as if nobody had tried to verify it. -/
def Quorum.forget (q : Quorum) : Quorum :=
  { q with status := .unknown }

@[simp] theorem Quorum.entry_forget (q : Quorum) : q.forget.entry = q.entry := rfl

@[simp] theorem Quorum.entryHash_forget (q : Quorum) : q.forget.entryHash = q.entryHash := rfl

@[simp] theorem Quorum.forget_forget (q : Quorum) : q.forget.forget = q.forget := rfl

namespace MasternodeList

/-- Quorums as if nobody had tried to verify them. -/
def forgetIn (quorums : QuorumMap) : QuorumMap :=
  quorums.mapValues (List.map Quorum.forget)

/-- A list as if nobody had tried to verify its quorums. -/
def forget (list : MasternodeList) : MasternodeList :=
  { list with quorums := forgetIn list.quorums }

@[simp] theorem blockHash_forget (list : MasternodeList) :
    list.forget.blockHash = list.blockHash := rfl

@[simp] theorem height_forget (list : MasternodeList) : list.forget.height = list.height := rfl

@[simp] theorem network_forget (list : MasternodeList) : list.forget.network = list.network := rfl

@[simp] theorem masternodes_forget (list : MasternodeList) :
    list.forget.masternodes = list.masternodes := rfl

theorem get?_forgetIn (quorums : QuorumMap) (type : QuorumType) :
    (forgetIn quorums).get? type = (quorums.get? type).map (List.map Quorum.forget) :=
  OrderedMap.get?_mapValues _ _ _

@[simp] theorem forgetIn_forgetIn (quorums : QuorumMap) :
    forgetIn (forgetIn quorums) = forgetIn quorums := by
  simp only [forgetIn, OrderedMap.mapValues_mapValues]
  congr 1
  funext bucket
  simp

@[simp] theorem forget_forget (list : MasternodeList) : list.forget.forget = list.forget := by
  simp [forget]

theorem quorumsOfType_forget (list : MasternodeList) (type : QuorumType) :
    list.forget.quorumsOfType type = (list.quorumsOfType type).map Quorum.forget := by
  simp only [quorumsOfType, forget, get?_forgetIn]
  cases list.quorums.get? type <;> rfl

/-! ### What is calculated from quorums -/

theorem quorumCount_forgetIn (quorums : QuorumMap) :
    quorumCount (forgetIn quorums) = quorumCount quorums := by
  simp [quorumCount, forgetIn, OrderedMap.values_mapValues, ← List.map_flatten]

theorem hasLegacy_forgetIn (quorums : QuorumMap) :
    hasLegacy (forgetIn quorums) = hasLegacy quorums := by
  simp [hasLegacy, forgetIn, OrderedMap.values_mapValues, Function.comp_def]

theorem quorumRootOf_forgetIn (quorums : QuorumMap) :
    quorumRootOf (forgetIn quorums) = quorumRootOf quorums := by
  simp [quorumRootOf, quorumLeaves, forgetIn, OrderedMap.values_mapValues, List.flatMap_map,
    Function.comp_def]

theorem acceptQuorumRoot_forgetIn (quorums : QuorumMap) (declared : QuorumRoot) :
    acceptQuorumRoot (forgetIn quorums) declared = acceptQuorumRoot quorums declared := by
  simp only [acceptQuorumRoot, quorumRootOf_forgetIn, quorumCount_forgetIn, hasLegacy_forgetIn]

/-! ### What a difference does to quorums -/

theorem forgetIn_deleteQuorum (quorums : QuorumMap) (deleted : DeletedQuorum) :
    forgetIn (deleteQuorum quorums deleted) = deleteQuorum (forgetIn quorums) deleted := by
  unfold deleteQuorum
  rw [get?_forgetIn]
  cases quorums.get? deleted.type with
  | none => rfl
  | some bucket =>
    simp only [Option.map_some, forgetIn, OrderedMap.mapValues_insert, List.filter_map]
    rfl

theorem map_push (f : Quorum → Quorum) (limit : Nat) (bucket : List Quorum) (q : Quorum) :
    (push limit bucket q).map f = push limit (bucket.map f) (f q) := by
  simp only [push, List.map_append, List.length_map]
  split <;> simp

/-- Adding a quorum looks at no status of those that are there. -/
theorem forgetIn_addQuorum (network : Network) (quorums : QuorumMap) (entry : QuorumEntry) :
    forgetIn (addQuorum network quorums entry) =
      forgetIn (addQuorum network (forgetIn quorums) entry) := by
  simp only [addQuorum, get?_forgetIn]
  split
  · simp only [forgetIn, OrderedMap.mapValues_insert, map_push]
    rw [← forgetIn, ← forgetIn, forgetIn_forgetIn]
    cases quorums.get? entry.type <;> simp [Function.comp_def]
  · rw [forgetIn_forgetIn]

/-- If each step looks at no status, then neither does a sequence of steps. -/
theorem forgetIn_foldl {α : Type} {step : QuorumMap → α → QuorumMap}
    (hstep : ∀ quorums a, forgetIn (step quorums a) = forgetIn (step (forgetIn quorums) a))
    (l : List α) (quorums : QuorumMap) :
    forgetIn (l.foldl step quorums) = forgetIn (l.foldl step (forgetIn quorums)) := by
  induction l generalizing quorums with
  | nil => simp
  | cons a l ih =>
    simp only [List.foldl_cons]
    rw [ih (step quorums a), hstep, ← ih]

theorem forgetIn_applyQuorums (network : Network) (quorums : QuorumMap) (diff : ListDiff) :
    forgetIn (applyQuorums network quorums diff) =
      forgetIn (applyQuorums network (forgetIn quorums) diff) := by
  have hfilter (m : QuorumMap) : forgetIn (m.filter fun _ bucket => !bucket.isEmpty) =
      (forgetIn m).filter fun _ bucket => !bucket.isEmpty :=
    OrderedMap.mapValues_filter _ _ _ fun _ bucket => by cases bucket <;> rfl
  have hdelete (m : QuorumMap) (deleted : DeletedQuorum) : forgetIn (deleteQuorum m deleted) =
      forgetIn (deleteQuorum (forgetIn m) deleted) := by
    rw [← forgetIn_deleteQuorum, forgetIn_forgetIn]
  simp only [applyQuorums, hfilter]
  rw [forgetIn_foldl (forgetIn_addQuorum network), forgetIn_foldl hdelete,
    ← forgetIn_foldl (forgetIn_addQuorum network)]

/-! ### Applying differences -/

/-- A list is determined up to statuses by its quorums up to statuses and by everything else. -/
theorem forget_setQuorums (list : MasternodeList) {quorums quorums' : QuorumMap}
    (h : forgetIn quorums = forgetIn quorums') :
    { list with quorums := quorums }.forget = { list with quorums := quorums' }.forget := by
  simp only [forget, h]

/-- **No difference looks at a status.** It is refused for the same reason, or leads to the same
list up to statuses, whatever the statuses were before. -/
theorem forget_apply (list : MasternodeList) (diff : ListDiff) :
    (list.apply diff).map forget = (list.forget.apply diff).map forget := by
  unfold apply
  cases diff.coinbasePayload? with
  | none => rfl
  | some payload =>
    have hquorums := forgetIn_applyQuorums list.network list.quorums diff
    have hroot : acceptQuorumRoot (applyQuorums list.network list.quorums diff)
        payload.quorumRoot = acceptQuorumRoot
          (applyQuorums list.network (forgetIn list.quorums) diff) payload.quorumRoot := by
      rw [← acceptQuorumRoot_forgetIn, hquorums, acceptQuorumRoot_forgetIn]
    simp only [masternodes_forget, network_forget]
    cases acceptMasternodeRoot (applyMasternodes list.masternodes diff)
      payload.masternodeRoot with
    | error error => rfl
    | ok masternodeRoot =>
      let next := { list.advance diff payload with
        masternodes := applyMasternodes list.masternodes diff, masternodeRoot }
      cases payload.hasQuorums with
      | false =>
        exact congrArg Except.ok (forget_setQuorums next (forgetIn_forgetIn list.quorums).symm)
      | true =>
        simp only [bind, Except.bind, if_true, hroot, forget]
        cases acceptQuorumRoot (applyQuorums list.network (forgetIn list.quorums) diff)
          payload.quorumRoot with
        | error error => rfl
        | ok quorumRoot =>
          exact congrArg Except.ok (forget_setQuorums
            { next with quorumRoot, declaredQuorumRoot := payload.quorumRoot } hquorums)

/-- What one of two lists that differ in statuses accepts, the other accepts as well. -/
theorem exists_apply_eq_ok_of_forget {list list' next : MasternodeList} {diff : ListDiff}
    (hlist : list.forget = list'.forget) (h : list.apply diff = .ok next) :
    ∃ next', list'.apply diff = .ok next' ∧ next'.forget = next.forget := by
  have hmap : (list'.apply diff).map forget = .ok next.forget := by
    rw [forget_apply, ← hlist, ← forget_apply, h]
    rfl
  exact map_eq_ok_iff.mp hmap

end MasternodeList

end QuorumFinality
