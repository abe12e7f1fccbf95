import QuorumFinality.MasternodeList.Apply
import QuorumFinality.Store.Config

/-!
# A window of masternode lists

A store keeps the list at its base, the differences that follow it, and the list at its tip. The
list at any height in between is made again from the base. When the window holds more lists than
it may, the oldest difference is folded into the base.

## Main definitions

* `Store`: the window.
* `Store.build`, `Store.addDiff`: making a store, and extending one. The second gives the store
  that is left together with what became of the difference.
* `Store.listAtHeight`, `Store.listAtBlock`, `Store.listAtQuorum`: the lists that are kept.
-/

namespace QuorumFinality

/-- The lists of consecutive blocks. -/
structure Store where
  /-- The configuration. -/
  config : StoreConfig
  /-- The oldest list. -/
  base : MasternodeList
  /-- The differences after the oldest list, each with the height that it leads to. -/
  diffs : List (UInt32 × ListDiff)
  /-- The latest list. -/
  tip : MasternodeList
  deriving DecidableEq

namespace Store

/-- The height of the oldest list. -/
def baseHeight (s : Store) : UInt32 := s.base.height

/-- The height of the latest list. -/
def tipHeight (s : Store) : UInt32 := s.tip.height

/-- The heights of the lists, oldest first. -/
def heights (s : Store) : List UInt32 :=
  s.baseHeight :: s.diffs.map Prod.fst

/-! ### Extending the window -/

/-- Folds the oldest differences into a base list until `limit` lists are left. One that the base
list does not accept ends this and is dropped. -/
def fold (limit : Nat) (base : MasternodeList) :
    List (UInt32 × ListDiff) →
      MasternodeList × List (UInt32 × ListDiff) × Except ListError Unit
  | [] => (base, [], .ok ())
  | (height, diff) :: rest =>
    if limit < rest.length + 2 then
      match base.apply diff with
      | .error error => (base, rest, .error error)
      | .ok base => fold limit base rest
    else (base, (height, diff) :: rest, .ok ())

/-- Folds the oldest differences of a store until it keeps no more lists than it may. -/
def prune (s : Store) : Store × Except ListError Unit :=
  let (base, diffs, result) := fold s.config.maxLists.toNat s.base s.diffs
  ({ s with base, diffs }, result)

/-- Extends a store by a difference that starts at its tip. -/
def addDiff (s : Store) (diff : ListDiff) : Store × Except ListError Unit :=
  if diff.baseBlockHash ≠ s.tip.blockHash then
    (s, .error (.notContiguous s.tip.blockHash diff.baseBlockHash))
  else
    match s.tip.apply diff with
    | .error error => (s, .error error)
    | .ok tip => prune { s with diffs := s.diffs ++ [(tip.height, diff)], tip }

/-- Extends a store by differences until one is refused. -/
def addDiffs (s : Store) : List ListDiff → Except ListError Store
  | [] => .ok s
  | diff :: rest =>
    match s.addDiff diff with
    | (s, .ok ()) => s.addDiffs rest
    | (_, .error error) => .error error

/-- A store of consecutive differences, the first of which makes the base list. -/
def build (config : StoreConfig) (diffs : List ListDiff) : Except ListError Store :=
  match config.validate with
  | .error reason => .error (.invalidConfig reason)
  | .ok () =>
    if diffs.length < StoreConfig.minLists then
      .error (.tooFewDiffs StoreConfig.minLists diffs.length)
    else
      match diffs with
      | [] => .error (.tooFewDiffs StoreConfig.minLists 0)
      | first :: rest => do
        let base ← MasternodeList.ofDiff first config.network
        addDiffs { config, base, diffs := [], tip := base } rest

/-! ### Asking for a list -/

/-- The differences up to a height. -/
def diffsUpTo (s : Store) (height : UInt32) : List ListDiff :=
  (s.diffs.takeWhile fun d => d.1.toNat ≤ height.toNat).map Prod.snd

/-- The list of the last block that is kept at or below a height. -/
def listAtHeight (s : Store) (height : UInt32) : Except ListError MasternodeList :=
  if height.toNat < s.baseHeight.toNat ∨ s.tipHeight.toNat < height.toNat then
    .error (.heightOutOfRange height s.baseHeight s.tipHeight)
  else if height = s.tipHeight then .ok s.tip
  else s.base.applyAll (s.diffsUpTo height)

/-- The list of a block. -/
def listAtBlock (s : Store) (block : BlockHash) : Except ListError MasternodeList :=
  if block = s.base.blockHash then .ok s.base
  else
    match s.diffs.find? fun d => d.2.blockHash = block with
    | none => .error (.unknownBlock block)
    | some (height, _) => s.listAtHeight height

/-- The list of the block at which a quorum's key generation started. -/
def listAtQuorum (s : Store) (quorum : QuorumHash) : Except ListError MasternodeList :=
  match s.listAtBlock quorum.retype with
  | .error (.unknownBlock _) => .error (.missingQuorumList quorum)
  | result => result

end Store

end QuorumFinality
