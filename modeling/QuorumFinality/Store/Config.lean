import QuorumFinality.Network

/-!
# The configuration of a store

A store keeps the lists of so many blocks. To check a lock it has to reach back sixteen blocks, so
it has to keep at least as many lists.

## Main definitions

* `signingOffset`: how many blocks before a lock its signers are looked up.
* `StoreConfig`: the configuration.
* `StoreConfig.validate`: the least number of lists.
-/

namespace QuorumFinality

/-- How many blocks before a lock its signers are looked up. -/
def signingOffset : Nat := 8

/-- The configuration of a store. -/
structure StoreConfig where
  /-- The network that the differences belong to. -/
  network : Network
  /-- How many lists are kept, the base list among them. -/
  maxLists : UInt64
  deriving DecidableEq

namespace StoreConfig

/-- The least number of lists that a store may keep, and be made of. -/
def minLists : Nat := 2 * signingOffset

/-- How many lists are kept unless told otherwise. -/
def defaultMaxLists : UInt64 := 1000

/-- The configuration for a network, or for the main chain, unless told otherwise. -/
def default (network : Network) : StoreConfig :=
  ⟨network, defaultMaxLists⟩

/-- Refuses a limit that is too low to check locks. -/
def validate (config : StoreConfig) : Except String Unit :=
  if config.maxLists.toNat < minLists then
    .error ("max_lists_limit must be at least " ++ toString minLists ++ ", got " ++
      toString config.maxLists.toNat)
  else .ok ()

end StoreConfig

end QuorumFinality
