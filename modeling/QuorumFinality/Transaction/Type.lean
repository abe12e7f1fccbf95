import QuorumFinality.Wire.Basic

/-!
# Transaction types

A classic transaction moves coins and nothing else. The other types carry a payload that
registers masternodes, commits to quorums, or records the state of the chain in its coinbase.
-/

namespace QuorumFinality

/-- What a transaction is for. -/
inductive TransactionType where
  /-- Moves coins. -/
  | classic
  /-- Registers a masternode. -/
  | providerRegistration
  /-- Changes the service address of a masternode. -/
  | providerUpdateService
  /-- Changes the keys of a masternode. -/
  | providerUpdateRegistrar
  /-- Withdraws the operator key of a masternode. -/
  | providerUpdateRevocation
  /-- Pays for a block and commits to the masternodes and the quorums. -/
  | coinbase
  /-- Carries the final commitment of a quorum. -/
  | quorumCommitment
  /-- Signals for a change of the rules by masternodes. -/
  | hardForkSignal
  /-- Moves coins into the asset pool. -/
  | assetLock
  /-- Moves coins out of the asset pool. -/
  | assetUnlock
  deriving DecidableEq, Ord

namespace TransactionType

/-- The number that names the type. -/
def number : TransactionType → Nat
  | classic => 0
  | providerRegistration => 1
  | providerUpdateService => 2
  | providerUpdateRegistrar => 3
  | providerUpdateRevocation => 4
  | coinbase => 5
  | quorumCommitment => 6
  | hardForkSignal => 7
  | assetLock => 8
  | assetUnlock => 9

/-- The type that a number names. -/
def ofNumber? : Nat → Except DecodeError TransactionType
  | 0 => .ok classic
  | 1 => .ok providerRegistration
  | 2 => .ok providerUpdateService
  | 3 => .ok providerUpdateRegistrar
  | 4 => .ok providerUpdateRevocation
  | 5 => .ok coinbase
  | 6 => .ok quorumCommitment
  | 7 => .ok hardForkSignal
  | 8 => .ok assetLock
  | 9 => .ok assetUnlock
  | _ => .error (.malformed .unknownTransactionType)

theorem ofNumber?_number (t : TransactionType) : ofNumber? t.number = .ok t := by
  cases t <;> rfl

/-- The name of the type. -/
def label : TransactionType → String
  | classic => "Classic"
  | providerRegistration => "Provider Registration"
  | providerUpdateService => "Provider Update Service"
  | providerUpdateRegistrar => "Provider Update Registrar"
  | providerUpdateRevocation => "Provider Update Revocation"
  | coinbase => "Coinbase"
  | quorumCommitment => "Quorum Commitment"
  | hardForkSignal => "Masternode Hard Fork Signal"
  | assetLock => "Asset Lock"
  | assetUnlock => "Asset Unlock"

end TransactionType

end QuorumFinality
