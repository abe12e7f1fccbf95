import QuorumFinality.Quorum.Type

/-!
# Networks

A network is a chain with its own quorums: it says which quorum types exist on it and which of
them sign chain locks and instant locks.

## Main definitions

* `Network`: the main chain and the three kinds of test chains.
* `Network.quorumTypes`: the quorum types of a network, in the order in which they are listed.
* `Network.chainLockType`, `Network.instantSendType`: the types that sign locks.

## Main results

* `Network.chainLockType_mem`, `Network.instantSendType_mem`: the signing types exist.
-/

namespace QuorumFinality

/-- A chain with its own masternodes and quorums. -/
inductive Network where
  /-- The main chain. -/
  | mainnet
  /-- The public test chain. -/
  | testnet
  /-- A private development chain. -/
  | devnet
  /-- A local chain for regression tests. -/
  | regtest
  deriving DecidableEq, Ord

namespace Network

/-- The number that starts every message of the network. -/
def magic : Network → Nat
  | mainnet => 0xBD6B0CBF
  | testnet => 0xFFCAE2CE
  | devnet => 0xCEFFCAE2
  | regtest => 0xDAB5BFFA

/-- The network whose messages start with a number. -/
def ofMagic? (magic : Nat) : Option Network :=
  [mainnet, testnet, devnet, regtest].find? (·.magic = magic)

/-- The name of the network. -/
def name : Network → String
  | mainnet => "dash"
  | testnet => "testnet"
  | devnet => "devnet"
  | regtest => "regtest"

/-- The network of a name; the main chain has two further names. -/
def ofName? : String → Option Network
  | "dash" | "mainnet" | "livenet" => some mainnet
  | "testnet" => some testnet
  | "devnet" => some devnet
  | "regtest" => some regtest
  | _ => none

/-- The wording for a name that no network has. -/
def unknownMessage (name : String) : String :=
  "unknown network: " ++ name

/-- The quorum type that signs instant locks. -/
def instantSendType : Network → QuorumType
  | mainnet | testnet => .llmq50_60
  | devnet => .devnet
  | regtest => .test

/-- The quorum type that signs chain locks. -/
def chainLockType : Network → QuorumType
  | mainnet => .llmq400_60
  | testnet => .llmq50_60
  | devnet => .devnet
  | regtest => .test

/-- The quorum types that exist on the network, in the order in which quorums are listed. -/
def quorumTypes : Network → List QuorumType
  | mainnet | testnet => [.llmq50_60, .llmq400_60, .llmq400_85]
  | devnet => [.devnet, .llmq50_60, .llmq400_60, .llmq400_85]
  | regtest => [.test, .llmq50_60]

theorem chainLockType_mem (network : Network) :
    network.chainLockType ∈ network.quorumTypes := by
  cases network <;> decide

theorem instantSendType_mem (network : Network) :
    network.instantSendType ∈ network.quorumTypes := by
  cases network <;> decide

end Network

end QuorumFinality
