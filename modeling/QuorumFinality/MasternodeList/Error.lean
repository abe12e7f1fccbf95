import QuorumFinality.Quorum.Status

/-!
# What can go wrong with lists and stores

A difference is refused when it does not commit to what it leads to, a question when it is about a
block that is not kept, and a store when it cannot be large enough to check locks.
-/

namespace QuorumFinality

/-- Why a list or a store refuses a difference or a question. -/
inductive ListError where
  /-- A quorum is not valid. -/
  | invalidQuorum (fault : QuorumFault)
  /-- The masternodes do not have the root that the difference declares. -/
  | masternodeRootMismatch (declared calculated : MasternodeRoot)
  /-- The quorums do not have the root that the difference declares. -/
  | quorumRootMismatch (declared calculated : QuorumRoot)
  /-- The height is before the first or behind the last list that is kept. -/
  | heightOutOfRange (height base tip : UInt32)
  /-- A store is to be made of too few differences. -/
  | tooFewDiffs (required provided : Nat)
  /-- A difference does not start where the last list is. -/
  | notContiguous (tip base : BlockHash)
  /-- The coinbase of a difference commits to nothing. -/
  | missingCoinbasePayload (block : BlockHash)
  /-- The list was not made by a difference. -/
  | missingCoinbaseTransaction (block : BlockHash)
  /-- No list of the block is kept. -/
  | unknownBlock (block : BlockHash)
  /-- No list of the block of a quorum is kept. -/
  | missingQuorumList (quorum : QuorumHash)
  /-- The configuration of a store breaks a rule. -/
  | invalidConfig (reason : String)
  deriving DecidableEq

/-- The wording of a mismatch between the root that is declared and the one that is calculated. -/
def ListError.mismatchMessage (what declared calculated : String) : String :=
  what ++ " merkle root mismatch: diff declares " ++ declared ++ ", calculated " ++ calculated

/-- The wording of an error. -/
def ListError.message : ListError → String
  | invalidQuorum fault => fault.message
  | masternodeRootMismatch declared calculated =>
    mismatchMessage "masternode list" declared.text calculated.text
  | quorumRootMismatch declared calculated =>
    mismatchMessage "quorum list" declared.text calculated.text
  | heightOutOfRange height base tip =>
    "unable to construct SML at this height: " ++ toString height.toNat ++ " is outside " ++
      toString base.toNat ++ "..=" ++ toString tip.toNat
  | tooFewDiffs required provided =>
    "at least " ++ toString required ++ " diffs are needed to build a store, got " ++
      toString provided
  | notContiguous tip base =>
    "diff based on " ++ base.text ++ " does not follow the tip " ++ tip.text
  | missingCoinbasePayload block =>
    "the coinbase transaction of block " ++ block.text ++ " carries no coinbase payload"
  | missingCoinbaseTransaction block =>
    "masternode list at block " ++ block.text ++ " holds no coinbase transaction"
  | unknownBlock block =>
    "block " ++ block.text ++ " is not part of the retained masternode lists"
  | missingQuorumList quorum =>
    "no masternode list is known at quorum block " ++ quorum.text
  | invalidConfig reason => "invalid store configuration: " ++ reason

end QuorumFinality
