import QuorumFinality.Quorum.Verification
import QuorumFinality.Store.Basic

/-!
# Verifying the quorums of a store

The list at the block of a quorum, which its members are drawn from, is looked up in the store. A
quorum whose block has left the window is skipped. Verifying changes nothing but the statuses of
the quorums of the latest list.

## Main definitions

* `Store.verifyQuorum`: one quorum, which need not be part of the store.
* `Store.verifyCurrent`: every quorum of the latest list, and how many of them are verified.
-/

namespace QuorumFinality

namespace Store

variable (scheme : SignatureScheme)

/-- Verifies a quorum against the list at its block. -/
def verifyQuorum (s : Store) (q : Quorum) : Quorum × Except ListError Bool :=
  match s.listAtQuorum q.entry.quorumHash with
  | .error error => (q, .error error)
  | .ok list =>
    let (q, result) := q.verify scheme list
    (q, result.mapError .invalidQuorum)

/-- How far a pass over the quorums has come: the count of verified ones, or what ended it. -/
abbrev Tally := Except ListError Nat

/-- Verifies the next quorum of a pass; a pass that has ended leaves it as it is. -/
def verifyNext (s : Store) (tally : Tally) (q : Quorum) : Tally × Quorum :=
  match tally with
  | .error error => (.error error, q)
  | .ok count =>
    match s.verifyQuorum scheme q with
    | (q, .ok true) => (.ok (count + 1), q)
    | (q, .ok false) => (.ok count, q)
    | (q, .error (.missingQuorumList hash)) =>
      (.ok count, { q with status := .skipped (.missedList hash) })
    | (q, .error error) => (.error error, q)

/-- Verifies the quorums of a type, oldest first. -/
def verifyBucket (s : Store) (tally : Tally) : List Quorum → Tally × List Quorum
  | [] => (tally, [])
  | q :: rest =>
    let (tally, q) := s.verifyNext scheme tally q
    let (tally, rest) := s.verifyBucket tally rest
    (tally, q :: rest)

/-- A store whose latest list has no quorums. -/
def withoutQuorums (s : Store) : Store :=
  { s with tip := { s.tip with quorums := OrderedMap.empty } }

/-- Verifies every quorum of the latest list. The result is how many are verified then. The
quorums are taken out of the list while this goes on: what is asked of a list is its block and its
masternodes. -/
def verifyCurrent (s : Store) : Store × Except ListError Nat :=
  let (tally, quorums) := s.tip.quorums.mapAccum (s.withoutQuorums.verifyBucket scheme) (.ok 0)
  ({ s with tip := { s.tip with quorums } }, tally)

end Store

end QuorumFinality
