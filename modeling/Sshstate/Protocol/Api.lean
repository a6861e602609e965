/-
  The requests of a Sync and their answers (`internal/protocol/api.go`,
  `internal/relayclient/client.go`).

  An answer is what the call of the client returns: the decoded response, or an
  error, which is also what a lost answer becomes.
-/
import Sshstate.Protocol.Objects

namespace Sshstate

/-- The requests a Sync makes. -/
inductive Request where
  | membership
  | records (since through limit : ℕ)
  | putRecord (env : Envelope)
  deriving DecidableEq, Repr

def historyCreated : String := "created"
def historySeeded : String := "seeded"
def historyRestarted : String := "restarted"

structure RecordsResponse where
  changes : List Envelope
  nextCursor : ℕ
  snapshotCursor : ℕ
  hasMore : Bool
  history : String
  historyOrigin : String
  deriving DecidableEq, Repr

/-- `PutResult`; `PutRecord` returns no rejection without a head. -/
inductive PutResult where
  | accepted (seq : ℕ) (digest : Option Bytes)
  | rejected (head : Envelope)
  deriving DecidableEq, Repr

inductive Reply where
  | membership (r : Except Error (List SignedMembershipEvent))
  | records (r : Except Error RecordsResponse)
  | putRecord (r : Except Error PutResult)

end Sshstate
