/-
  One page of `pull` as a function (`Engine.applyPage`), for a Sync that nothing
  disturbs: the loop over the changes of the page, which are compared with the store
  as it is before the page, and the transaction that applies them.
-/
import Sshstate.Sync.Engine

namespace Sshstate.Sync

open Vault (Store)

variable (C : Suite)

/-- The loop of `applyPage`: the changes to apply, after `envs`. -/
def selectChanges (g : Genesis) (chain : Membership.Chain) (st : Store) :
    (todo envs : List Envelope) → Except Error (List Envelope)
  | [], envs => .ok envs
  | env :: todo, envs => do
    (verify C g st chain env).mapError (changeError env)
    let apply ← (ahead C st env).mapError (changeError env)
    selectChanges g chain st todo (if apply then envs ++ [env] else envs)

/-- A page of the log: its changes and its `NextCursor`. -/
structure Cut where
  changes : List Envelope
  nextCursor : ℕ
  deriving DecidableEq, Repr

/-- `Engine.applyPage`. -/
def applyPage (g : Genesis) (chain : Membership.Chain) (st : Store) (page : Cut) :
    Except Error Store := do
  let envs ← selectChanges C g chain st page.changes []
  st.applyRemoteBatch C page.nextCursor envs

/-- Pages applied one after another. -/
def applyPages (g : Genesis) (chain : Membership.Chain) (st : Store) (pages : List Cut) :
    Except Error Store :=
  pages.foldlM (applyPage C g chain) st

end Sshstate.Sync
