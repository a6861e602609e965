/-
  A client that syncs with a relay that others use.

  The others submit records, import them and append membership events at any time, and
  what they send is arbitrary.  The relay answers each request in a goroutine of its own.
  `PutRecord` and `ImportRecords` read the chain before their transaction, so a call of
  another client is two steps, `put` or `importBatch` and then `transact`.
  `AppendMembership` is one: its `INSERT` fails unless the chain is still the one it read.

  `histories` records the ids that the relay's history has had; no step reads it.
-/
import Sshstate.Sync.Rejoin

namespace Sshstate.Sync.Shared

open Vault (Store Manager)
open Relay (ImportRequest)

variable (C : Suite)

/-- A call that has read the chain. -/
inductive Checked where
  | put (vaultID : ID) (env : Envelope) (digest : Bytes)
  | importBatch (vaultID : ID) (req : ImportRequest) (chain : Membership.Chain)

/-- The relay after the transaction of a call; a failed one is rolled back. -/
def Checked.transact (r : Relay.Store) (now freshID : String) : Checked → Relay.Store
  | .put v env digest => match r.transact C v env digest now with
    | .ok (_, r') => r'
    | .error _ => r
  | .importBatch v req chain => match r.importTransaction C chain v req now freshID with
    | .ok (_, r') => r'
    | .error _ => r

structure World where
  relay : Relay.Store
  calls : List Checked
  store : Store
  sync : Option Phase
  histories : List String

inductive Label where
  /-- The checks of a `PutRecord` of another client. -/
  | put (vaultID : ID) (env : Envelope)
  /-- An `ImportRecords` of another client reads the chain. -/
  | importBatch (vaultID : ID) (req : ImportRequest)
  /-- The transaction of a call; `freshID` is the id of the history it may start. -/
  | transact (i : ℕ) (now freshID : String)
  | append (vaultID : ID) (ev : SignedMembershipEvent)
  | edit (edits : List Manager.Edit)
  | start
  /-- An access of the Sync to its store. -/
  | work (draw : Draw)
  /-- A request of the Sync, with its answer. -/
  | call (now : String)
  | stop

variable (e : Engine)

/-- The world after the relay changed. -/
def World.setRelay (W : World) (r : Relay.Store) : World :=
  { W with relay := r, histories := r.history :: W.histories }

def World.step (W : World) : Label → Option World
  | .put v env => do
    let digest ← (W.relay.checkSubmission C v env).toOption
    some { W with calls := W.calls ++ [.put v env digest] }
  | .importBatch v req => do
    let chain ← (W.relay.chain C v).toOption
    some { W with calls := W.calls ++ [.importBatch v req chain] }
  | .transact i now freshID => do
    let c ← W.calls[i]?
    some ({ W with calls := W.calls.eraseIdx i }.setRelay (c.transact C W.relay now freshID))
  | .append v ev => do
    let (_, r) ← (W.relay.appendMembership C v ev).toOption
    some (W.setRelay r)
  | .edit edits => do
    let envs ← (edits.mapM (e.manager.sealEdit C W.store)).toOption
    let st ← (W.store.applyLocalBatch C envs).toOption
    some { W with store := st }
  | .start => if W.sync.isSome then none else some { W with sync := some .start }
  | .work draw => do
    let p ← W.sync
    let (st, p') ← Sync.work C e draw W.store p
    some { W with store := st, sync := some p' }
  | .call now => do
    let p ← W.sync
    let req ← p.request
    let (reply, r) := W.relay.answer C (Rejoin.sender C e) now req
    let p' ← p.receive reply
    some ({ W with sync := some p' }.setRelay r)
  | .stop => some { W with sync := none }

/-- A client with the store `st`, and a relay that holds its vault and no record yet. -/
def World.start (events : List SignedMembershipEvent) (history origin : String) (st : Store) : World :=
  { relay := .created e.manager.genesis events history origin, calls := [], store := st,
    sync := none, histories := [history] }

end Sshstate.Sync.Shared
