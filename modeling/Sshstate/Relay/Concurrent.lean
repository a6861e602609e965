/-
  Submissions and membership events that are handled at the same time.

  The relay answers each request in a goroutine of its own.  Two of them interleave
  between statements: a `SELECT` or `INSERT` outside a transaction is one step, and
  so is a whole transaction.  A `Task` is a call between two of its steps, with what
  it has read so far; checks without a statement belong to the step before them.

  `PutRecord` reads the chain (`verifyRecordSignature`) before its transaction, and
  `AppendMembership` reads it before its `INSERT`, which fails if the place in the
  chain is taken.
-/
import Sshstate.Relay.Store

namespace Sshstate.Relay

variable (C : Suite)

namespace Store

/-- The checks of `PutRecord` that need no statement. -/
def checkEnvelope (vaultID : ID) (env : Envelope) : Except Error Bytes := do
  env.validate.mapError fun err => .protocol .invalidRequest "%v" [err.text]
  .require (env.context.vaultID = vaultID)
    (.protocol .idMismatch "envelope names another vault" [])
  .require ((C.canonical (.envelope env)).length ≤ maxObjectBytes)
    (.protocol .bodyTooLarge "record envelope is %d bytes, the limit is %d"
      [toString (C.canonical (.envelope env)).length, toString maxObjectBytes])
  env.digestE C

/-- The rest of `Store.Chain`, once genesis and the events are read. -/
def readChain (g : Genesis) (events : List SignedMembershipEvent) : Except Error Membership.Chain :=
  (Membership.validate C g events).mapError (.wrap "stored membership chain: %w" [])

/-- The rest of `verifyRecordSignature`, once the chain is read. -/
def checkWriter (chain : Membership.Chain) (env : Envelope) : Except Error Unit :=
  match chain.device env.context.updatedBy with
  | none => .error (.protocol .deviceUnknown
      "record names writer %s, which is not in the membership chain" [ID.text env.context.updatedBy])
  | some d => do
    .require (d.revoked = false) (.protocol .deviceRevoked
      "record names writer %s, which was revoked" [ID.text env.context.updatedBy])
    .require (C.verify d.verifyKey recordSignatureDomain (env.signingInput C) env.signature = true)
      (.protocol .signatureInvalid "record signature does not verify" [])

/-- The rest of `AppendMembership` up to its `INSERT`. -/
def checkAppend (chain : Membership.Chain) (ev : SignedMembershipEvent) :
    Except Error Membership.Chain := do
  let next ← (chain.append C ev).mapError fun err => .protocol .chainMismatch "%v" [err.text]
  .require (ev.event.chainSeq ≤ maxInt64)
    (.protocol .invalidRequest "%s is too large to store" ["chain_seq"])
  return next

/-- The `INSERT` of `AppendMembership`: `chain_seq` is the key of the table, and the
    order in which it is read. -/
def insertMembership (st : Store) (ev : SignedMembershipEvent) : Except Error Store := do
  .require (ev.event.chainSeq ∉ st.membership.map (·.event.chainSeq))
    (.protocol .chainMismatch "another event was appended first" [])
  return { st with membership :=
    st.membership.orderedInsert (fun a b => a.event.chainSeq ≤ b.event.chainSeq) ev }

end Store

/-- A call between two of its steps. -/
inductive Task where
  | put (vaultID : ID) (env : Envelope) (now : String)
  | putGenesis (vaultID : ID) (env : Envelope) (now : String) (digest : Bytes) (g : Genesis)
  | putChecked (vaultID : ID) (env : Envelope) (now : String) (digest : Bytes)
  | putDone (result : Except Error Store.PutOutcome)
  | append (vaultID : ID) (ev : SignedMembershipEvent)
  | appendGenesis (ev : SignedMembershipEvent) (g : Genesis)
  | appendChecked (ev : SignedMembershipEvent) (next : Membership.Chain)
  | appendDone (result : Except Error Membership.Chain)
  deriving DecidableEq

/-- The next step of a call, with the store after it; `none` for a call that has
    returned. -/
def Task.next (st : Store) : Task → Option (Task × Store)
  | .put v env now =>
    match (do return (← Store.checkEnvelope C v env, ← st.genesis v) : Except Error _) with
    | .error err => some (.putDone (.error err), st)
    | .ok (digest, g) => some (.putGenesis v env now digest g, st)
  | .putGenesis v env now digest g =>
    match (do Store.checkWriter C (← Store.readChain C g st.membership) env : Except Error _) with
    | .error err => some (.putDone (.error err), st)
    | .ok _ => some (.putChecked v env now digest, st)
  | .putChecked v env now digest =>
    match st.transact C v env digest now with
    | .error err => some (.putDone (.error err), st)
    | .ok (out, st') => some (.putDone (.ok out), st')
  | .append v ev =>
    match st.genesis v with
    | .error err => some (.appendDone (.error err), st)
    | .ok g => some (.appendGenesis ev g, st)
  | .appendGenesis ev g =>
    match (do Store.checkAppend C (← Store.readChain C g st.membership) ev : Except Error _) with
    | .error err => some (.appendDone (.error err), st)
    | .ok next => some (.appendChecked ev next, st)
  | .appendChecked ev next =>
    match st.insertMembership ev with
    | .error err => some (.appendDone (.error err), st)
    | .ok st' => some (.appendDone (.ok next), st')
  | .putDone _ => none
  | .appendDone _ => none

/-- The relay with its calls. -/
structure Busy where
  store : Store
  tasks : List Task

/-- A new call, or the next step of the `i`-th one. -/
inductive Turn where
  | putRecord (vaultID : ID) (env : Envelope) (now : String)
  | appendMembership (vaultID : ID) (ev : SignedMembershipEvent)
  | advance (i : ℕ)
  deriving DecidableEq

def Busy.step (b : Busy) : Turn → Option Busy
  | .putRecord v env now => some { b with tasks := b.tasks ++ [.put v env now] }
  | .appendMembership v ev => some { b with tasks := b.tasks ++ [.append v ev] }
  | .advance i => do
    let task ← b.tasks[i]?
    let (task', st') ← task.next C b.store
    some { store := st', tasks := b.tasks.set i task' }

/-- The relay with the calls it was asked for: the `i`-th task is at work on the `i`-th
    call, or has returned from it. -/
structure Journal where
  busy : Busy
  calls : List Turn

def Journal.step (J : Journal) (l : Turn) : Option Journal := do
  let b ← J.busy.step C l
  match l with
  | .advance _ => some { J with busy := b }
  | call => some { busy := b, calls := J.calls ++ [call] }

end Sshstate.Relay
