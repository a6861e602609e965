/-
  Bringing a device's records back onto a relay (`internal/syncengine/rejoin.go`).

  `Rejoin` is a process like `Sync`: it waits for the answer to a request
  (`Phase.request`, `Phase.receive`) or makes one access to the store (`work`).  It
  merges the membership chains, sends its heads in batches, each with the digests it
  remembers of the record, and settles what the relay answers for each of them.

  A `World` is one client that rejoins and the relay, which other clients call at any
  time (`Label.other`).  `size` is the length of an item in the JSON encoding.
-/
import Sshstate.Relay.History
import Sshstate.Relay.Server
import Sshstate.Sync.Engine

namespace Sshstate.Sync.Rejoin

open Vault (Store)
open Relay (ImportRecord ImportRequest ImportOutcome)

variable (C : Suite)

/-- `importBatchBytes`. -/
def importBatchBytes : ℕ := 3 * 2 ^ 20

/-- `RejoinReport`, but for the constant `Needed`. -/
structure Report where
  membershipUploaded : ℕ
  imported : ℕ
  diverged : ℕ
  deriving DecidableEq, Repr

/-- The local variables of `Rejoin`. -/
structure Locals where
  chain : Membership.Chain
  stored : String
  history : String
  byID : AList fun _ : ID => Envelope
  batch : List ImportRecord
  size : ℕ
  report : Report

/-- An item that waits for the batch before it, with the heads after it. -/
abbrev Waiting := Option (ImportRecord × List Envelope)

inductive Phase where
  /-- `mergeMembership` -/
  | fetchMembership
  | compare (remote : List SignedMembershipEvent)
  | upload (ev : SignedMembershipEvent) (todo : List SignedMembershipEvent) (uploaded : ℕ)
  /-- `syncMembership` -/
  | membership (p : Sync.Phase) (uploaded : ℕ)
  | readHistory (chain : Membership.Chain) (uploaded : ℕ)
  | fetchLatest (chain : Membership.Chain) (stored : String) (uploaded : ℕ)
  | readHeads (l : Locals)
  | readAncestors (l : Locals) (head : Envelope) (todo : List Envelope)
  /-- `flush` -/
  | importBatch (l : Locals) (next : Waiting)
  | settle (l : Locals) (out : ImportOutcome) (outs : List ImportOutcome) (next : Waiting)
  | supersede (l : Locals) (mine conflict head : Envelope) (outs : List ImportOutcome)
      (next : Waiting)
  | restartHistory (l : Locals)
  | done (report : Report)
  | failed (err : Error)

/-! ## Membership -/

/-- The comparison of the relay's events with the stored ones, from the `i`-th on. -/
def compareEvents (i : ℕ) : List SignedMembershipEvent → List SignedMembershipEvent → Except Error Unit
  | a :: remote, b :: stored => do
    .require (sameEvent C a b = true)
      (.errorf "the relay's device list and this machine's disagree at event %d, so they are not the same history; nothing was changed"
        [toString (i + 1)])
    compareEvents (i + 1) remote stored
  | _, _ => .ok ()

/-- The checks of `mergeMembership`, and the events to upload. -/
def mergeMembership (g : Genesis) (remote stored : List SignedMembershipEvent) :
    Except Error (List SignedMembershipEvent) := do
  let _ ← (Membership.validate C g remote).mapError (.wrap "membership chain from the relay: %w" [])
  compareEvents C 0 remote stored
  return stored.drop (min remote.length stored.length)

/-- The loop over the events to upload. -/
def nextUpload (uploaded : ℕ) : List SignedMembershipEvent → Phase
  | ev :: todo => .upload ev todo uploaded
  | [] => .membership (.fetchMembership 0) uploaded

/-- The end of `syncMembership`, which in a Sync is followed by `checkRelayNotBehind`. -/
def ofSync (uploaded : ℕ) : Sync.Phase → Phase
  | .readCursor l => .readHistory l.chain uploaded
  | .noteRefusal err | .failed err => .failed err
  | p => .membership p uploaded

/-! ## Batches -/

section
variable (size : ImportRecord → ℕ)

def Locals.add (l : Locals) (item : ImportRecord) : Locals :=
  { l with batch := l.batch ++ [item], size := l.size + size item }

/-- The loop over the heads. -/
def nextHead (l : Locals) : List Envelope → Phase
  | head :: todo =>
    .readAncestors { l with byID := l.byID.insert head.context.recordID head } head todo
  | [] => if l.batch = [] then .restartHistory l else .importBatch l none

/-- After `flush`. -/
def resume (l : Locals) : Waiting → Phase
  | some (item, todo) => nextHead (l.add size item) todo
  | none => .restartHistory l

/-- The item of a head. -/
def itemOf (st : Store) (head : Envelope) : ImportRecord :=
  { envelope := { head with seq := 0 }, ancestors := st.ancestors head.context.recordID }

/-- The loop over the heads once an item was made: a full batch is sent first. -/
def nextItem (l : Locals) (item : ImportRecord) (todo : List Envelope) : Phase :=
  if l.size + size item > importBatchBytes ∧ l.batch ≠ [] then .importBatch l (some (item, todo))
  else nextHead (l.add size item) todo

/-- The loop of `settle`; after it the batch is empty. -/
def nextOutcome (l : Locals) (next : Waiting) : List ImportOutcome → Phase
  | out :: outs => .settle l out outs next
  | [] => resume size { l with batch := [], size := 0 } next

end

/-! ## Outcomes -/

/-- `verifyWriter`. -/
def verifyWriter (chain : Membership.Chain) (vaultID : ID) (env : Envelope) : Except Error Unit := do
  env.validate
  .require (env.context.vaultID = vaultID) (.new "the record belongs to another vault")
  match chain.device env.context.updatedBy with
  | none => .error (.errorf "writer %s is not in the membership chain" [ID.text env.context.updatedBy])
  | some d =>
    .require (C.verify d.verifyKey recordSignatureDomain (env.signingInput C) env.signature = true)
      (.errorf "signature from %s does not verify" [ID.text env.context.updatedBy])

/-- The checks of `keepAside` on the version that the relay has sent. -/
def relayVersion (chain : Membership.Chain) (vaultID : ID) (mine : Envelope) (head : Option Envelope) :
    Except Error Envelope :=
  match head.filter (·.context.recordID = mine.context.recordID) with
  | none => .error (.new "the relay reported a different version without sending it")
  | some head => do
    (verifyWriter C chain vaultID head).mapError (.wrap "the relay's version: %w" [])
    return head

def Locals.countImported (l : Locals) : Locals :=
  { l with report := { l.report with imported := l.report.imported + 1 } }

def Locals.countDiverged (l : Locals) : Locals :=
  { l with report := { l.report with diverged := l.report.diverged + 1 } }

/-- A transaction: the store and the phase after it, or the failed Rejoin. -/
def commit (st : Store) (tx : Except Error Store) (wrap : Error → Error) (next : Phase) :
    Store × Phase :=
  match tx with
  | .ok st' => (st', next)
  | .error err => (st, .failed (wrap err))

section
variable (size : ImportRecord → ℕ) (e : Engine) (draw : Draw)

/-- `keepAside`, up to the transaction that keeps a candidate aside. -/
def keepAside (st : Store) (l : Locals) (mine : Envelope) (out : ImportOutcome)
    (outs : List ImportOutcome) (next : Waiting) : Store × Phase :=
  let wrap : Error → Error := .wrap "record %s: %w" [ID.text out.recordID]
  match relayVersion C l.chain e.manager.vaultID mine out.head with
  | .error err => (st, .failed (wrap err))
  | .ok head =>
    if mine.context.recordType.isConflict then
      commit st (st.supersede C none head) wrap (nextOutcome size l.countDiverged next outs)
    else match e.manager.preserveCandidate C st mine head draw.now draw.mutationID draw.entropy with
      | .error err => (st, .failed (wrap err))
      | .ok conflict => (st, .supersede l mine conflict head outs next)

/-- `settle` on one outcome. -/
def settle (st : Store) (l : Locals) (out : ImportOutcome) (outs : List ImportOutcome)
    (next : Waiting) : Store × Phase :=
  match l.byID.lookup out.recordID with
  | none => (st, .failed (.errorf "the relay answered for record %s, which this machine did not send"
      [ID.text out.recordID]))
  | some mine => match out.outcome with
    | .imported => commit st (st.acceptImported C mine out.seq) id
        (nextOutcome size l.countImported next outs)
    | .current => commit st (st.acceptImported C mine out.seq) id (nextOutcome size l next outs)
    | .behind => (st.dropPending mine.context.recordID mine.context.rev, nextOutcome size l next outs)
    | .diverged => keepAside C size e draw st l mine out outs next

/-! ## Steps -/

/-- The access to the store a phase makes, and the phase after it. -/
def work (st : Store) : Phase → Option (Store × Phase)
  | .compare remote => match mergeMembership C e.manager.genesis remote st.membership with
    | .ok missing => some (st, nextUpload 0 missing)
    | .error err => some (st, .failed err)
  | .membership p uploaded => (Sync.work C e draw st p).map fun r => (r.1, ofSync uploaded r.2)
  | .readHistory chain uploaded => some (st, .fetchLatest chain (st.history.getD "") uploaded)
  | .readHeads l => some (st, nextHead l st.heads)
  | .readAncestors l head todo => some (st, nextItem size l (itemOf st head) todo)
  | .settle l out outs next => some (settle C size e draw st l out outs next)
  | .supersede l mine conflict head outs next =>
    some (commit st (st.supersede C (some conflict) head)
      (.wrap "record %s: %w" [ID.text mine.context.recordID])
      (nextOutcome size l.countDiverged next outs))
  | .restartHistory l => some (st.restartHistory l.history, .done l.report)
  | .fetchMembership | .upload _ _ _ | .fetchLatest _ _ _ | .importBatch _ _ | .done _ | .failed _ =>
    none

end

/-- The requests of a Rejoin. -/
inductive Request where
  | read (r : Sshstate.Request)
  | append (ev : SignedMembershipEvent)
  | importRecords (req : ImportRequest)

inductive Reply where
  | read (r : Sshstate.Reply)
  | append (r : Except Error Unit)
  | importRecords (r : Except Error (String × List ImportOutcome))

/-- The request a phase waits for. -/
def Phase.request : Phase → Option Request
  | .fetchMembership => some (.read .membership)
  | .upload ev _ _ => some (.append ev)
  | .membership p _ => p.request.map .read
  | .fetchLatest _ _ _ => some (.read (.records 0 0 1))
  | .importBatch l _ => some (.importRecords { history := l.stored, records := l.batch })
  | _ => none

/-- The phase after an answer. -/
def Phase.receive (size : ImportRecord → ℕ) : Phase → Reply → Option Phase
  | .fetchMembership, .read (.membership r) => match r with
    | .ok remote => some (.compare remote)
    | .error err => some (.failed err)
  | .upload _ todo uploaded, .append r => match r with
    | .ok () => some (nextUpload (uploaded + 1) todo)
    | .error err => some (.failed (.wrap "put this machine's device list back on the relay: %w" [] err))
  | .membership p uploaded, .read r => (p.receive r).map (ofSync uploaded)
  | .fetchLatest chain stored uploaded, .read (.records r) => match r with
    | .ok latest => some (.readHeads
        { chain := chain, stored := stored, history := latest.history, byID := ∅, batch := [],
          size := 0, report := { membershipUploaded := uploaded, imported := 0, diverged := 0 } })
    | .error err => some (.failed err)
  | .importBatch l next, .importRecords r => match r with
    | .ok (history, outs) => some (nextOutcome size { l with history := history } next outs)
    | .error err => some (.failed (.wrap "bring this machine's records back onto the relay: %w" [] err))
  | _, _ => none

/-- The relay's answer (`handleAppendMembership`, `handleImportRecords`), and its store
    afterwards; `freshID` is the id of the history that an import may start. -/
def answer (r : Relay.Store) (s : Relay.Store.Sender) (now freshID : String) :
    Request → Reply × Relay.Store
  | .read req =>
    let (reply, r') := r.answer C s now req
    (.read reply, r')
  | .append ev =>
    match (do r.authenticate C s; r.appendMembership C s.vaultID ev) with
    | .error err => (.append (.error err), r)
    | .ok (_, r') => (.append (.ok ()), r')
  | .importRecords req =>
    match (do r.authenticate C s; r.importRecords C s.vaultID req now freshID) with
    | .error err => (.importRecords (.error err), r)
    | .ok (outs, r') => (.importRecords (.ok (r'.history, outs)), r')

/-! ## A client that rejoins -/

structure World where
  relay : Relay.Store
  store : Store
  phase : Phase

inductive Label where
  /-- A call of another client. -/
  | other (op : Relay.Operation)
  /-- An access of the Rejoin to its store. -/
  | work (draw : Draw)
  /-- A request of the Rejoin, with its answer. -/
  | call (now freshID : String)

/-- Who sends the requests of an engine. -/
def sender (e : Engine) : Relay.Store.Sender :=
  { vaultID := e.manager.vaultID, deviceID := e.manager.deviceID,
    verifyKey := C.verifier e.manager.signing }

def World.step (size : ImportRecord → ℕ) (e : Engine) (W : World) : Label → Option World
  | .other op => some { W with relay := W.relay.operate C op }
  | .work draw => do
    let (st, p) ← Rejoin.work C size e draw W.store W.phase
    some { W with store := st, phase := p }
  | .call now freshID => do
    let req ← W.phase.request
    let (reply, r) := answer C W.relay (sender C e) now freshID req
    let p ← W.phase.receive size reply
    some { W with relay := r, phase := p }

end Sshstate.Sync.Rejoin
