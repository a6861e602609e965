/-
  The sync engine (`internal/syncengine/engine.go`).

  A Sync is a process: `Phase` is where it stands and what it holds in its local
  variables.  It either waits for the answer to a request (`Phase.request`,
  `Phase.receive`) or makes one access to the store (`work`): one query or one
  transaction.  Between two of its steps anything else may happen to the relay
  and, by local edits, to the store.  `done` and `failed` are the ends of `Sync`.
-/
import Sshstate.Protocol.Api
import Sshstate.Vault.Install

namespace Sshstate.Sync

open Vault (Store Manager NewID Entropy)

variable (C : Suite)

/-- `PageLimit`. -/
def pageLimit : ℕ := 200

/-- `Engine`: the manager whose store it syncs and whose `PreserveCandidate` it
    calls, and the address of the relay, which its messages name. -/
structure Engine where
  manager : Manager
  url : String

structure Report where
  membershipEvents : ℕ
  membershipLearned : ℕ
  pushed : ℕ
  preserved : ℕ
  applied : ℕ
  cursor : ℕ
  complete : Bool
  deriving DecidableEq, Repr

/-- What `Sync` keeps once the membership is known. -/
structure Locals where
  chain : Membership.Chain
  newlyRevoked : List ID
  report : Report
  deriving DecidableEq, Repr

namespace Locals

def countPushed (l : Locals) : Locals :=
  { l with report := { l.report with pushed := l.report.pushed + 1 } }

def countPreserved (l : Locals) : Locals :=
  { l with report := { l.report with preserved := l.report.preserved + 1 } }

def countApplied (l : Locals) (n : ℕ) : Locals :=
  { l with report := { l.report with applied := l.report.applied + n } }

/-- The end of `pull`. -/
def pulled (l : Locals) (cursor through : ℕ) : Locals :=
  { l with report := { l.report with cursor := cursor, complete := cursor ≥ through } }

end Locals

inductive Phase where
  /-- `localChainLength` -/
  | start
  | fetchMembership (known : ℕ)
  | compareMembership (known : ℕ) (events : List SignedMembershipEvent)
  | putMembership (known : ℕ) (chain : Membership.Chain)
  | putDevice (known : ℕ) (chain : Membership.Chain) (d : Membership.Device)
      (todo : List Membership.Device) (newlyRevoked : List ID)
  | revocationNoted (known : ℕ) (chain : Membership.Chain) (id : ID)
      (todo : List Membership.Device) (newlyRevoked : List ID)
  | noteRefusal (err : Error)
  /-- `checkRelayNotBehind` -/
  | readCursor (l : Locals)
  | fetchLatest (l : Locals) (since : ℕ)
  | checkLatest (l : Locals) (since : ℕ) (latest : RecordsResponse)
  | recordHistory (l : Locals) (history : String)
  /-- `push` -/
  | readOutbox (l : Locals)
  | push (l : Locals) (candidate : Envelope) (rest : List Envelope)
  | accept (l : Locals) (candidate : Envelope) (seq : ℕ) (rest : List Envelope)
  | supersede (l : Locals) (candidate head : Envelope) (rest : List Envelope)
  | preserve (l : Locals) (candidate head : Envelope) (rest : List Envelope)
  | resolve (l : Locals) (candidate conflict head : Envelope) (rest : List Envelope)
  /-- `pull` -/
  | pullCursor (l : Locals)
  | fetchPage (l : Locals) (since through : ℕ)
  | verifyChange (l : Locals) (page : RecordsResponse) (env : Envelope) (todo envs : List Envelope)
  | compareHead (l : Locals) (page : RecordsResponse) (env : Envelope) (todo envs : List Envelope)
  | applyPage (l : Locals) (page : RecordsResponse) (envs : List Envelope)
  | noteRevocation (l : Locals) (through : ℕ) (id : ID) (todo : List ID)
  | writeRevocation (l : Locals) (through : ℕ) (id : ID) (todo : List ID)
  | done (report : Report)
  | failed (err : Error)

/-! ## Membership -/

/-- `sameEvent`. -/
def sameEvent (a b : SignedMembershipEvent) : Bool :=
  C.canonical (.signedMembershipEvent a) == C.canonical (.signedMembershipEvent b)

/-- The comparison of the stored events with the relay's, from the `i`-th on. -/
def checkStored (i : ℕ) : List SignedMembershipEvent → List SignedMembershipEvent → Except Error Unit
  | a :: stored, b :: events => do
    .require (sameEvent C a b = true)
      (.errorf "the relay's device list forks from this machine's at event %d; sync stopped"
        [toString (i + 1)])
    checkStored (i + 1) stored events
  | _, _ => .ok ()

/-- The checks of `syncMembership`: the relay's events are a chain of this vault,
    and the stored ones are a beginning of it. -/
def compareMembership (e : Engine) (events stored : List SignedMembershipEvent) :
    Except Error Membership.Chain := do
  let chain ← (Membership.validate C e.manager.genesis events).mapError
    (.wrap "membership chain from the relay: %w" [])
  .require (stored.length ≤ events.length)
    (.errorf "the relay's device list is older than this machine's; sync stopped; if you restored the relay from an older backup, run: sshstate connect %s --rejoin"
      [e.url])
  checkStored C 0 stored events
  return chain

/-- `Sync` after an error of `syncMembership`. -/
def failMembership (err : Error) : Phase :=
  if err.codeOf = .deviceRevoked then .noteRefusal err else .failed err

/-- The loop over the devices of the chain. -/
def nextDevice (known : ℕ) (chain : Membership.Chain) (newlyRevoked : List ID) :
    List Membership.Device → Phase
  | d :: todo => .putDevice known chain d todo newlyRevoked
  | [] => .readCursor
      { chain := chain, newlyRevoked := newlyRevoked,
        report := { membershipEvents := chain.events.length,
                    membershipLearned := chain.events.length - known,
                    pushed := 0, preserved := 0, applied := 0, cursor := 0, complete := false } }

/-! ## Push -/

/-- The loop over the candidates. -/
def nextCandidate (l : Locals) : List Envelope → Phase
  | c :: rest => .push l c rest
  | [] => .pullCursor l

/-- What the answer to a candidate leads to. -/
def onResult (l : Locals) (c : Envelope) (rest : List Envelope) : PutResult → Phase
  | .accepted seq _ => .accept l c seq rest
  | .rejected head =>
    if c.context.recordType.isConflict then .supersede l c head rest else .preserve l c head rest

/-- `RelayBehindError`. -/
def relayBehindError (url : String) (relay stored : ℕ) : Error :=
  .errorf "the relay's history ends at change %s, but this machine has already seen change %s, so the relay was probably restored from an older backup\nthis machine's vault is intact, and sync is stopped so nothing is overwritten\nto put this machine's changes back on the relay, run: sshstate connect %s --rejoin"
    [toString relay, toString stored, url]

/-- `HistoryChangedError`. -/
def historyChangedError (url : String) : Error :=
  .errorf "the relay at %s was started again from another machine or restored from a backup, so its change numbers no longer match this machine's\nthis machine's vault is intact, and sync is stopped so nothing is missed\nto continue, run: sshstate connect %s --rejoin"
    [url, url]

/-- `checkRelayNotBehind` after its request: the stored history against the one
    the relay reports, and the stored cursor against the end of its log. -/
def checkLatest (url : String) (l : Locals) (since : ℕ) (stored : String) (latest : RecordsResponse) :
    Phase :=
  if latest.history ≠ "" ∧ (stored = "" ∧ since ≠ 0 ∧ latest.historyOrigin ≠ historyCreated ∨
      stored ≠ "" ∧ stored ≠ latest.history) then
    .failed (historyChangedError url)
  else if since > latest.snapshotCursor then
    .failed (relayBehindError url latest.snapshotCursor since)
  else if stored = "" ∧ latest.history ≠ "" then .recordHistory l latest.history
  else .readOutbox l

/-! ## Pull -/

/-- `Engine.checkRevokedWriter`. -/
def checkRevokedWriter (st : Store) (id : ID) (seq : ℕ) : Except Error Unit :=
  match st.revokedAt.lookup id with
  | none => .ok ()
  | some at' => .require (seq ≤ at') (.errorf "device %s was revoked at seq %s and this write is at seq %s"
      [ID.text id, toString at', toString seq])

/-- `Engine.verify`. -/
def verify (g : Genesis) (st : Store) (chain : Membership.Chain) (env : Envelope) :
    Except Error Unit := do
  env.validate
  .require (env.context.vaultID = g.vaultID) (.new "the record belongs to another vault")
  .require (env.seq ≠ 0) (.new "the relay returned a change with no seq")
  match chain.device env.context.updatedBy with
  | none => .error (.errorf "writer %s is not in the membership chain" [ID.text env.context.updatedBy])
  | some d => do
    (if d.revoked then checkRevokedWriter st d.id env.seq else .ok ())
    .require (C.verify d.verifyKey recordSignatureDomain (env.signingInput C) env.signature = true)
      (.errorf "signature from %s does not verify" [ID.text env.context.updatedBy])

/-- `Engine.ahead`: whether a change goes past the stored head; a different
    envelope at the stored revision is a fork. -/
def ahead (st : Store) (env : Envelope) : Except Error Bool :=
  match st.head env.context.recordID with
  | none => .ok true
  | some head =>
    if env.context.rev > head.context.rev then .ok true
    else if env.context.rev = head.context.rev then do
      let digest ← env.digestE C
      .require (digest = head.digest C) (.errorf
        "the relay served a different envelope at revision %s: this is a fork, not an update"
        [toString env.context.rev])
      return false
    else .ok false

/-- The loop of `applyPage` over the changes of a page; `envs` are those to apply. -/
def nextChange (l : Locals) (page : RecordsResponse) (envs : List Envelope) : List Envelope → Phase
  | env :: todo => .verifyChange l page env todo envs
  | [] => .applyPage l page envs

/-- The loop over the newly revoked devices at the end of a complete `Sync`. -/
def nextRevocation (l : Locals) (through : ℕ) : List ID → Phase
  | id :: todo => .noteRevocation l through id todo
  | [] => .done l.report

/-- `Sync` after `pull`. -/
def afterPull (l : Locals) (through : ℕ) : Phase :=
  if l.report.complete then nextRevocation l through l.newlyRevoked else .done l.report

/-- `pull` after a page was applied. -/
def afterPage (l : Locals) (page : RecordsResponse) : Phase :=
  if page.hasMore then .fetchPage l page.nextCursor page.snapshotCursor
  else afterPull (l.pulled page.nextCursor page.snapshotCursor) page.snapshotCursor

/-- The wrapping of an error of `verify` or `ahead`. -/
def changeError (env : Envelope) : Error → Error :=
  .wrap "record %s at seq %s: %w" [ID.text env.context.recordID, toString env.seq]

/-! ## Steps -/

/-- The request a phase waits for. -/
def Phase.request : Phase → Option Request
  | .fetchMembership _ => some .membership
  | .fetchLatest _ _ => some (.records 0 0 1)
  | .push _ c _ => some (.putRecord c)
  | .fetchPage _ since through => some (.records since through pageLimit)
  | _ => none

/-- The phase after an answer. -/
def Phase.receive : Phase → Reply → Option Phase
  | .fetchMembership known, .membership r => match r with
    | .ok events => some (.compareMembership known events)
    | .error err => some (failMembership err)
  | .fetchLatest l since, .records r => match r with
    | .ok latest => some (.checkLatest l since latest)
    | .error err => some (.failed err)
  | .push l c rest, .putRecord r => match r with
    | .ok res => some (onResult l c rest res)
    | .error err => some (.failed (.wrap "publish record %s: %w" [ID.text c.context.recordID] err))
  | .fetchPage l _ _, .records r => match r with
    | .ok page => some (nextChange l page [] page.changes)
    | .error err => some (.failed err)
  | _, _ => none

/-- A transaction: the store and the phase after it, or the failed Sync. -/
def commit (st : Store) (tx : Except Error Store) (next : Phase) : Store × Phase :=
  match tx with
  | .ok st' => (st', next)
  | .error err => (st, .failed err)

/-- What a step may consume: the time, a drawn id and entropy. -/
structure Draw where
  now : String
  mutationID : NewID
  entropy : Entropy

/-- The access to the store a phase makes, and the phase after it. -/
def work (e : Engine) (draw : Draw) (st : Store) : Phase → Option (Store × Phase)
  | .start => some (st, .fetchMembership st.membership.length)
  | .compareMembership known events => match compareMembership C e events st.membership with
    | .ok chain => some (st, .putMembership known chain)
    | .error err => some (st, failMembership err)
  | .putMembership known chain => match st.putMembershipEvents C chain.events with
    | .ok st' => some (st', nextDevice known chain [] chain.devices)
    | .error err => some (st, failMembership err)
  | .putDevice known chain d todo newlyRevoked =>
    some (st.putDevice (Vault.deviceRow d),
      if d.revoked then .revocationNoted known chain d.id todo newlyRevoked
      else nextDevice known chain newlyRevoked todo)
  | .revocationNoted known chain id todo newlyRevoked =>
    let newlyRevoked := if (st.revokedAt.lookup id).isSome then newlyRevoked else newlyRevoked ++ [id]
    some (st, nextDevice known chain newlyRevoked todo)
  | .noteRefusal err => some (st.setRevokedNotice, .failed err)
  | .readCursor l => some (st, .fetchLatest l (st.cursor.getD 0))
  | .checkLatest l since latest => some (st, checkLatest e.url l since (st.history.getD "") latest)
  | .recordHistory l history => some (st.setHistory history, .readOutbox l)
  | .readOutbox l => some (st, nextCandidate l st.pending)
  | .accept l c seq rest =>
    some (commit st (st.acceptOutbox C c seq) (nextCandidate l.countPushed rest))
  | .supersede l _ head rest =>
    some (commit st (st.supersede C none head) (nextCandidate l rest))
  | .preserve l c head rest =>
    match e.manager.preserveCandidate C st c head draw.now draw.mutationID draw.entropy with
    | .ok conflict => some (st, .resolve l c conflict head rest)
    | .error err => some (st, .failed (.wrap "preserve rejected candidate %s: %w"
        [ID.text c.context.mutationID] err))
  | .resolve l c conflict head rest =>
    some (commit st (st.resolveConflict C c.context.mutationID conflict head)
      (nextCandidate l.countPreserved rest))
  | .pullCursor l => some (st, .fetchPage l (st.cursor.getD 0) 0)
  | .verifyChange l page env todo envs => match verify C e.manager.genesis st l.chain env with
    | .ok () => some (st, .compareHead l page env todo envs)
    | .error err => some (st, .failed (changeError env err))
  | .compareHead l page env todo envs => match ahead C st env with
    | .ok apply => some (st, nextChange l page (if apply then envs ++ [env] else envs) todo)
    | .error err => some (st, .failed (changeError env err))
  | .applyPage l page envs =>
    some (commit st (st.applyRemoteBatch C page.nextCursor envs)
      (afterPage (l.countApplied envs.length) page))
  | .noteRevocation l through id todo =>
    some (st, if (st.revokedAt.lookup id).isSome then nextRevocation l through todo
      else .writeRevocation l through id todo)
  | .writeRevocation l through id todo =>
    some (st.setRevokedAt id through, nextRevocation l through todo)
  | .fetchMembership _ | .fetchLatest _ _ | .push _ _ _ | .fetchPage _ _ _ | .done _ | .failed _ =>
    none

/-- The ids a step draws. -/
def Phase.draws (p : Phase) (draw : Draw) : List ID :=
  match p with
  | .preserve _ _ _ _ => [draw.mutationID.id]
  | _ => []

end Sshstate.Sync
