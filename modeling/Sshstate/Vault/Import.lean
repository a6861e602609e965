/-
  The import of a list of hosts (`internal/vault`: `manager_import.go`).

  `importHosts` checks all hosts before it writes any.  A host that is new is created, and one
  that differs from the host of its name is kept as a conflict record.  Every record is written
  in a transaction of its own: `fails` says at which of these writes the storage fails.
-/
import Sshstate.Vault.Manager

namespace Sshstate.Vault

variable (C : Suite) (J : Coding)

/-- `ImportAction`. -/
inductive ImportAction where
  | created | unchanged | conflict
  deriving DecidableEq, Repr

/-- `ImportOutcome`. -/
structure ImportOutcome where
  hostAlias : List Char
  action : ImportAction
  recordID : ID
  detail : String
  deriving DecidableEq, Repr

/-- The text of a problem. -/
def problem (format : String) (args : List (List Char)) : String :=
  (Error.errorf format (args.map String.ofList)).text

namespace Manager

/-! ## The checks -/

/-- The variables of the first loop. -/
structure Import where
  payloads : List HostPayload
  seen : List (List Char)
  problems : List String
  deriving DecidableEq, Repr

/-- A turn of the loop over the hosts to import. -/
def importSpec (known : List ID) (s : Import) (spec : HostSpec) : Import :=
  if spec.hostAlias ∈ s.seen then
    { s with problems := s.problems ++ [problem "host %q appears twice in the import" [spec.hostAlias]] }
  else
    match spec.payload.validate with
    | .error err => { s with seen := spec.hostAlias :: s.seen, problems := s.problems ++ [err.text] }
    | .ok () =>
      { payloads := s.payloads ++ [spec.payload], seen := spec.hostAlias :: s.seen,
        problems := s.problems ++ (spec.keyIDs.filter (· ∉ known)).map fun id =>
          problem "host %q references key %s, which is not in the vault" [spec.hostAlias, id] }

/-- The map `existing`. -/
def existingOf (hosts : List HostView) : List (List Char × HostView) :=
  hosts.foldl (fun existing h => (h.hostAlias, h) :: existing) []

/-- The loop over the jump hosts. -/
def jumpProblems (existing : List (List Char × HostView)) (s : Import) : List String :=
  s.payloads.filterMap fun p =>
    match p.proxyJump with
    | none => none
    | some jump =>
      if (existing.lookup jump).isSome ∨ jump ∈ s.seen then none
      else some (problem
        "host %q jumps through %q, which is neither in the vault nor in this import"
        [p.hostAlias, jump])

/-- The hosts that are not in the vault. -/
def newHosts (existing : List (List Char × HostView)) (payloads : List HostPayload) :
    List HostPayload :=
  payloads.filter fun p => (existing.lookup p.hostAlias).isNone

/-- The map `jumps`, with the hosts in the vault and the new ones. -/
def importJumps (hosts : List HostView) (payloads : List HostPayload) : JumpMap :=
  (newHosts (existingOf hosts) payloads).foldl
    (fun jumps p => (p.hostAlias, p.proxyJump) :: jumps) (jumpsOf hosts)

/-- The loop over the new hosts that jump. -/
def loopProblems (hosts : List HostView) (payloads : List HostPayload) : List String :=
  (newHosts (existingOf hosts) payloads).filterMap fun p =>
    if p.proxyJump.isSome ∧ jumpCycle p.hostAlias (importJumps hosts payloads) = true then
      some (problem "host %q is part of a ProxyJump loop" [p.hostAlias])
    else none

/-- The checks of an import: its payloads, and the problems. -/
def importChecks (hosts : List HostView) (known : List ID) (specs : List HostSpec) :
    List HostPayload × List String :=
  let s := specs.foldl (importSpec known) { payloads := [], seen := [], problems := [] }
  (s.payloads, s.problems ++ jumpProblems (existingOf hosts) s ++ loopProblems hosts s.payloads)

/-! ## The records -/

/-- `sameHost`. -/
def sameHost (h : HostView) (p : HostPayload) : Bool :=
  h.hostName = p.hostName && h.user = p.user && (h.port : ℤ) = p.port &&
    h.proxyJump = p.proxyJump && h.keyIDs = p.keyIDs

/-- `sameCanonicalJSON`. -/
def sameCanonicalJSON (a b : Bytes) : Except Error Bool := do
  let ca ← J.canonicalValue a
  let cb ← J.canonicalValue b
  return ca = cb

/-- The loop of `conflictAlreadyPreserved`. -/
def preservedIn (m : Manager) (st : Store) (sourceID : ID) (candidate : Bytes) :
    List Envelope → Except Error Bool
  | [] => .ok false
  | env :: envs => do
    let p ← (m.readerFor C st).openInto C J.readConflict zeroConflict env
    if p.sourceRecordID ≠ sourceID ∨ p.removal = true then preservedIn m st sourceID candidate envs
    else do
      let same ← sameCanonicalJSON J (p.candidate.getD []) candidate
      if same then return true else preservedIn m st sourceID candidate envs

/-- `conflictAlreadyPreserved`. -/
def conflictAlreadyPreserved (m : Manager) (st : Store) (sourceID : ID) (candidate : Bytes) :
    Except Error Bool := do
  let envs ← st.liveRecords .conflictMetadata
  m.preservedIn C J st sourceID candidate envs

/-- The revision and the parent of the next version of a record that may not be there. -/
def priorVersion (st : Store) (id : ID) : Except Error (ℕ × Option Bytes) :=
  match st.head id with
  | none => .ok (1, none)
  | some prior => do
    let prior ← Store.decodeRow prior
    return (counterSucc prior.context.rev, some (prior.digest C))

/-- `preserveImported`. -/
def preserveImported (m : Manager) (st : Store) (sourceID : ID) (candidate : Bytes) (now : String)
    (candidateMutation : NewID) (d : Draw) : Except Error Envelope := do
  let (head, headDigest) ← st.headRow C sourceID
  let conflictID ← conflictID C m.vaultID sourceID candidateMutation.id
  let payload : ConflictPayload :=
    { formatVersion := payloadFormatVersion, sourceRecordID := sourceID,
      sourceRecordType := head.context.recordType, sourceMutationID := candidateMutation.id,
      observedHeadDigest := some headDigest, preservedAt := now, candidate := some candidate,
      removal := false }
  validateConflict payload
  let (rev, parent) ← priorVersion C st conflictID
  m.writerFor.sealRecord C
    { recordID := conflictID, recordType := .conflictMetadata, rev := rev, parentDigest := parent,
      mutationID := d.mutationID.id, deleted := false }
    (some (C.canonical (.conflictPayload payload))) d.entropy

/-- What the turn for one host draws: the id of the new record or of the kept mutation, and what
    the sealing needs. -/
structure ImportDraw where
  id : NewID
  draw : Draw

/-- A turn of the loop over the payloads: what is reported, and what is to be written. -/
def importHost (m : Manager) (st : Store) (hosts : List HostView) (now : String)
    (p : HostPayload) (d : ImportDraw) : Except Error (ImportOutcome × Option Envelope) :=
  match (existingOf hosts).lookup p.hostAlias with
  | none => do
    let env ← m.createRecord C d.id .host (J.host.canonical p) d.draw
    return ({ hostAlias := p.hostAlias, action := .created, recordID := d.id.id, detail := "" },
      some env)
  | some current =>
    if sameHost current p then
      .ok ({ hostAlias := p.hostAlias, action := .unchanged, recordID := current.recordID,
             detail := "" }, none)
    else do
      let duplicate ← m.conflictAlreadyPreserved C J st current.recordID (J.marshalHost p)
      if duplicate then
        return ({ hostAlias := p.hostAlias, action := .conflict, recordID := current.recordID,
                  detail := "already preserved; resolve it with: sshstate conflicts" }, none)
      else do
        let env ← m.preserveImported C st current.recordID (J.marshalHost p) now d.id d.draw
        return ({ hostAlias := p.hostAlias, action := .conflict, recordID := current.recordID,
                  detail := "the vault's version was kept; review with: sshstate conflicts" },
          some env)

/-- The loop over the payloads; `draws` gives each turn its own values. -/
def importAll (m : Manager) (st : Store) (hosts : List HostView) (now : String)
    (draws : ℕ → ImportDraw) (payloads : List HostPayload) :
    Except Error (List (ImportOutcome × Option Envelope)) :=
  (payloads.zipIdx).mapM fun (p, i) => m.importHost C J st hosts now p (draws i)

/-- `ImportHosts` up to its first write. -/
def importPlan (m : Manager) (st : Store) (specs : List HostSpec) (now : String)
    (draws : ℕ → ImportDraw) : Except Error (List ImportOutcome × List Envelope) := do
  let hosts ← m.hostsLocked C J st
  let keys ← m.keysLocked C J st
  let (payloads, problems) := importChecks hosts (keys.map KeyView.recordID) specs
  .require (problems = [])
    (.errorf "nothing was imported:\n  %s" [String.intercalate "\n  " problems])
  let turns ← m.importAll C J st hosts now draws payloads
  return (turns.map Prod.fst, turns.filterMap Prod.snd)

/-- The loop of the writes; `k` counts them. -/
def writeAll (fails : ℕ → Option Error) : (k : ℕ) → List Envelope → Store → Store × Except Error Unit
  | _, [], st => (st, .ok ())
  | k, env :: envs, st =>
    match fails k with
    | some err => (st, .error err)
    | none =>
      match st.applyLocalBatch C [env] with
      | .error err => (st, .error err)
      | .ok st' => writeAll fails (k + 1) envs st'

/-- `ImportHosts`: the store after it, and its result. -/
def importHosts (m : Manager) (st : Store) (specs : List HostSpec) (dryRun : Bool) (now : String)
    (draws : ℕ → ImportDraw) (fails : ℕ → Option Error) :
    Store × Except Error (List ImportOutcome) :=
  match m.importPlan C J st specs now draws with
  | .error err => (st, .error err)
  | .ok (outcomes, envelopes) =>
    if dryRun then (st, .ok outcomes)
    else
      match writeAll C fails 0 envelopes st with
      | (st', .error err) => (st', .error err)
      | (st', .ok ()) => (st', .ok outcomes)

/-! ## Calls -/

/-- The store after a transaction that may have failed. -/
def settled (st : Store) (r : Except Error Store) : Store := r.toOption.getD st

/-- A local edit, with its arguments and what it draws. -/
inductive Call where
  | addKey (k : Key) (recordID : NewID) (d : Draw)
  | addHost (spec : HostSpec) (recordID : NewID) (d : Draw)
  | editHost (recordID : ID) (edit : HostEdit) (d : Draw)
  | removeHost (recordID : ID) (d : Draw)
  | removeKey (recordID : ID) (d : Draw)
  | importHosts (specs : List HostSpec) (dryRun : Bool) (now : String) (draws : ℕ → ImportDraw)

/-- The store after a call, accepted or refused, if the storage does not fail. -/
def call (m : Manager) (st : Store) : Call → Store
  | .addKey k recordID d => settled st ((m.addKey C J st k recordID d).map Prod.fst)
  | .addHost spec recordID d => settled st ((m.addHost C J st spec recordID d).map Prod.fst)
  | .editHost recordID edit d => settled st (m.editHost C J st recordID edit d)
  | .removeHost recordID d => settled st (m.removeHost C J st recordID d)
  | .removeKey recordID d => settled st (m.removeKey C J st recordID d)
  | .importHosts specs dryRun now draws =>
    (m.importHosts C J st specs dryRun now draws fun _ => none).1

end Manager

end Sshstate.Vault
