/-
  The tables of a device's database, row by row (`internal/vault`: `store.go`,
  `store_records.go`, `store_install.go`).

  `Store` keeps the envelope of a row and computes the other columns; here they are
  what the statements wrote: a row of `records` has its type, revision, digest and
  deleted flag beside the JSON text of the envelope, a row of `outbox` the ids beside
  the text.  Where the source decides on a column it is the column that is read, and
  where it decodes a text (`decodeEnvelope`) the text is decoded, which fails for a
  text that is too long.

  A key-value table is the function that looks a key up.  `wrappers` are texts.  Left
  out: the column `created_at` of `outbox`, which nothing reads.
-/
import Sshstate.Protocol.Encoding
import Sshstate.Vault.Install

namespace Sshstate.Vault

variable (C : Suite) (D : Decoder)

/-- A row of `records`, under its `record_id`. -/
structure RecordRow where
  recordType : String
  rev : ℤ
  digest : Bytes
  deleted : Bool
  envelope : List Char
  seq : Option ℤ
  deriving DecidableEq

structure OutboxRow where
  mutationID : ID
  recordID : ID
  envelope : List Char
  deriving DecidableEq

structure MembershipRow where
  chainSeq : ℤ
  event : SignedMembershipEvent
  digest : Bytes

structure Tables where
  metaTable : String → Option String
  genesis : Option (Genesis × Bytes)
  wrappers : String → Option Bytes
  devices : AList fun _ : ID => Device
  membership : List MembershipRow
  records : AList fun _ : ID => RecordRow
  recordHistory : List (ID × Bytes)
  outbox : List OutboxRow
  cursors : String → Option String

/-- The columns written for an envelope. -/
def RecordRow.of (env : Envelope) (digest : Bytes) : RecordRow :=
  { recordType := env.context.recordType.text, rev := toInt64 env.context.rev,
    digest := digest, deleted := env.context.deleted, envelope := env.text,
    seq := if env.seq ≠ 0 then some (toInt64 env.seq) else none }

def OutboxRow.of (env : Envelope) : OutboxRow :=
  { mutationID := env.context.mutationID, recordID := env.context.recordID, envelope := env.text }

/-- `decodeEnvelope`. -/
def decodeEnvelope (body : List Char) : Except Error Envelope :=
  (strictUnmarshal D (Envelope.unmarshal D) body).mapError
    (.wrap "stored envelope is malformed: %w" [])

/-- `ErrNotFound`. -/
def errNotFound : Error := .new "not found"

/-- `CursorRecords`. -/
def cursorRecords : String := "records"

/-- `CursorHistory`. -/
def cursorHistory : String := "history"

/-- `CursorRevokedAtPrefix`. -/
def cursorRevokedAtPrefix : String := "revoked-at:"

/-- `MetaRecoveryPublished`. -/
def metaRecoveryPublished : String := "recovery_published"

namespace Tables

/-- A database with no rows. -/
def empty : Tables :=
  { metaTable := fun _ => none, genesis := none, wrappers := fun _ => none, devices := ∅,
    membership := [], records := ∅, recordHistory := [], outbox := [], cursors := fun _ => none }

/-! ## Statements -/

def setMeta (T : Tables) (key value : String) : Tables :=
  { T with metaTable := Function.update T.metaTable key (some value) }

def setCursor (T : Tables) (name value : String) : Tables :=
  { T with cursors := Function.update T.cursors name (some value) }

/-- `rememberTx`. -/
def rememberTx (T : Tables) (recordID : ID) (digests : List Bytes) : Tables :=
  let step (acc : List (ID × Bytes)) (d : Bytes) := if d = [] then acc else acc.insert (recordID, d)
  { T with recordHistory := digests.foldl step T.recordHistory }

/-- The upsert of `putRecordTx` and `replaceHeadTx`, and the `rememberTx` after it. -/
def writeRow (T : Tables) (env : Envelope) (digest : Bytes) : Tables :=
  ({ T with records := T.records.insert env.context.recordID (.of env digest) }).rememberTx
    env.context.recordID [digest, env.context.parentDigest.getD []]

/-- `putRecordTx`. -/
def putRecordTx (T : Tables) (env : Envelope) : Except Error Tables := do
  env.validate.mapError (.wrap "put record: %w" [])
  let digest ← env.digestE C
  match T.records.lookup env.context.recordID with
  | none => do
    .require (env.context.rev = 1)
      (.wrap "put record %s at rev %s: no stored head to build on: %w"
        [ID.text env.context.recordID, toString env.context.rev] errParentMismatch)
    return T.writeRow env digest
  | some row =>
    if toInt64 env.context.rev = row.rev ∧ digest = row.digest then return T
    else do
      .require (toInt64 env.context.rev = toInt64 (row.rev + 1))
        (.wrap "put record %s: stored head is rev %d, write is rev %s: %w"
          [ID.text env.context.recordID, toString row.rev, toString env.context.rev]
          errParentMismatch)
      .require (bytesEqual env.context.parentDigest (some row.digest) = true)
        (.wrap "put record %s at rev %s: parent digest names a different revision: %w"
          [ID.text env.context.recordID, toString env.context.rev] errParentMismatch)
      return T.writeRow env digest

/-- `replaceHeadTx`. -/
def replaceHeadTx (T : Tables) (env : Envelope) : Except Error Tables := do
  env.validate.mapError (.wrap "replace head: %w" [])
  let digest ← env.digestE C
  return T.writeRow env digest

/-- `enqueueOutboxTx`. -/
def enqueueOutboxTx (T : Tables) (env : Envelope) : Tables :=
  if ∃ row ∈ T.outbox, row.mutationID = env.context.mutationID then T
  else { T with outbox := T.outbox ++ [.of env] }

/-- `DELETE FROM outbox WHERE mutation_id = ?`. -/
def deleteOutbox (T : Tables) (mutationID : ID) : Tables :=
  { T with outbox := T.outbox.filter (·.mutationID ≠ mutationID) }

/-- `DELETE FROM outbox WHERE record_id = ?`. -/
def deleteOutboxRecord (T : Tables) (recordID : ID) : Tables :=
  { T with outbox := T.outbox.filter (·.recordID ≠ recordID) }

/-- `dropPendingTx`: the rows of the record are decoded, and those up to the revision are
    deleted by their keys. -/
def dropPendingTx (T : Tables) (recordID : ID) (throughRev : ℕ) : Except Error Tables := do
  let rows := T.outbox.filter (·.recordID = recordID)
  let decoded ← rows.mapM fun row => do return (row.mutationID, ← decodeEnvelope D row.envelope)
  let drop := (decoded.filter fun p => p.2.context.rev ≤ throughRev).map Prod.fst
  return drop.foldl deleteOutbox T

/-- `applyRemoteTx`. -/
def applyRemoteTx (T : Tables) (env : Envelope) : Except Error Tables :=
  match T.records.lookup env.context.recordID with
  | none => if env.context.rev = 1 then T.putRecordTx C env else T.replaceHeadTx C env
  | some row =>
    if toInt64 env.context.rev > toInt64 (row.rev + 1) then T.replaceHeadTx C env
    else T.putRecordTx C env

/-! ## Transactions -/

/-- `Store.ApplyLocalBatch`. -/
def applyLocalBatch (T : Tables) (envs : List Envelope) : Except Error Tables :=
  envs.foldlM (fun T env => (T.enqueueOutboxTx env).putRecordTx C env) T

/-- `Store.ApplyRemoteBatch`. -/
def applyRemoteBatch (T : Tables) (cursor : String) (envs : List Envelope) : Except Error Tables := do
  let T ← envs.foldlM (fun T env => T.applyRemoteTx C env) T
  return T.setCursor cursorRecords cursor

/-- `Store.ResolveConflict`. -/
def resolveConflict (T : Tables) (candidate : ID) (conflict head : Option Envelope) :
    Except Error Tables :=
  match conflict, head with
  | some conflict, some head => do
    let T ← (T.enqueueOutboxTx conflict).putRecordTx C conflict
    let T ← T.replaceHeadTx C head
    return T.deleteOutbox candidate
  | _, _ => .error (.new
      "resolve conflict: both the preserved copy and the incoming head are required")

/-- `Store.AcceptOutbox`. -/
def acceptOutbox (T : Tables) (env : Envelope) (seq : ℕ) : Except Error Tables := do
  let T ← T.replaceHeadTx C { env with seq := seq }
  return T.deleteOutbox env.context.mutationID

/-- `Store.AcceptImported`. -/
def acceptImported (T : Tables) (env : Envelope) (seq : ℕ) : Except Error Tables := do
  let T ← T.replaceHeadTx C { env with seq := seq }
  T.dropPendingTx D env.context.recordID env.context.rev

/-- `Store.Supersede`. -/
def supersede (T : Tables) (conflict head : Option Envelope) : Except Error Tables :=
  match head with
  | none => .error (.new "supersede: the relay's head is required")
  | some head => do
    let T ← (match conflict with
      | none => .ok T
      | some conflict => (T.enqueueOutboxTx conflict).putRecordTx C conflict)
    (T.deleteOutboxRecord head.context.recordID).replaceHeadTx C head

/-- `name LIKE 'revoked-at:%'`, which does not tell upper from lower case. -/
def revokedAtName (name : String) : Bool :=
  cursorRevokedAtPrefix.toList.isPrefixOf (name.toList.map Char.toLower)

/-- `Store.RestartHistory`. -/
def restartHistory (T : Tables) (history : String) : Tables :=
  let T := (T.setCursor cursorRecords "0").setCursor cursorHistory history
  { T with
    cursors := fun name => if revokedAtName name then none else T.cursors name
    metaTable := Function.update T.metaTable metaRecoveryPublished none }

/-! ## Installation -/

/-- `putGenesis`. -/
def putGenesis (T : Tables) (g : Genesis) : Except Error Tables := do
  .require (T.genesis = none)
    (.wrap "store genesis (a vault already exists here): %w" []
      (.new "constraint failed: UNIQUE constraint failed: genesis.id"))
  return { T with genesis := some (g, g.digest C) }

/-- `putWrapper`. -/
def putWrapper (T : Tables) (purpose : String) (w : Bytes) : Tables :=
  { T with wrappers := Function.update T.wrappers purpose (some w) }

/-- `putDevice`: the day of enrolment is kept. -/
def putDevice (T : Tables) (d : Device) : Tables :=
  let enrolledAt := match T.devices.lookup d.id with
    | none => d.enrolledAt
    | some old => old.enrolledAt
  { T with devices := T.devices.insert d.id { d with enrolledAt := enrolledAt } }

/-- The loop of `putMembershipEvents`. -/
def insertMembershipEvent (T : Tables) (ev : SignedMembershipEvent) : Except Error Tables := do
  let digest ← ev.digest C
  let row : MembershipRow :=
    { chainSeq := toInt64 ev.event.chainSeq, event := ev, digest := digest }
  .require (∀ old ∈ T.membership, old.chainSeq ≠ row.chainSeq)
    (.new "constraint failed: UNIQUE constraint failed: membership.chain_seq")
  return { T with membership := T.membership ++ [row] }

/-- `putMembershipEvents`. -/
def putMembershipEvents (T : Tables) (events : List SignedMembershipEvent) : Except Error Tables :=
  events.foldlM (fun T ev => T.insertMembershipEvent C ev) { T with membership := [] }

end Tables

/-- `Installation`; a Go map is the list of its entries, in the order a `range` visits them. -/
structure Installation where
  genesis : Genesis
  wrappers : List (String × Bytes)
  membership : List SignedMembershipEvent
  devices : List Device
  heads : List Envelope
  cursor : String
  metaTable : List (String × String)

namespace Tables

/-- The loop of `Install` over the heads; `seen` are the records already installed. -/
def installHeads (T : Tables) : (seen : List ID) → List Envelope → Except Error Tables
  | _, [] => .ok T
  | seen, env :: envs => do
    .require (env.context.recordID ∉ seen)
      (.errorf "install records: record %s appears twice" [ID.text env.context.recordID])
    let T ← (T.replaceHeadTx C env).mapError (.wrap "install records: %w" [])
    installHeads T (env.context.recordID :: seen) envs

/-- `Store.Install`; `announce` is what its last step returns. -/
def install (T : Tables) (inst : Installation) (announce : Except Error Unit) :
    Except Error Tables := do
  let T ← T.putGenesis C inst.genesis
  let T := inst.wrappers.foldl (fun T w => T.putWrapper w.1 w.2) T
  let T ← T.putMembershipEvents C inst.membership
  let T := inst.devices.foldl putDevice T
  let T ← T.installHeads C [] inst.heads
  let T := T.setCursor cursorRecords inst.cursor
  let T := inst.metaTable.foldl (fun T kv => T.setMeta kv.1 kv.2) T
  announce
  return T

/-! ## Reads -/

/-- `Store.Head`. -/
def head (T : Tables) (id : ID) : Except Error (Envelope × Bytes) :=
  match T.records.lookup id with
  | none => .error (.wrap "record %s: %w" [ID.text id] errNotFound)
  | some row => do
    let env ← decodeEnvelope D row.envelope
    return (env, row.digest)

/-- The rows of `records` in the order of their ids. -/
def recordRows (T : Tables) : List ((_ : ID) × RecordRow) :=
  T.records.entries.insertionSort fun a b => ¬ b.1 < a.1

/-- `Store.Heads`. -/
def heads (T : Tables) : Except Error (List Envelope) :=
  T.recordRows.mapM fun row => decodeEnvelope D row.2.envelope

/-- `Store.AllRecords`. -/
def allRecords (T : Tables) (t : RecordType) : Except Error (List Envelope) :=
  (T.recordRows.filter fun row => row.2.recordType = t.text).mapM fun row =>
    decodeEnvelope D row.2.envelope

/-- `Store.Outbox`. -/
def pending (T : Tables) : Except Error (List Envelope) := do
  let out ← T.outbox.mapM fun row => decodeEnvelope D row.envelope
  return out.insertionSort Store.notAfter

end Tables

/-! ## Calls -/

/-- The calls that write records. -/
inductive StoreCall where
  | install (inst : Installation) (announce : Except Error Unit)
  | applyLocalBatch (envs : List Envelope)
  | applyRemoteBatch (cursor : String) (envs : List Envelope)
  | resolveConflict (candidate : ID) (conflict head : Option Envelope)
  | acceptOutbox (env : Envelope) (seq : ℕ)
  | acceptImported (env : Envelope) (seq : ℕ)
  | dropPending (recordID : ID) (throughRev : ℕ)
  | supersede (conflict head : Option Envelope)
  | restartHistory (history : String)

namespace StoreCall

/-- The transaction of a call. -/
def body (T : Tables) : StoreCall → Except Error Tables
  | .install inst announce => T.install C inst announce
  | .applyLocalBatch envs => T.applyLocalBatch C envs
  | .applyRemoteBatch cursor envs => T.applyRemoteBatch C cursor envs
  | .resolveConflict candidate conflict head => T.resolveConflict C candidate conflict head
  | .acceptOutbox env seq => T.acceptOutbox C env seq
  | .acceptImported env seq => T.acceptImported C D env seq
  | .dropPending recordID throughRev => T.dropPendingTx D recordID throughRev
  | .supersede conflict head => T.supersede C conflict head
  | .restartHistory history => .ok (T.restartHistory history)

/-- The tables after a call; a transaction that fails is rolled back. -/
def exec (T : Tables) (call : StoreCall) : Tables :=
  match call.body C D T with
  | .ok T' => T'
  | .error _ => T

/-- The envelopes a call may store, with the number of the relay they are stored with. -/
def envelopes : StoreCall → List Envelope
  | .install inst _ => inst.heads
  | .applyLocalBatch envs => envs
  | .applyRemoteBatch _ envs => envs
  | .resolveConflict _ conflict head => conflict.toList ++ head.toList
  | .acceptOutbox env seq => [{ env with seq := seq }]
  | .acceptImported env seq => [{ env with seq := seq }]
  | .dropPending _ _ => []
  | .supersede conflict head => conflict.toList ++ head.toList
  | .restartHistory _ => []

end StoreCall

end Sshstate.Vault
