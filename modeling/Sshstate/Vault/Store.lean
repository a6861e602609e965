/-
  A device's store (`internal/vault`: `store.go`, `store_records.go`).

  The tables are the fields of `Store`; a table with a primary key is an
  `AList`.  A row of `records` is written whole from one envelope by both
  statements that write it, so the model keeps the envelope and computes the
  columns `rev` (as an `int64`) and `digest` where they are read.  `outbox` is in
  the order of insertion.  `membership` is in the order of `chain_seq`, which for
  the chains stored here is the order of their events.  `cursor`, `history` and
  `revokedAt` are the rows of `cursors` under `records`, `history` and
  `revoked-at:<device>`.

  A transaction is a function to `Except Error Store`; one that fails is rolled
  back and leaves the store as it was.  Left out: `genesis`, `wrappers` and
  `meta` but for the revocation notice, which no function below reads.
-/
import Sshstate.Membership.Chain

namespace Sshstate.Vault

variable (C : Suite)

inductive DeviceStatus where
  | active | revoked
  deriving DecidableEq, Repr

structure Device where
  id : ID
  verifyKey : Bytes
  recipient : String
  status : DeviceStatus
  enrolledAt : String
  deriving DecidableEq, Repr

structure Store where
  membership : List SignedMembershipEvent
  devices : AList fun _ : ID => Device
  records : AList fun _ : ID => Envelope
  recordHistory : List (ID × Bytes)
  outbox : List Envelope
  cursor : Option ℕ
  history : Option String
  revokedAt : AList fun _ : ID => ℕ
  revokedNotice : Bool

/-- `ErrParentMismatch`. -/
def errParentMismatch : Error := .new "parent revision or digest does not match the stored head"

namespace Store

/-- A database with no rows. -/
def empty : Store :=
  { membership := [], devices := ∅, records := ∅, recordHistory := [], outbox := [], cursor := none,
    history := none, revokedAt := ∅, revokedNotice := false }

/-! ## Records -/

def head (st : Store) (id : ID) : Option Envelope := st.records.lookup id

/-- `rememberTx`. -/
def remember (st : Store) (recordID : ID) (digests : List Bytes) : Store :=
  let step (acc : List (ID × Bytes)) (d : Bytes) := if d = [] then acc else acc.insert (recordID, d)
  { st with recordHistory := digests.foldl step st.recordHistory }

/-- The upsert of `putRecordTx` and `replaceHeadTx`. -/
def writeHead (st : Store) (env : Envelope) (digest : Bytes) : Store :=
  let st := { st with records := st.records.insert env.context.recordID env }
  st.remember env.context.recordID [digest, env.context.parentDigest.getD []]

/-- `putRecordTx`. -/
def putRecord (st : Store) (env : Envelope) : Except Error Store := do
  env.validate.mapError (.wrap "put record: %w" [])
  let digest ← env.digestE C
  match st.head env.context.recordID with
  | none => do
    .require (env.context.rev = 1)
      (.wrap "put record %s at rev %s: no stored head to build on: %w"
        [ID.text env.context.recordID, toString env.context.rev] errParentMismatch)
    return st.writeHead env digest
  | some stored =>
    let haveRev := toInt64 stored.context.rev
    if toInt64 env.context.rev = haveRev ∧ digest = stored.digest C then return st
    else do
      .require (toInt64 env.context.rev = toInt64 (haveRev + 1))
        (.wrap "put record %s: stored head is rev %d, write is rev %s: %w"
          [ID.text env.context.recordID, toString haveRev, toString env.context.rev]
          errParentMismatch)
      .require (bytesEqual env.context.parentDigest (some (stored.digest C)) = true)
        (.wrap "put record %s at rev %s: parent digest names a different revision: %w"
          [ID.text env.context.recordID, toString env.context.rev] errParentMismatch)
      return st.writeHead env digest

/-- `replaceHeadTx`. -/
def replaceHead (st : Store) (env : Envelope) : Except Error Store := do
  env.validate.mapError (.wrap "replace head: %w" [])
  let digest ← env.digestE C
  return st.writeHead env digest

/-- `enqueueOutboxTx`. -/
def enqueueOutbox (st : Store) (env : Envelope) : Store :=
  if ∃ e ∈ st.outbox, e.context.mutationID = env.context.mutationID then st
  else { st with outbox := st.outbox ++ [env] }

/-- `DELETE FROM outbox WHERE mutation_id = ?`. -/
def dequeue (st : Store) (mutationID : ID) : Store :=
  { st with outbox := st.outbox.filter (·.context.mutationID ≠ mutationID) }

/-- `DELETE FROM outbox WHERE record_id = ?`. -/
def dequeueRecord (st : Store) (recordID : ID) : Store :=
  { st with outbox := st.outbox.filter (·.context.recordID ≠ recordID) }

/-- The order of `Outbox`: by record, and by revision within a record. -/
def notAfter (a b : Envelope) : Prop :=
  if a.context.recordID = b.context.recordID then a.context.rev ≤ b.context.rev
  else a.context.recordID < b.context.recordID

instance : DecidableRel notAfter := fun _ _ => by unfold notAfter; infer_instance

/-- `Store.Outbox`. -/
def pending (st : Store) : List Envelope := st.outbox.insertionSort notAfter

/-- `Store.ApplyLocalBatch`. -/
def applyLocalBatch (st : Store) (envs : List Envelope) : Except Error Store :=
  envs.foldlM (fun st env => (st.enqueueOutbox env).putRecord C env) st

/-- `applyRemoteTx`. -/
def applyRemote (st : Store) (env : Envelope) : Except Error Store :=
  match st.head env.context.recordID with
  | none => if env.context.rev = 1 then st.putRecord C env else st.replaceHead C env
  | some stored =>
    if toInt64 env.context.rev > toInt64 (toInt64 stored.context.rev + 1) then st.replaceHead C env
    else st.putRecord C env

/-- `Store.ApplyRemoteBatch`. -/
def applyRemoteBatch (st : Store) (cursor : ℕ) (envs : List Envelope) : Except Error Store := do
  let st ← envs.foldlM (fun st env => st.applyRemote C env) st
  return { st with cursor := some cursor }

/-- `Store.ResolveConflict`. -/
def resolveConflict (st : Store) (candidate : ID) (conflict head : Envelope) : Except Error Store := do
  let st ← (st.enqueueOutbox conflict).putRecord C conflict
  let st ← st.replaceHead C head
  return st.dequeue candidate

/-- `Store.AcceptOutbox`. -/
def acceptOutbox (st : Store) (env : Envelope) (seq : ℕ) : Except Error Store := do
  let st ← st.replaceHead C { env with seq := seq }
  return st.dequeue env.context.mutationID

/-- `Store.Supersede`. -/
def supersede (st : Store) (conflict : Option Envelope) (head : Envelope) : Except Error Store := do
  let st ← (match conflict with
    | none => .ok st
    | some conflict => (st.enqueueOutbox conflict).putRecord C conflict)
  (st.dequeueRecord head.context.recordID).replaceHead C head

/-- `Store.DropPending`; `mutation_id`, by which `dropPendingTx` deletes, is the key of
    `outbox`. -/
def dropPending (st : Store) (recordID : ID) (throughRev : ℕ) : Store :=
  { st with outbox := st.outbox.filter fun e =>
      ¬ (e.context.recordID = recordID ∧ e.context.rev ≤ throughRev) }

/-- `Store.AcceptImported`. -/
def acceptImported (st : Store) (env : Envelope) (seq : ℕ) : Except Error Store := do
  let st ← st.replaceHead C { env with seq := seq }
  return st.dropPending env.context.recordID env.context.rev

/-- `Store.Ancestors`. -/
def ancestors (st : Store) (recordID : ID) : List Bytes :=
  let digests := (st.recordHistory.filter (·.1 = recordID)).map Prod.snd
  digests.insertionSort fun a b => ¬ b < a

/-- `Store.Heads`. -/
def heads (st : Store) : List Envelope :=
  (st.records.entries.map Sigma.snd).insertionSort
    fun a b => ¬ b.context.recordID < a.context.recordID

/-! ## Transactions -/

/-- A call whose body is a transaction: `Commit` keeps what the body wrote, and the deferred
    `Rollback` of a body that fails keeps nothing of it. -/
def transact (st : Store) (body : Store → Except Error Store) : Store × Except Error Unit :=
  match body st with
  | .ok st' => (st', .ok ())
  | .error err => (st, .error err)

/-! ## Membership and cursors -/

/-- `Store.PutMembershipEvents`. -/
def putMembershipEvents (st : Store) (events : List SignedMembershipEvent) : Except Error Store := do
  let _ ← events.mapM (·.digest C)
  return { st with membership := events }

/-- `Store.PutDevice`: the day of enrolment is kept. -/
def putDevice (st : Store) (d : Device) : Store :=
  let enrolledAt := match st.devices.lookup d.id with
    | none => d.enrolledAt
    | some old => old.enrolledAt
  { st with devices := st.devices.insert d.id { d with enrolledAt := enrolledAt } }

/-- `SetCursor(CursorHistory, ·)`. -/
def setHistory (st : Store) (history : String) : Store := { st with history := some history }

/-- `SetCursor(CursorRevokedAtPrefix + ·, ·)`. -/
def setRevokedAt (st : Store) (id : ID) (at' : ℕ) : Store :=
  { st with revokedAt := st.revokedAt.insert id at' }

/-- `Store.RestartHistory`, without the row of `meta` that it deletes. -/
def restartHistory (st : Store) (history : String) : Store :=
  { st with cursor := some 0, history := some history, revokedAt := ∅ }

/-- `SetMeta(MetaRevokedNotice, "true")`. -/
def setRevokedNotice (st : Store) : Store := { st with revokedNotice := true }

end Store

end Sshstate.Vault
