/-
  Handing a vault over (`internal/vault`: `manager_sync.go`, `store_install.go`,
  `restore.go`; `internal/daemon`: `syncedSnapshot` in `pair.go`, `buildExport` in
  `sync.go`).

  A device copies its heads with one query per record type (`Manager.Snapshot`)
  and reads its cursor with another; nothing locks the store in between, so a
  `Copy` is built by separate steps (`Copy.read`).  A pairing snapshot reads the
  cursor and the outbox first and leaves out what is pending; an export reads the
  heads first and takes all of them.  `install` is what `Join` and `Restore` write
  into an empty store.
-/
import Sshstate.Vault.Record

namespace Sshstate.Vault

variable (C : Suite)

/-! ## Snapshots -/

/-- `Store.AllRecords`. -/
def Store.allRecords (st : Store) (t : RecordType) : List Envelope :=
  let rows := (st.records.entries.map Sigma.snd).filter (·.context.recordType = t)
  rows.insertionSort fun a b => ¬ b.context.recordID < a.context.recordID

/-- The record types of a snapshot, in the order they are read. -/
def snapshotTypes : List RecordType := [.host, .key, .knownHost, .conflictMetadata, .conflictSecret]

/-- A copy of a device's heads in the making: the mutations to leave out once the
    outbox was read, the types still to read, and what was read. -/
structure Copy where
  device : ID
  acceptedOnly : Bool
  cursor : Option ℕ
  unpublished : Option (List ID)
  todo : List RecordType
  heads : List Envelope
  deriving DecidableEq, Repr

namespace Copy

/-- `syncedSnapshot` after its Sync: the cursor is read first (`acceptedSeq`). -/
def snapshot (device : ID) (st : Store) : Copy :=
  { device := device, acceptedOnly := true, cursor := some (st.cursor.getD 0), unpublished := none,
    todo := snapshotTypes, heads := [] }

/-- `buildExport`: `Snapshot(false)` does not read the outbox. -/
def archive (device : ID) : Copy :=
  { device := device, acceptedOnly := false, cursor := none, unpublished := some [],
    todo := snapshotTypes, heads := [] }

/-- The heads of one type that `Snapshot` takes; a pending edit of an existing
    record ends it (`ErrUnsyncedEdit`). -/
def take (unpublished : List ID) (rows : List Envelope) : Option (List Envelope) :=
  if ∃ e ∈ rows, e.context.mutationID ∈ unpublished ∧ 1 < e.context.rev then none
  else some (rows.filter (·.context.mutationID ∉ unpublished))

/-- The next query of a copy; `none` when there is none left or it ended. -/
def read (c : Copy) (st : Store) : Option Copy :=
  match c.unpublished, c.todo with
  | none, _ => some { c with unpublished := some (st.pending.map (·.context.mutationID)) }
  | some unpublished, t :: todo =>
    (take unpublished (st.allRecords t)).map fun rows =>
      { c with todo := todo, heads := c.heads ++ rows }
  | some _, [] => if c.cursor = none then some { c with cursor := some (st.cursor.getD 0) } else none

/-- A finished copy. -/
def complete (c : Copy) : Bool := c.unpublished.isSome && c.todo.isEmpty && c.cursor.isSome

end Copy

/-- `ExportSnapshot`. -/
structure ExportSnapshot where
  records : List Envelope
  conflicts : List Envelope
  heads : List Head
  deriving DecidableEq, Repr

/-- The entry of a record in the list of heads. -/
def headOf (env : Envelope) : Except Error Head := do
  let digest ← env.digestE C
  return { recordID := env.context.recordID, rev := env.context.rev, digest := digest,
           deleted := env.context.deleted }

/-- `SortHeads`. -/
def sortHeads (heads : List Head) : List Head :=
  heads.insertionSort fun a b => ¬ b.recordID < a.recordID

/-- What `Snapshot` returns after its last query. -/
def Copy.exportSnapshot (c : Copy) : Except Error ExportSnapshot := do
  let heads ← c.heads.mapM (headOf C)
  return { records := c.heads.filter fun env => !env.context.recordType.isConflict,
           conflicts := c.heads.filter fun env => env.context.recordType.isConflict,
           heads := sortHeads heads }

/-! ## Installation -/

/-- The row of a device of the chain. -/
def deviceRow (d : Membership.Device) : Device :=
  { id := d.id, verifyKey := d.verifyKey, recipient := d.recipient,
    status := if d.revoked then .revoked else .active, enrolledAt := d.enrolledAt }

/-- The loop of `Install` over the heads; `seen` are the records already installed. -/
def installHeads (st : Store) : (seen : List ID) → List Envelope → Except Error Store
  | _, [] => .ok st
  | seen, env :: envs => do
    .require (env.context.recordID ∉ seen)
      (.errorf "install records: record %s appears twice" [ID.text env.context.recordID])
    let st ← (st.replaceHead C env).mapError (.wrap "install records: %w" [])
    installHeads st (env.context.recordID :: seen) envs

/-- `Store.Install`. -/
def install (chain : Membership.Chain) (heads : List Envelope) (cursor : ℕ) : Except Error Store := do
  let st ← Store.empty.putMembershipEvents C chain.events
  let st := chain.devices.foldl (fun st d => st.putDevice (deviceRow d)) st
  let st ← installHeads C st [] heads
  return { st with cursor := some cursor }

/-- The store `Init` leaves behind. -/
def initStore (g : Genesis) (root : SignedMembershipEvent) : Except Error Store :=
  (Store.empty.putDevice
    { id := g.firstDeviceID, verifyKey := g.firstDeviceVerifyKey, recipient := g.firstDeviceRecipient,
      status := .active, enrolledAt := g.createdAt }).putMembershipEvents C [root]

end Sshstate.Vault
