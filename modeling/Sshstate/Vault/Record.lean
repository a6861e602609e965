/-
  Sealing and opening records (`internal/vault`: `record.go`, `keys.go`,
  `payload.go`), and what a manager writes with them: its local edits
  (`manager_ops.go`, `manager_remove.go`, `manager_trust.go`,
  `manager_import.go`, `manager_sync.go`) and the copy of a rejected candidate
  (`Manager.PreserveCandidate`).

  Random values are arguments: a drawn id is a valid id (`NewID`), a nonce is
  not empty.  A payload is its canonical encoding, which is not empty.  `mutate`
  refuses while the vault is locked or its recovery kit is not confirmed; a
  refusal changes nothing, and the manager below is an unlocked one.
-/
import Sshstate.Vault.Store

namespace Sshstate.Vault

variable (C : Suite)

/-! ## Writers and readers -/

structure Keys where
  epoch : ℕ
  metadata : Bytes
  secret : Bytes
  deriving DecidableEq, Repr

/-- `Keys.For`. -/
def Keys.keyFor (k : Keys) (t : RecordType) : Bytes := if t.secretScoped then k.secret else k.metadata

structure Mutation where
  recordID : ID
  recordType : RecordType
  rev : ℕ
  parentDigest : Option Bytes
  mutationID : ID
  deleted : Bool
  deriving DecidableEq, Repr

/-- An id as `NewID` draws it. -/
structure NewID where
  id : ID
  valid : ID.valid id = true

/-- The randomness of one sealing: the nonce, and the entropy of the signature. -/
structure Entropy where
  nonce : Bytes
  nonce_ne_nil : nonce ≠ []
  signature : Bytes

/-- The canonical encoding of a payload. -/
structure Payload where
  bytes : Bytes
  bytes_ne_nil : bytes ≠ []

/-- The plaintext of a tombstone, `{}`. -/
def tombstone : Bytes := [123, 125]

structure Writer where
  vaultID : ID
  deviceID : ID
  signing : Bytes
  keys : Keys

/-- The context of a mutation. -/
def Writer.context (w : Writer) (m : Mutation) : Context :=
  { domain := recordDomain, formatVersion := recordFormatVersion, vaultID := w.vaultID,
    recordID := m.recordID, recordType := m.recordType, keyEpoch := w.keys.epoch, rev := m.rev,
    parentDigest := m.parentDigest, mutationID := m.mutationID, updatedBy := w.deviceID,
    deleted := m.deleted }

/-- `Writer.Seal`. -/
def Writer.sealRecord (w : Writer) (m : Mutation) (payload : Option Bytes) (r : Entropy) :
    Except Error Envelope := do
  let ctx := w.context m
  ctx.validate.mapError (.wrap "seal: %w" [])
  let plaintext ← (if m.deleted then .ok tombstone else match payload with
    | none => .error (.new "seal: a live record needs a payload")
    | some p => .ok p)
  let ciphertext := C.sealAEAD (w.keys.keyFor m.recordType) r.nonce plaintext (ctx.aad C)
  let env : Envelope :=
    { context := ctx, nonce := r.nonce, ciphertext := ciphertext, signature := [], seq := 0 }
  let signature := C.sign w.signing r.signature recordSignatureDomain (env.signingInput C)
  return { env with signature := signature }

structure Reader where
  vaultID : ID
  keys : Keys
  verifier : ID → Except Error Bytes

/-- `Reader.Open`: the plaintext, or `none` for a tombstone. -/
def Reader.openRecord (r : Reader) (env : Envelope) : Except Error (Option Bytes) := do
  env.validate.mapError (.wrap "open: %w" [])
  .require (env.context.vaultID = r.vaultID) (.errorf "open: record belongs to vault %s, not %s"
    [ID.text env.context.vaultID, ID.text r.vaultID])
  .require (env.context.keyEpoch = r.keys.epoch)
    (.errorf "open: record is at epoch %s, vault keys are at %s"
      [toString env.context.keyEpoch, toString r.keys.epoch])
  let key ← (r.verifier env.context.updatedBy).mapError
    (.wrap "open: writer %s: %w" [ID.text env.context.updatedBy])
  (C.verifySignature key recordSignatureDomain (env.signingInput C) env.signature).mapError
    (.wrap "open: signature: %w" [])
  match C.openAEAD (r.keys.keyFor env.context.recordType) env.nonce env.ciphertext
      (env.context.aad C) with
  | none => .error (.new "open: message authentication failed")
  | some plaintext =>
    if env.context.deleted then do
      .require (plaintext = tombstone) (.new "open: tombstone carries a payload")
      return none
    else return some plaintext

/-! ## The manager -/

/-- `PayloadFormatVersion`. -/
def payloadFormatVersion : ℤ := 1

/-- `ConflictPayload.Validate`. -/
def validateConflict (p : ConflictPayload) : Except Error Unit := do
  .require (p.formatVersion = payloadFormatVersion)
    (.errorf "unsupported conflict payload version %d" [toString p.formatVersion])
  .require (ID.valid p.sourceRecordID = true ∧ ID.valid p.sourceMutationID = true)
    (.new "conflict record does not name its source")
  .require (p.sourceRecordType.valid = true)
    (.errorf "unknown source record type %q" [p.sourceRecordType.text])
  .require (¬ (p.removal = true ∧ p.candidate.getD [] ≠ [])) (.new "a kept removal carries content")
  .require (¬ (p.removal = false ∧ p.candidate.getD [] = []))
    (.new "conflict record preserves nothing")

/-- An unlocked `Manager`: the vault, the device and its keys. -/
structure Manager where
  genesis : Genesis
  deviceID : ID
  signing : Bytes
  keys : Keys

namespace Manager

def vaultID (m : Manager) : ID := m.genesis.vaultID

/-- `Manager.verifier`. -/
def verifier (st : Store) (device : ID) : Except Error Bytes :=
  match st.devices.lookup device with
  | none => .error (.new "not an enrolled device: not found")
  | some d => C.verifyKeyFromBytes d.verifyKey

def writerFor (m : Manager) : Writer :=
  { vaultID := m.vaultID, deviceID := m.deviceID, signing := m.signing, keys := m.keys }

def readerFor (m : Manager) (st : Store) : Reader :=
  { vaultID := m.vaultID, keys := m.keys, verifier := verifier C st }

/-- The revision and parent of a write on top of the stored head of `id`. -/
def nextVersion (st : Store) (id : ID) : ℕ × Option Bytes :=
  match st.head id with
  | none => (1, none)
  | some existing => (counterSucc existing.context.rev, some (existing.digest C))

/-- What a conflict record keeps of a rejected candidate. -/
def preservedPayload (candidate : Envelope) (plaintext : Option Bytes) (headDigest : Bytes)
    (now : String) : ConflictPayload :=
  { formatVersion := payloadFormatVersion, sourceRecordID := candidate.context.recordID,
    sourceRecordType := candidate.context.recordType,
    sourceMutationID := candidate.context.mutationID, observedHeadDigest := some headDigest,
    preservedAt := now, candidate := plaintext, removal := candidate.context.deleted }

/-- `Manager.PreserveCandidate`: a conflict record that keeps the payload of a
    candidate the relay rejected. -/
def preserveCandidate (m : Manager) (st : Store) (candidate head : Envelope) (now : String)
    (mutationID : NewID) (r : Entropy) : Except Error Envelope := do
  let plaintext ← ((m.readerFor C st).openRecord C candidate).mapError
    (.wrap "preserve: read the rejected candidate: %w" [])
  let headDigest ← head.digestE C
  let conflictID ← (conflictID C m.vaultID candidate.context.recordID
    candidate.context.mutationID).mapError (.wrap "conflict id: %w" [])
  let payload := preservedPayload candidate plaintext headDigest now
  validateConflict payload
  let (rev, parent) := nextVersion C st conflictID
  m.writerFor.sealRecord C
    { recordID := conflictID, recordType := candidate.context.recordType.conflictType, rev := rev,
      parentDigest := parent, mutationID := mutationID.id, deleted := false }
    (some (C.canonical (.conflictPayload payload))) r

/-! ## Local edits -/

/-- What a local edit writes: a new record (a host, a key or a known host), the
    copy of an import that lost against a stored record (`preserveImported`), or
    the next version of a stored record, which may be its removal. -/
inductive EditKind where
  | create (recordID : NewID) (recordType : RecordType) (live : recordType.isConflict = false)
      (payload : Payload)
  | keep (sourceID : ID) (candidate : NewID) (payload : Payload) (now : String)
  | revise (recordID : ID) (payload : Option Payload)

structure Edit where
  kind : EditKind
  mutationID : NewID
  entropy : Entropy

/-- The envelope of an edit, built on the stored heads. -/
def sealEdit (m : Manager) (st : Store) (e : Edit) : Except Error Envelope :=
  match e.kind with
  | .create recordID recordType _ payload =>
    m.writerFor.sealRecord C
      { recordID := recordID.id, recordType := recordType, rev := 1, parentDigest := none,
        mutationID := e.mutationID.id, deleted := false } (some payload.bytes) e.entropy
  | .keep sourceID candidate payload now =>
    -- an import is compared with the stored hosts
    match (st.head sourceID).filter (·.context.recordType = .host) with
    | none => .error (.errorf "record %s: not found" [ID.text sourceID])
    | some source => do
      let conflictID ← conflictID C m.vaultID sourceID candidate.id
      let kept : ConflictPayload :=
        { formatVersion := payloadFormatVersion, sourceRecordID := sourceID,
          sourceRecordType := source.context.recordType, sourceMutationID := candidate.id,
          observedHeadDigest := some (source.digest C), preservedAt := now,
          candidate := some payload.bytes, removal := false }
      validateConflict kept
      let (rev, parent) := nextVersion C st conflictID
      m.writerFor.sealRecord C
        { recordID := conflictID, recordType := .conflictMetadata, rev := rev,
          parentDigest := parent, mutationID := e.mutationID.id, deleted := false }
        (some (C.canonical (.conflictPayload kept))) e.entropy
  | .revise recordID payload =>
    match st.head recordID with
    | none => .error (.errorf "record %s: not found" [ID.text recordID])
    | some head =>
      m.writerFor.sealRecord C
        { recordID := recordID, recordType := head.context.recordType,
          rev := counterSucc head.context.rev, parentDigest := some (head.digest C),
          mutationID := e.mutationID.id, deleted := payload.isNone }
        (payload.map Payload.bytes) e.entropy

/-- The ids an edit draws. -/
def Edit.draws (e : Edit) : List ID :=
  match e.kind with
  | .create recordID _ _ _ => [recordID.id, e.mutationID.id]
  | .keep _ candidate _ _ => [candidate.id, e.mutationID.id]
  | .revise _ _ => [e.mutationID.id]

end Manager

end Sshstate.Vault
