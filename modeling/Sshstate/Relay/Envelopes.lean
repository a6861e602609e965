/-
  Key envelopes at the relay (`internal/relay/envelopes.go`, with `handlePutEnvelope` and
  `handlePutRecoveryArchive` of `handlers.go`).

  `key_envelope` holds sealed bundles: an addressed one is for a device, and one without a
  recipient is for the recovery kit.  A put checks the envelope against the chain of its time
  and is one transaction: the table is changed by `putRow` or left as it is.
-/
import Mathlib.Data.List.MinMax
import Mathlib.Data.Prod.Lex
import Sshstate.Lib.Upsert
import Sshstate.Protocol.Codec
import Sshstate.Relay.Store

namespace Sshstate.Relay

variable (C : Suite)

/-- `BundlePurpose.Valid`. -/
def validPurpose : BundlePurpose → Bool
  | .enrollment | .recovery | .rotation => true
  | .other _ => false

/-- `KeyEnvelope`; the empty recipient is that of an unaddressed envelope. -/
structure KeyEnvelope where
  id : ID
  recipientDeviceID : ID
  purpose : BundlePurpose
  keyEpoch : ℕ
  ciphertext : Bytes
  createdAt : String
  deriving DecidableEq, Repr

/-- A row of `key_envelope`. -/
structure EnvelopeRow where
  vaultID : ID
  envelopeID : ID
  recipientDeviceID : Option ID
  purpose : BundlePurpose
  keyEpoch : ℕ
  ciphertext : Bytes
  createdAt : String
  deriving DecidableEq, Repr

namespace EnvelopeRow

/-- The primary key. -/
def key (row : EnvelopeRow) : ID × ID := (row.vaultID, row.envelopeID)

/-- What `ORDER BY key_epoch DESC, envelope_id DESC` sorts by. -/
def rank (row : EnvelopeRow) : ℕ ×ₗ ID := toLex (row.keyEpoch, row.envelopeID)

/-- A row without a recipient, as it is scanned. -/
def envelope (row : EnvelopeRow) : KeyEnvelope where
  id := row.envelopeID
  recipientDeviceID := []
  purpose := row.purpose
  keyEpoch := row.keyEpoch
  ciphertext := row.ciphertext
  createdAt := row.createdAt

/-- The rows that the recovery copy `new` deletes. -/
def superseded (new old : EnvelopeRow) : Bool :=
  old.vaultID = new.vaultID ∧ old.recipientDeviceID = none ∧ old.purpose = new.purpose ∧
    old.keyEpoch ≤ new.keyEpoch ∧ old.envelopeID ≠ new.envelopeID

end EnvelopeRow

/-- The recipient column. -/
def checkRecipient (st : Store) (vaultID : ID) (env : KeyEnvelope) : Except Error (Option ID) :=
  if env.recipientDeviceID = [] then .ok none
  else do
    .require (ID.valid env.recipientDeviceID = true)
      (.protocol .invalidRequest "recipient_device_id is not a 128-bit lowercase hex id" [])
    let chain ← st.chain C vaultID
    match chain.device env.recipientDeviceID with
    | none => .error (.protocol .deviceUnknown "device %s is not in the membership chain"
        [ID.text env.recipientDeviceID])
    | some d =>
      .require (d.revoked = false) (.protocol .deviceRevoked
        "device %s was revoked and must not receive new key material" [ID.text env.recipientDeviceID])
    return some env.recipientDeviceID

/-- The checks of `PutKeyEnvelope`, and the row it stores. -/
def checkKeyEnvelope (st : Store) (vaultID : ID) (env : KeyEnvelope) : Except Error EnvelopeRow := do
  .require (ID.valid env.id = true)
    (.protocol .invalidRequest "envelope id is not a 128-bit lowercase hex id" [])
  .require (validPurpose env.purpose = true)
    (.protocol .invalidRequest "unknown bundle purpose %q" [env.purpose.text])
  .require (env.ciphertext ≠ []) (.protocol .invalidRequest "envelope has no ciphertext" [])
  .require (1 ≤ env.keyEpoch) (.protocol .invalidRequest "key_epoch starts at 1" [])
  let recipient ← checkRecipient C st vaultID env
  let epoch ← Store.counterToInt env.keyEpoch "key_epoch"
  return { vaultID := vaultID, envelopeID := env.id, recipientDeviceID := recipient,
           purpose := env.purpose, keyEpoch := epoch, ciphertext := env.ciphertext,
           createdAt := env.createdAt }

/-- The transaction of `PutKeyEnvelope`. -/
def putRow (rows : List EnvelopeRow) (row : EnvelopeRow) : List EnvelopeRow :=
  Upsert.upsert EnvelopeRow.key row
    (if row.recipientDeviceID = none ∧ row.purpose = .recovery then
      rows.filter fun old => !row.superseded old
    else rows)

/-- `PutKeyEnvelope`. -/
def putKeyEnvelope (st : Store) (rows : List EnvelopeRow) (vaultID : ID) (env : KeyEnvelope) :
    Except Error (List EnvelopeRow) := do
  let row ← checkKeyEnvelope C st vaultID env
  return putRow rows row

/-- `RecoveryEnvelope`: the first row without a recipient in the order of its query. -/
def recoveryEnvelope (rows : List EnvelopeRow) (vaultID : ID) : Except Error KeyEnvelope :=
  match (rows.filter fun row => row.vaultID = vaultID ∧ row.recipientDeviceID = none).argmax
      EnvelopeRow.rank with
  | some row => .ok row.envelope
  | none => .error (.protocol .notFound "this vault has no recovery envelope" [])

/-! ## Requests -/

/-- `EnvelopeBody`. -/
structure EnvelopeBody where
  id : ID
  recipientDeviceID : Option ID
  purpose : BundlePurpose
  keyEpoch : ℕ
  ciphertext : Bytes
  deriving DecidableEq, Repr

/-- The envelope that `handlePutEnvelope` passes on, for the id of its path. -/
def EnvelopeBody.envelope (body : EnvelopeBody) (id : ID) (now : String) : Except Error KeyEnvelope := do
  .require (ID.valid id = true)
    (.protocol .invalidRequest "%s is not a 128-bit lowercase hex id" ["id"])
  .require (body.id = id)
    (.protocol .idMismatch "the path and the body name different envelopes" [])
  return { id := id, recipientDeviceID := body.recipientDeviceID.getD [], purpose := body.purpose,
           keyEpoch := body.keyEpoch, ciphertext := body.ciphertext, createdAt := now }

/-- The envelope of `handlePutRecoveryArchive`, under the fresh `id`. -/
def archiveEnvelope (epoch : ℕ) (id : ID) (body : Bytes) (now : String) : KeyEnvelope where
  id := id
  recipientDeviceID := []
  purpose := .recovery
  keyEpoch := if epoch = 0 then 1 else epoch
  ciphertext := body
  createdAt := now

/-! ## Sequences of calls -/

/-- A call of `PutKeyEnvelope`, with the store of its time. -/
structure EnvelopeCall where
  store : Store
  vaultID : ID
  env : KeyEnvelope

/-- The table after a call. -/
def EnvelopeCall.run (rows : List EnvelopeRow) (call : EnvelopeCall) : List EnvelopeRow :=
  match putKeyEnvelope C call.store rows call.vaultID call.env with
  | .ok rows' => rows'
  | .error _ => rows

/-- The table after the calls of a relay. -/
def tableAfter (calls : List EnvelopeCall) : List EnvelopeRow := calls.foldl (EnvelopeCall.run C) []

/-- The rows that the calls have stored, in their order. -/
def storedRows (calls : List EnvelopeCall) : List EnvelopeRow :=
  calls.filterMap fun call => (checkKeyEnvelope C call.store call.vaultID call.env).toOption

end Sshstate.Relay
