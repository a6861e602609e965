/-
  Checks on pairing objects and key bundles (`internal/protocol`: `pairing.go`,
  `bundle.go`), and the transcript both devices build (`buildTranscript`).
-/
import Sshstate.Protocol.Suite

namespace Sshstate

variable (C : Suite)

def pairingDomain : String := "sshstate.pairing.v1"
def pairingOfferDomain : String := "sshstate.pairing-offer.v1"
def pairingConfirmDomain : String := "sshstate.pairing-confirm.v1"
def bundleDomain : String := "sshstate.bundle.v1"
def bundleSignatureDomain : String := "sshstate.bundle-sig.v1"
def checkpointDomain : String := "sshstate.checkpoint.v1"

/-- `PairingLifetime`, ten minutes in nanoseconds. -/
def pairingLifetime : ℤ := 600 * 10 ^ 9

def challengeBytes : ℕ := 32
def vaultKeyBytes : ℕ := 32

/-! ## Pairing -/

def PairingOffer.validate (o : PairingOffer) (expectSuite : String) : Except Error Unit := do
  .require (o.domain = pairingOfferDomain)
    (.errorf "pairing offer domain %q is not %q" [o.domain, pairingOfferDomain])
  .require (o.formatVersion = 1)
    (.errorf "unsupported pairing format version %d" [toString o.formatVersion])
  .require (o.suite = expectSuite)
    (.errorf "pairing offer uses suite %q, this build implements %q" [o.suite, expectSuite])
  ID.check o.vaultID "vault_id"
  ID.check o.joinerDeviceID "joiner_device_id"
  .require (o.joinerVerifyKey ≠ [] ∧ o.joinerRecipient ≠ "")
    (.new "pairing offer is missing the joiner's public keys")
  .require (o.joinerChallenge.length = challengeBytes)
    (.errorf "joiner_challenge must be %d bytes, got %d"
      [toString challengeBytes, toString o.joinerChallenge.length])
  .require ((C.parseTime o.createdAt).isSome = true) (.new "pairing offer created_at is not RFC 3339")

def PairingApproval.validate (a : PairingApproval) : Except Error Unit := do
  ID.check a.approverDeviceID "approver_device_id"
  .require (a.approverVerifyKey ≠ [] ∧ a.approverRecipient ≠ "")
    (.new "pairing approval is missing the approver's public keys")
  .require (a.approverChallenge.length = challengeBytes)
    (.errorf "approver_challenge must be %d bytes, got %d"
      [toString challengeBytes, toString a.approverChallenge.length])
  match C.parseTime a.createdAt, C.parseTime a.expiresAt with
  | none, _ => .error (.new "pairing approval created_at is not RFC 3339")
  | some _, none => .error (.new "pairing approval expires_at is not RFC 3339")
  | some created, some expires =>
    .require (expires = created + pairingLifetime)
      (.errorf "pairing session must last exactly %s" ["10m0s"])

/-- `BuildTranscript`. -/
def buildTranscript (sessionID : ID) (offer : PairingOffer) (approval : PairingApproval)
    (expectSuite : String) : Except Error PairingTranscript := do
  ID.check sessionID "session_id"
  offer.validate C expectSuite
  approval.validate C
  .require (offer.joinerDeviceID ≠ approval.approverDeviceID)
    (.new "a device cannot pair with itself")
  return { domain := pairingDomain, formatVersion := 1, suite := expectSuite,
           vaultID := offer.vaultID, sessionID := sessionID,
           approverDeviceID := approval.approverDeviceID,
           approverVerifyKey := approval.approverVerifyKey,
           approverRecipient := approval.approverRecipient,
           joinerDeviceID := offer.joinerDeviceID, joinerVerifyKey := offer.joinerVerifyKey,
           joinerRecipient := offer.joinerRecipient,
           approverChallenge := approval.approverChallenge,
           joinerChallenge := offer.joinerChallenge,
           createdAt := approval.createdAt, expiresAt := approval.expiresAt }

/-- `PairingTranscript.Expired`. -/
def PairingTranscript.expired (t : PairingTranscript) (now : ℤ) : Bool :=
  match C.parseTime t.expiresAt with
  | none => true
  | some expires => expires ≤ now

def PairingConfirmation.validate (c : PairingConfirmation) : Except Error Unit := do
  .require (c.domain = pairingConfirmDomain)
    (.errorf "pairing confirmation domain %q is not %q" [c.domain, pairingConfirmDomain])
  .require (c.formatVersion = 1)
    (.errorf "unsupported pairing format version %d" [toString c.formatVersion])
  ID.check c.vaultID "vault_id"
  ID.check c.sessionID "session_id"
  ID.check c.deviceID "device_id"
  .require (c.transcriptDigest.length = sha256Size)
    (.errorf "transcript_digest must be %d bytes, got %d"
      [toString sha256Size, toString c.transcriptDigest.length])
  .require ((C.parseTime c.createdAt).isSome = true)
    (.new "pairing confirmation created_at is not RFC 3339")

/-! ## Bundles -/

/-- The loop of `Checkpoint.Validate` over the heads; `before` are those passed. -/
def Checkpoint.validateHeads : (before : List Head) → List Head → Except Error Unit
  | _, [] => .ok ()
  | before, h :: hs => do
    ID.check h.recordID "head record_id"
    .require (h.recordID ∉ before.map (·.recordID))
      (.errorf "record %s appears twice in the checkpoint" [ID.text h.recordID])
    .require (∀ p ∈ before.getLast?, p.recordID < h.recordID)
      (.new "checkpoint heads are not sorted by record_id")
    .require (1 ≤ h.rev) (.errorf "record %s has rev %s" [ID.text h.recordID, toString h.rev])
    .require (h.digest.length = sha256Size)
      (.errorf "record %s has a %d-byte digest" [ID.text h.recordID, toString h.digest.length])
    validateHeads (before ++ [h]) hs

def Checkpoint.validate (c : Checkpoint) : Except Error Unit := do
  .require (c.domain = checkpointDomain)
    (.errorf "checkpoint domain %q is not %q" [c.domain, checkpointDomain])
  .require (c.formatVersion = 1)
    (.errorf "unsupported checkpoint format version %d" [toString c.formatVersion])
  ID.check c.vaultID "vault_id"
  .require (1 ≤ c.keyEpoch) (.new "key_epoch starts at 1")
  .require (c.membershipDigest.length = sha256Size)
    (.errorf "membership_digest must be %d bytes" [toString sha256Size])
  .require ((C.parseTime c.createdAt).isSome = true) (.new "checkpoint created_at is not RFC 3339")
  validateHeads [] c.heads

/-- The loop of `validatePurpose` over the epochs of a rotation. -/
def Bundle.validateEpochs : (i : ℕ) → List EpochKeys → Except Error Unit
  | _, [] => .ok ()
  | i, e :: es => do
    .require (e.keyEpoch = i + 1) (.errorf "epoch_history[%d] is epoch %s, expected %d"
      [toString i, toString e.keyEpoch, toString (i + 1)])
    .require (e.metadataKey.length = vaultKeyBytes ∧ e.secretKey.length = vaultKeyBytes)
      (.errorf "epoch %s keys must be %d bytes each" [toString e.keyEpoch, toString vaultKeyBytes])
    validateEpochs (i + 1) es

/-- The last check of `validatePurpose`. -/
def Bundle.noRotation (b : Bundle) (purpose : String) : Except Error Unit :=
  .require (b.rotationID = none ∧ b.epochHistory = [])
    (.errorf "a %s bundle carries no rotation history" [purpose])

/-- `Bundle.validatePurpose`. -/
def Bundle.validatePurpose (b : Bundle) : Except Error Unit :=
  match b.purpose with
  | .enrollment => do
    .require ((b.transcriptDigest.getD []).length = sha256Size)
      (.errorf "an enrollment bundle needs a %d-byte transcript_digest" [toString sha256Size])
    .require (b.recipientDeviceID.isSome = true)
      (.new "an enrollment bundle must name the receiving device")
    b.noRotation "enrollment"
  | .recovery => do
    .require (b.transcriptDigest = none) (.new "a recovery bundle has no pairing transcript")
    b.noRotation "recovery"
  | .rotation => do
    .require (b.transcriptDigest = none) (.new "a rotation bundle has no pairing transcript")
    match b.rotationID with
    | none => .error (.new "a rotation bundle must name its rotation")
    | some id => do
      ID.check id "rotation_id"
      .require (2 ≤ b.keyEpoch) (.errorf "a rotation bundle cannot be at epoch %s" [toString b.keyEpoch])
      .require (toInt64 b.keyEpoch - 1 = b.epochHistory.length)
        (.errorf "a rotation bundle to epoch %s needs %d historical epochs, got %d"
          [toString b.keyEpoch, toString (toInt64 b.keyEpoch - 1), toString b.epochHistory.length])
      Bundle.validateEpochs 0 b.epochHistory
  | .other name => b.noRotation name

def Bundle.validate (b : Bundle) (expectSuite : String) : Except Error Unit := do
  .require (b.domain = bundleDomain)
    (.errorf "bundle domain %q is not %q" [b.domain, bundleDomain])
  .require (b.formatVersion = 1)
    (.errorf "unsupported bundle format version %d" [toString b.formatVersion])
  .require (b.suite = expectSuite)
    (.errorf "bundle uses suite %q, this build implements %q" [b.suite, expectSuite])
  ID.check b.vaultID "vault_id"
  .require (b.genesisDigest.length = sha256Size)
    (.errorf "genesis_digest must be %d bytes" [toString sha256Size])
  match b.purpose with
  | .other name => .error (.errorf "unknown bundle purpose %q" [name])
  | _ => .ok ()
  .require (b.recipient ≠ "") (.new "bundle names no recipient")
  match b.recipientDeviceID with
  | some id => ID.check id "recipient_device_id"
  | none => .ok ()
  .require (1 ≤ b.keyEpoch) (.new "key_epoch starts at 1")
  .require (b.metadataKey.length = vaultKeyBytes ∧ b.secretKey.length = vaultKeyBytes)
    (.errorf "vault keys must be %d bytes each" [toString vaultKeyBytes])
  .require ((C.parseTime b.createdAt).isSome = true) (.new "bundle created_at is not RFC 3339")
  (b.checkpoint.validate C).mapError (.wrap "bundle checkpoint: %w" [])
  .require (b.checkpoint.vaultID = b.vaultID) (.new "the bundle's checkpoint names another vault")
  .require (b.checkpoint.keyEpoch = b.keyEpoch)
    (.new "the bundle's checkpoint is at another epoch")
  .require (b.snapshotDigest.isNone = b.snapshotLength.isNone)
    (.new "a snapshot needs both a digest and a length, or neither")
  .require (∀ d ∈ b.snapshotDigest, d.length = sha256Size)
    (.errorf "snapshot_digest must be %d bytes" [toString sha256Size])
  .require (b.snapshotLength ≠ some 0) (.new "snapshot_length is zero")
  b.validatePurpose

end Sshstate
