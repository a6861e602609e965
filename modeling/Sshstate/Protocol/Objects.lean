/-
  The signed objects other than records (`internal/protocol`: `genesis.go`,
  `membership.go`, `pairing.go`, `bundle.go`, `api.go`).

  Nullable fields are options.
-/
import Sshstate.Protocol.Record

namespace Sshstate

/-- `crypto.SuiteID`. -/
def suiteID : String := "sshstate.suite.v1"

/-! ## Genesis and membership -/

/-- `Genesis`. -/
structure Genesis where
  domain : String
  formatVersion : ℤ
  suite : String
  vaultID : ID
  createdAt : String
  firstDeviceID : ID
  firstDeviceVerifyKey : Bytes
  firstDeviceRecipient : String
  recoveryVerifyKey : Bytes
  recoveryRecipient : String
  deriving DecidableEq, Repr

/-- `MembershipAction`. -/
inductive MembershipAction where
  | enroll | revoke
  | other (name : String)
  deriving DecidableEq, Repr

/-- `Authority`. -/
inductive Authority where
  | device | recovery
  | other (name : String)
  deriving DecidableEq, Repr

/-- `MembershipEvent`. -/
structure MembershipEvent where
  domain : String
  formatVersion : ℤ
  suite : String
  vaultID : ID
  eventID : ID
  chainSeq : ℕ
  parentDigest : Option Bytes
  action : MembershipAction
  deviceID : ID
  deviceVerifyKey : Option Bytes
  deviceRecipient : Option String
  transcriptDigest : Option Bytes
  authority : Authority
  authorizedBy : ID
  createdAt : String
  deriving DecidableEq, Repr

/-- `SignedMembershipEvent`. -/
structure SignedMembershipEvent where
  event : MembershipEvent
  signature : Bytes
  deriving DecidableEq, Repr

/-! ## Pairing -/

/-- `PairingOffer`. -/
structure PairingOffer where
  domain : String
  formatVersion : ℤ
  suite : String
  vaultID : ID
  joinerDeviceID : ID
  joinerVerifyKey : Bytes
  joinerRecipient : String
  joinerChallenge : Bytes
  createdAt : String
  deriving DecidableEq, Repr

/-- `SignedPairingOffer`. -/
structure SignedPairingOffer where
  offer : PairingOffer
  signature : Bytes
  deriving DecidableEq, Repr

/-- `PairingApproval`. -/
structure PairingApproval where
  approverDeviceID : ID
  approverVerifyKey : Bytes
  approverRecipient : String
  approverChallenge : Bytes
  createdAt : String
  expiresAt : String
  deriving DecidableEq, Repr

/-- `PairingTranscript`: what both users compare the fingerprint of. -/
structure PairingTranscript where
  domain : String
  formatVersion : ℤ
  suite : String
  vaultID : ID
  sessionID : ID
  approverDeviceID : ID
  approverVerifyKey : Bytes
  approverRecipient : String
  joinerDeviceID : ID
  joinerVerifyKey : Bytes
  joinerRecipient : String
  approverChallenge : Bytes
  joinerChallenge : Bytes
  createdAt : String
  expiresAt : String
  deriving DecidableEq, Repr

/-- `PairingConfirmation`. -/
structure PairingConfirmation where
  domain : String
  formatVersion : ℤ
  vaultID : ID
  sessionID : ID
  deviceID : ID
  transcriptDigest : Bytes
  createdAt : String
  deriving DecidableEq, Repr

/-- `SignedPairingConfirmation`. -/
structure SignedPairingConfirmation where
  confirmation : PairingConfirmation
  signature : Bytes
  deriving DecidableEq, Repr

/-! ## Bundles -/

/-- `Head`. -/
structure Head where
  recordID : ID
  rev : ℕ
  digest : Bytes
  deleted : Bool
  deriving DecidableEq, Repr

/-- `Checkpoint`. -/
structure Checkpoint where
  domain : String
  formatVersion : ℤ
  vaultID : ID
  keyEpoch : ℕ
  seq : ℕ
  membershipDigest : Bytes
  heads : List Head
  createdAt : String
  deriving DecidableEq, Repr

/-- `BundlePurpose`. -/
inductive BundlePurpose where
  | enrollment | recovery | rotation
  | other (name : String)
  deriving DecidableEq, Repr

/-- `EpochKeys`. -/
structure EpochKeys where
  keyEpoch : ℕ
  metadataKey : Bytes
  secretKey : Bytes
  deriving DecidableEq, Repr

/-- `Bundle`: the only object that carries vault keys. -/
structure Bundle where
  domain : String
  formatVersion : ℤ
  suite : String
  vaultID : ID
  genesisDigest : Bytes
  purpose : BundlePurpose
  recipientDeviceID : Option ID
  recipient : String
  keyEpoch : ℕ
  metadataKey : Bytes
  secretKey : Bytes
  transcriptDigest : Option Bytes
  checkpoint : Checkpoint
  snapshotDigest : Option Bytes
  snapshotLength : Option ℕ
  rotationID : Option ID
  epochHistory : List EpochKeys
  createdAt : String
  deriving DecidableEq, Repr

/-- `SignedBundle`. -/
structure SignedBundle where
  bundle : Bundle
  signature : Bytes
  deriving DecidableEq, Repr

/-! ## Exports -/

/-- `ExportMember`. -/
structure ExportMember where
  name : String
  length : ℕ
  digest : Bytes
  deriving DecidableEq, Repr

/-- `ExportManifest`. -/
structure ExportManifest where
  domain : String
  formatVersion : ℤ
  suite : String
  vaultID : ID
  genesisDigest : Bytes
  keyEpoch : ℕ
  exportedBy : ID
  createdAt : String
  checkpoint : Checkpoint
  members : List ExportMember
  deriving DecidableEq, Repr

/-- `SignedExportManifest`. -/
structure SignedExportManifest where
  manifest : ExportManifest
  signature : Bytes
  deriving DecidableEq, Repr

/-- `PairingResponse`: a pairing session as the relay returns it. -/
structure PairingResponse where
  sessionID : ID
  state : String
  offer : Option PairingOffer
  offerSignature : Bytes
  approver : Option PairingApproval
  approverConfirmation : Option SignedPairingConfirmation
  joinerConfirmation : Option SignedPairingConfirmation
  bundle : Bytes
  snapshot : Bytes
  membershipEvent : Option SignedMembershipEvent
  genesis : Option Genesis
  expiresAt : String
  deriving DecidableEq, Repr

/-- `RecoveryAdmission`. -/
structure RecoveryAdmission where
  domain : String
  formatVersion : ℤ
  vaultID : ID
  genesisDigest : Bytes
  nonce : String
  deviceID : ID
  deviceVerifyKey : Bytes
  deviceRecipient : String
  createdAt : String
  deriving DecidableEq, Repr

end Sshstate
