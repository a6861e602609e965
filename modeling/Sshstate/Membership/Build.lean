/-
  Building membership events (`internal/membership/build.go`).

  The random event id and the entropy of the signature are arguments.
-/
import Sshstate.Membership.Chain

namespace Sshstate.Membership

variable (C : Suite)

/-- `membership.Signer`: a device and the seed of its signing key. -/
structure Signer where
  deviceID : ID
  key : Bytes

/-- `membership.DeviceKeys`. -/
structure DeviceKeys where
  id : ID
  verifyKey : Bytes
  recipient : String
  deriving DecidableEq, Repr

/-- `sign`. -/
def sign (ev : MembershipEvent) (key : Bytes) (eventID : ID) (entropy : Bytes) :
    SignedMembershipEvent :=
  let ev := { ev with eventID := eventID }
  { event := ev
    signature := C.sign key entropy membershipSignatureDomain (C.canonical (.membershipEvent ev)) }

/-- `Chain.Enroll`. -/
def Chain.enroll (c : Chain) (signer : Signer) (device : DeviceKeys) (transcriptDigest : Bytes)
    (now : ℤ) (eventID : ID) (entropy : Bytes) : Except Error SignedMembershipEvent := do
  .require (transcriptDigest ≠ [])
    (.new "enrolment needs the confirmed pairing transcript digest")
  .require (c.authorized signer.deviceID = true)
    (.errorf "device %s is not authorized to enrol" [ID.text signer.deviceID])
  return sign C
    { domain := membershipDomain, formatVersion := 1, suite := suiteID,
      vaultID := c.genesis.vaultID, eventID := [], chainSeq := c.events.length + 1,
      parentDigest := some c.head, action := .enroll, deviceID := device.id,
      deviceVerifyKey := some device.verifyKey, deviceRecipient := some device.recipient,
      transcriptDigest := some transcriptDigest, authority := .device,
      authorizedBy := signer.deviceID, createdAt := C.stamp now } signer.key eventID entropy

/-- `Chain.RecoveryEnroll`. -/
def Chain.recoveryEnroll (c : Chain) (recovery : Bytes) (device : DeviceKeys) (now : ℤ) (eventID : ID)
    (entropy : Bytes) : SignedMembershipEvent :=
  sign C
    { domain := membershipDomain, formatVersion := 1, suite := suiteID,
      vaultID := c.genesis.vaultID, eventID := [], chainSeq := c.events.length + 1,
      parentDigest := some c.head, action := .enroll, deviceID := device.id,
      deviceVerifyKey := some device.verifyKey, deviceRecipient := some device.recipient,
      transcriptDigest := none, authority := .recovery, authorizedBy := c.genesis.vaultID,
      createdAt := C.stamp now } recovery eventID entropy

/-- `Chain.Revoke`. -/
def Chain.revoke (c : Chain) (signer : Signer) (target : ID) (now : ℤ) (eventID : ID)
    (entropy : Bytes) : Except Error SignedMembershipEvent := do
  .require (c.authorized signer.deviceID = true)
    (.errorf "device %s is not authorized to revoke" [ID.text signer.deviceID])
  .require (c.authorized target = true)
    (.errorf "device %s is not currently authorized" [ID.text target])
  .require (c.authorizedCount ≠ 1)
    (.new "this is the last authorized device; revoking it would leave the recovery kit as the only write path")
  return sign C
    { domain := membershipDomain, formatVersion := 1, suite := suiteID,
      vaultID := c.genesis.vaultID, eventID := [], chainSeq := c.events.length + 1,
      parentDigest := some c.head, action := .revoke, deviceID := target, deviceVerifyKey := none,
      deviceRecipient := none, transcriptDigest := none, authority := .device,
      authorizedBy := signer.deviceID, createdAt := C.stamp now } signer.key eventID entropy

end Sshstate.Membership
