/-
  The membership chain (`internal/membership/chain.go`, and the checks of
  `internal/protocol/genesis.go` and `membership.go`).

  A chain is folded from genesis event by event (`Chain.apply`): each event
  continues the chain, is signed by a device the chain already authorizes (or
  by the recovery key that genesis pins), and enrols or revokes one device.

  `devices` keeps the devices in the order they were enrolled; it is both the
  map `devices` and the list `order` of the source, which never drops an entry.
-/
import Sshstate.Protocol.Suite

namespace Sshstate

variable (C : Suite)

/-! ## Object checks -/

/-- `GenesisDomain`. -/
def genesisDomain : String := "sshstate.genesis.v1"

/-- `MembershipDomain`. -/
def membershipDomain : String := "sshstate.membership.v1"

/-- `MembershipSignatureDomain`. -/
def membershipSignatureDomain : String := "sshstate.membership-sig.v1"

/-- `Genesis.Validate`. -/
def Genesis.validate (g : Genesis) (expectSuite : String) : Except Error Unit := do
  .require (g.domain = genesisDomain)
    (.errorf "genesis domain %q is not %q" [g.domain, genesisDomain])
  .require (g.formatVersion = 1)
    (.errorf "unsupported genesis format version %d" [toString g.formatVersion])
  .require (g.suite = expectSuite)
    (.errorf "vault uses suite %q, this build implements %q" [g.suite, expectSuite])
  ID.check g.vaultID "vault_id"
  ID.check g.firstDeviceID "first_device_id"
  .require ((C.parseTime g.createdAt).isSome = true) (.new "genesis created_at is not RFC 3339")
  .require (g.firstDeviceVerifyKey ≠ [] ∧ g.firstDeviceRecipient ≠ "")
    (.new "genesis is missing the first device's public keys")
  .require (g.recoveryVerifyKey ≠ [] ∧ g.recoveryRecipient ≠ "")
    (.new "genesis is missing the recovery kit's public keys")

/-- The authority an event claims, and who it names as `authorized_by`. -/
def MembershipEvent.validateAuthority (e : MembershipEvent) : Except Error Unit :=
  match e.authority with
  | .device => .ok ()
  | .recovery => .require (e.authorizedBy = e.vaultID)
      (.new "a recovery-authorized event must name the vault as authorized_by")
  | .other name => .error (.errorf "unknown membership authority %q" [name])

/-- The fields an enrolment must and a revocation must not carry. -/
def MembershipEvent.validateAction (e : MembershipEvent) : Except Error Unit :=
  match e.action with
  | .enroll => do
    .require ((e.deviceVerifyKey.getD []) ≠ [] ∧ (e.deviceRecipient.getD "") ≠ "")
      (.new "an enrolment must carry the device's public keys")
    .require (e.authority = .device → (e.transcriptDigest.getD []).length = sha256Size)
      (.errorf "a device-authorized enrolment needs a %d-byte transcript_digest"
        [toString sha256Size])
    .require (e.authority = .recovery → e.transcriptDigest = none)
      (.new "a recovery-authorized enrolment has no pairing transcript")
  | .revoke => .require (e.deviceVerifyKey = none ∧ e.deviceRecipient = none ∧
        e.transcriptDigest = none)
      (.new "a revocation must not restate keys or a transcript")
  | .other name => .error (.errorf "unknown membership action %q" [name])

/-- `MembershipEvent.Validate`. -/
def MembershipEvent.validate (e : MembershipEvent) (expectSuite : String) : Except Error Unit := do
  .require (e.domain = membershipDomain)
    (.errorf "membership domain %q is not %q" [e.domain, membershipDomain])
  .require (e.formatVersion = 1)
    (.errorf "unsupported membership format version %d" [toString e.formatVersion])
  .require (e.suite = expectSuite)
    (.errorf "membership event uses suite %q, this build implements %q" [e.suite, expectSuite])
  ID.check e.vaultID "vault_id"
  ID.check e.eventID "event_id"
  ID.check e.deviceID "device_id"
  ID.check e.authorizedBy "authorized_by"
  .require ((C.parseTime e.createdAt).isSome = true) (.new "membership created_at is not RFC 3339")
  .require (1 ≤ e.chainSeq) (.new "chain_seq starts at 1")
  .require (e.chainSeq = 1 → e.parentDigest = none)
    (.new "chain_seq 1 is the root and must not carry a parent_digest")
  .require (1 < e.chainSeq → (e.parentDigest.getD []).length = sha256Size)
    (.errorf "chain_seq %s needs a %d-byte parent_digest, got %d"
      [toString e.chainSeq, toString sha256Size, toString (e.parentDigest.getD []).length])
  e.validateAuthority
  e.validateAction

/-! ## Chains -/

namespace Membership

/-- `membership.Device`. -/
structure Device where
  id : ID
  verifyKey : Bytes
  recipient : String
  enrolledAt : String
  enrolledBy : ID
  revoked : Bool
  revokedAt : String
  enrollSeq : ℕ
  revokeSeq : ℕ
  deriving DecidableEq, Repr

/-- `membership.Chain`. -/
structure Chain where
  genesis : Genesis
  events : List SignedMembershipEvent
  devices : List Device
  head : Bytes
  deriving DecidableEq, Repr

namespace Chain

/-- `Chain.Device`. -/
def device (c : Chain) (id : ID) : Option Device := c.devices.find? (·.id = id)

/-- `Chain.Authorized`. -/
def authorized (c : Chain) (id : ID) : Bool :=
  match c.device id with
  | some d => !d.revoked
  | none => false

/-- `Chain.AuthorizedCount`. -/
def authorizedCount (c : Chain) : ℕ := c.devices.countP (!·.revoked)

/-- `Chain.HeadDigest`. -/
def headDigest (c : Chain) : Bytes := c.head

/-- `Chain.checkRoot`. -/
def checkRoot (c : Chain) (ev : MembershipEvent) : Except Error Unit := do
  .require (ev.action = .enroll) (.new "the root event must enrol the first device")
  .require (ev.authority = .device)
    (.new "the root event is signed by the first device, not the recovery key")
  .require (ev.deviceID = c.genesis.firstDeviceID ∧ ev.authorizedBy = c.genesis.firstDeviceID)
    (.new "the root event does not enrol the genesis first device")
  .require (bytesEqual ev.deviceVerifyKey (some c.genesis.firstDeviceVerifyKey) = true)
    (.new "the root event's verify key is not the one genesis pins")
  .require (ev.deviceRecipient = some c.genesis.firstDeviceRecipient)
    (.new "the root event's recipient is not the one genesis pins")

/-- The place of an event in the chain: the root, or built on the head. -/
def checkParent (c : Chain) (ev : MembershipEvent) : Except Error Unit :=
  if c.events = [] then c.checkRoot ev
  else .require (bytesEqual ev.parentDigest (some c.head) = true)
    (.new "parent_digest does not name the current chain head")

/-- `Chain.signerKey`. -/
def signerKey (c : Chain) (ev : MembershipEvent) : Except Error Bytes :=
  if ev.authority = .recovery then C.verifyKeyFromBytes c.genesis.recoveryVerifyKey
  else if c.events = [] then C.verifyKeyFromBytes (ev.deviceVerifyKey.getD [])
  else match c.device ev.authorizedBy with
    | none => .error (.errorf "device %s is not in the membership chain" [ID.text ev.authorizedBy])
    | some d =>
      if d.revoked then
        .error (.errorf "device %s was revoked and cannot authorize" [ID.text ev.authorizedBy])
      else .ok d.verifyKey

/-- `Chain.applyAction`. -/
def applyAction (c : Chain) (ev : MembershipEvent) : Except Error Chain :=
  match ev.action with
  | .enroll => do
    .require (c.device ev.deviceID = none)
      (.errorf "device %s has appeared in this chain before" [ID.text ev.deviceID])
    let key ← (C.verifyKeyFromBytes (ev.deviceVerifyKey.getD [])).mapError
      (.wrap "enrolled device_verify_key: %w" [])
    .require ((C.parseRecipient (ev.deviceRecipient.getD "")).isSome = true)
      (.new "enrolled device_recipient: parse recipient")
    return { c with devices := c.devices ++
      [{ id := ev.deviceID, verifyKey := key, recipient := ev.deviceRecipient.getD "",
         enrolledAt := ev.createdAt, enrolledBy := ev.authorizedBy, revoked := false,
         revokedAt := "", enrollSeq := ev.chainSeq, revokeSeq := 0 }] }
  | .revoke =>
    match c.device ev.deviceID with
    | none => .error (.errorf "device %s is not in the membership chain" [ID.text ev.deviceID])
    | some d => do
      .require (d.revoked = false) (.errorf "device %s is already revoked" [ID.text ev.deviceID])
      .require (c.authorizedCount ≠ 1)
        (.new "refusing to revoke the last authorized device: the vault would have no write path but the recovery kit")
      return { c with devices := c.devices.map fun x =>
        if x.id = ev.deviceID then
          { x with revoked := true, revokedAt := ev.createdAt, revokeSeq := ev.chainSeq } else x }
  | .other name => .error (.errorf "unknown membership action %q" [name])

/-- `Chain.apply`. -/
def apply (c : Chain) (s : SignedMembershipEvent) : Except Error Chain := do
  let ev := s.event
  ev.validate C suiteID
  .require (ev.vaultID = c.genesis.vaultID)
    (.errorf "event names vault %s, genesis is %s" [ID.text ev.vaultID, ID.text c.genesis.vaultID])
  .require (ev.chainSeq = c.events.length + 1)
    (.errorf "chain_seq is %s, expected %s" [toString ev.chainSeq, toString (c.events.length + 1)])
  c.checkParent ev
  let signer ← c.signerKey C ev
  (C.verifySignature signer membershipSignatureDomain (C.canonical (.membershipEvent ev))
    s.signature).mapError (.wrap "membership signature: %w" [])
  let c ← c.applyAction C ev
  let digest ← s.digest C
  return { c with events := c.events ++ [s], head := digest }

/-- `Chain.Append`. -/
def append (c : Chain) (ev : SignedMembershipEvent) : Except Error Chain := c.apply C ev

/-- The chain before its first event. -/
def start (g : Genesis) : Chain := { genesis := g, events := [], devices := [], head := [] }

end Chain

/-- `membership.Validate`. -/
def validate (g : Genesis) (events : List SignedMembershipEvent) : Except Error Chain := do
  g.validate C suiteID
  .require (events ≠ []) (.new "membership chain is empty")
  events.foldlM (fun c ev =>
    (c.apply C ev).mapError (.wrap "membership event %d: %w" [toString (c.events.length + 1)]))
    (Chain.start g)

end Membership

end Sshstate
