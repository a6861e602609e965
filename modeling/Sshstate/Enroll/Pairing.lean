/-
  Pairing (`internal/enroll`: `pairing.go`, `bundle.go`; the assembly of a
  delivery in `internal/daemon/pair.go`).

  The relay is not modelled: what it answers to a request is an argument
  (`Except Error PairingResponse`), so that a statement for all arguments is a
  statement about every relay.  The approver keeps the session it read last in
  `session`; the transcript whose fingerprint it displays is built from the
  first one (`approve`).  Dereferencing a missing offer is a run-time panic,
  which ends the request like an error.
-/
import Sshstate.Membership.Build
import Sshstate.Protocol.Pairing

namespace Sshstate.Enroll

variable (C : Suite)

/-- `enroll.Identity`: a device id and the secret parts of its keys. -/
structure Identity where
  deviceID : ID
  signing : Bytes
  encryption : Bytes
  deriving DecidableEq, Repr

/-- `usable`. -/
def usable (s : PairingResponse) : Except Error Unit :=
  if s.state = "expired" then
    .error (.protocol .pairingExpired "this pairing session has expired" [])
  else if s.state = "completed" then
    .error (.protocol .pairingConsumed "this pairing session already completed" [])
  else .ok ()

/-- `verifyConfirmation`. -/
def verifyConfirmation (conf : SignedPairingConfirmation) (tr : PairingTranscript) (digest : Bytes)
    (key : Option Bytes) : Except Error Unit :=
  match key with
  | none => .error (.new "no key to verify the confirmation against")
  | some key => do
    conf.confirmation.validate C
    .require (conf.confirmation.sessionID = tr.sessionID ∧ conf.confirmation.vaultID = tr.vaultID)
      (.new "the confirmation names another session")
    .require (conf.confirmation.transcriptDigest = digest)
      (.new "the other device confirmed a different transcript")
    .require (C.verify key pairingConfirmDomain
        (C.canonical (.pairingConfirmation conf.confirmation)) conf.signature = true)
      (.new "the confirmation signature does not verify")

/-- `mustVerifyKey`. -/
def mustVerifyKey (raw : Bytes) : Option Bytes := if C.verifyKeyOK raw then some raw else none

/-! ## Bundles and snapshots -/

/-- `OpenBundle`. -/
def openBundle (sealedBundle identity expectSender : Bytes) : Except Error Bundle :=
  match C.openWith identity sealedBundle with
  | none => .error (.new "open bundle")
  | some raw =>
    match C.unmarshalBundle raw with
    | none => .error (.new "open bundle")
    | some signed => do
      (signed.bundle.validate C suiteID).mapError (.wrap "open bundle: %w" [])
      .require (C.verify expectSender bundleSignatureDomain (C.canonical (.bundle signed.bundle))
          signed.signature = true)
        (.new "open bundle: the bundle is not signed by the device that should have sent it")
      .require (C.recipient identity = signed.bundle.recipient)
        (.new "open bundle: the bundle was addressed to a different recipient")
      return signed.bundle

/-- `SealSignedBundle`, with the recipient the sealed bytes can be opened by. -/
def sealSignedBundle (sb : SignedBundle) (recipient : String) (entropy : Bytes) :
    Except Error Bytes := do
  .require (sb.signature ≠ []) (.new "bundle: unsigned")
  .require (recipient = sb.bundle.recipient)
    (.new "bundle: the recipient it names is not the one it is sealed to")
  (sb.bundle.validate C suiteID).mapError (.wrap "bundle: %w" [])
  return C.sealTo (C.canonical (.signedBundle sb)) recipient entropy

/-- `crypto.MaxStreamBytes`. -/
def maxSnapshotBytes : ℕ := 256 * 2 ^ 20

/-- `BuildSnapshot`: one canonical envelope a line, in the order of the record ids. -/
def buildSnapshot (envs : List Envelope) : Except Error Bytes := do
  let sorted := envs.insertionSort fun a b => ¬ b.context.recordID < a.context.recordID
  let body := sorted.flatMap fun env => C.canonical (.envelope env) ++ [10]
  .require (body.length ≤ maxSnapshotBytes) (.errorf "snapshot is %d bytes, the limit is %d"
    [toString body.length, toString maxSnapshotBytes])
  return body

/-- `OpenSnapshot`. -/
def openSnapshot (sealedSnapshot identity digest : Bytes) (length : ℕ) :
    Except Error (List Envelope) :=
  match C.openWith identity sealedSnapshot with
  | none => .error (.new "open snapshot")
  | some raw => do
    .require (raw.length = length) (.errorf "open snapshot: %d bytes, the bundle says %s"
      [toString raw.length, toString length])
    .require (C.sha256 raw = digest)
      (.new "open snapshot: the snapshot does not match the digest the bundle binds")
    match C.unmarshalSnapshot raw with
    | none => .error (.new "snapshot line")
    | some envs => .ok envs

/-! ## The approver -/

/-- `enroll.Approver`. -/
structure Approver where
  sessionID : ID
  session : PairingResponse
  approval : PairingApproval
  transcript : PairingTranscript
  deriving DecidableEq, Repr

/-- `Approve`: read the session, check that the offer is signed by the key it
    offers, and build the transcript. -/
def approve (sessionID : ID) (id : Identity) (now : ℤ) (challenge : Bytes)
    (response : Except Error PairingResponse) : Except Error Approver := do
  let session ← response
  usable session
  match session.offer with
  | none => .error (.new "the session has no offer")
  | some offer => do
    let offerKey ← C.verifyKeyFromBytes offer.joinerVerifyKey
    .require (C.verify offerKey pairingOfferDomain (C.canonical (.pairingOffer offer))
        session.offerSignature = true)
      (.new "the offer is not signed by the key it offers")
    let approval : PairingApproval :=
      { approverDeviceID := id.deviceID, approverVerifyKey := C.verifier id.signing,
        approverRecipient := C.recipient id.encryption, approverChallenge := challenge,
        createdAt := C.stamp now, expiresAt := C.stamp (now + pairingLifetime) }
    let tr ← buildTranscript C sessionID offer approval suiteID
    return { sessionID := sessionID, session := session, approval := approval, transcript := tr }

namespace Approver

/-- `Approver.JoinerKeys`. -/
def joinerKeys (a : Approver) : Except Error Membership.DeviceKeys :=
  match a.session.offer with
  | none => .error (.new "panic: nil pointer dereference")
  | some o => .ok { id := o.joinerDeviceID, verifyKey := o.joinerVerifyKey,
                    recipient := o.joinerRecipient }

/-- `Approver.JoinerRecipient`. -/
def joinerRecipient (a : Approver) : Except Error String :=
  match a.session.offer with
  | none => .error (.new "panic: nil pointer dereference")
  | some o =>
    match C.parseRecipient o.joinerRecipient with
    | none => .error (.new "parse recipient")
    | some r => .ok r

/-- `Approver.AwaitJoiner`: whether the joiner has confirmed, and the approver
    afterwards, which keeps the session it just read. -/
def awaitJoiner (a : Approver) (response : Except Error PairingResponse) :
    Except Error (Bool × Approver) := do
  let session ← response
  usable session
  match session.joinerConfirmation with
  | none => return (false, a)
  | some conf =>
    match a.session.offer with
    | none => .error (.new "panic: nil pointer dereference")
    | some offer => do
      let joinerKey ← C.verifyKeyFromBytes offer.joinerVerifyKey
      verifyConfirmation C conf a.transcript (a.transcript.digest C) (some joinerKey)
      return (true, { a with session := session })

/-- The approver after a number of calls of `AwaitJoiner`, whatever they returned. -/
def polls (a : Approver) (responses : List (Except Error PairingResponse)) : Approver :=
  responses.foldl (fun a response =>
    match a.awaitJoiner C response with
    | .ok (_, a') => a'
    | .error _ => a) a

end Approver

/-- What the approving device puts into a delivery besides the approver's own
    state: its vault, the chain, the snapshot, the time and the entropy. -/
structure HandOver where
  genesis : Genesis
  vaultID : ID
  signer : Membership.Signer
  keyEpoch : ℕ
  checkpointEpoch : ℕ
  metadataKey : Bytes
  secretKey : Bytes
  chain : Membership.Chain
  records : List Envelope
  heads : List Head
  seq : ℕ
  now : ℤ
  eventID : ID
  entropy : Bytes

/-- What is delivered: the enrolment, and the bundle and the snapshot with the
    recipient each is sealed to. -/
structure Delivered where
  event : SignedMembershipEvent
  bundle : SignedBundle
  sealedBundle : Bytes
  bundleTo : String
  sealedSnapshot : Bytes
  snapshotTo : Option String
  deriving DecidableEq, Repr

/-- `Manager.EnrollmentBundle`. -/
def HandOver.enrollmentBundle (h : HandOver) (recipientID : ID) (recipient : String)
    (transcriptDigest : Bytes) (snapshotDigest : Option Bytes) (snapshotLength : ℕ) :
    Except Error SignedBundle := do
  let checkpoint : Checkpoint :=
    { domain := checkpointDomain, formatVersion := 1, vaultID := h.vaultID,
      keyEpoch := h.checkpointEpoch, seq := h.seq, membershipDigest := h.chain.head,
      heads := h.heads, createdAt := C.stamp h.now }
  let b : Bundle :=
    { domain := bundleDomain, formatVersion := 1, suite := suiteID, vaultID := h.vaultID,
      genesisDigest := h.genesis.digest C, purpose := .enrollment,
      recipientDeviceID := some recipientID, recipient := recipient, keyEpoch := h.keyEpoch,
      metadataKey := h.metadataKey, secretKey := h.secretKey,
      transcriptDigest := some transcriptDigest, checkpoint := checkpoint,
      snapshotDigest := snapshotDigest, snapshotLength := snapshotDigest.map fun _ => snapshotLength,
      rotationID := none, epochHistory := [], createdAt := C.stamp h.now }
  b.validate C suiteID
  let signature := C.sign h.signer.key h.entropy bundleSignatureDomain (C.canonical (.bundle b))
  return { bundle := b, signature := signature }

/-- `handlePairDeliver` after `AwaitJoiner` returned true, up to and including
    the checks of `Deliver`. -/
def Approver.handOver (a : Approver) (h : HandOver) : Except Error Delivered := do
  let digest := a.transcript.digest C
  let keys ← a.joinerKeys
  let ev ← h.chain.enroll C h.signer keys digest h.now h.eventID h.entropy
  let body ← buildSnapshot C h.records
  let recipient ← a.joinerRecipient C
  let sealedSnapshot := if body = [] then [] else C.sealTo body recipient h.entropy
  let snapshotDigest := if body = [] then none else some (C.sha256 body)
  let bundle ← h.enrollmentBundle C keys.id recipient digest snapshotDigest body.length
  let sealedBundle ← sealSignedBundle C bundle recipient h.entropy
  .require (a.session.joinerConfirmation.isSome = true)
    (.new "the joining device has not confirmed the fingerprint")
  return { event := ev, bundle := bundle, sealedBundle := sealedBundle, bundleTo := recipient,
           sealedSnapshot := sealedSnapshot,
           snapshotTo := if body = [] then none else some recipient }

/-! ## The joiner -/

/-- `enroll.Joiner`. -/
structure Joiner where
  id : Identity
  vaultID : ID
  sessionID : ID
  offer : SignedPairingOffer
  transcript : Option PairingTranscript
  deriving DecidableEq, Repr

/-- `enroll.Delivery`. -/
structure Delivery where
  genesis : Genesis
  bundle : Bundle
  snapshot : List Envelope
  event : SignedMembershipEvent
  membership : List SignedMembershipEvent
  deriving DecidableEq, Repr

/-- `ErrNotDelivered`. -/
def errNotDelivered : Error := .new "the approving device has not delivered the keys yet"

/-- `contains`. -/
def containsEvent (events : List SignedMembershipEvent) (ev : SignedMembershipEvent) :
    Except Error Bool := do
  let want ← ev.digest C
  let digests ← events.mapM (·.digest C)
  return digests.contains want

namespace Joiner

/-- `Joiner.Transcript`: build the transcript from the own offer and the
    approval the relay serves, check the approver's confirmation under the key
    of that approval, and keep the transcript. -/
def readTranscript (j : Joiner) (now : ℤ) (response : Except Error PairingResponse) :
    Except Error (PairingTranscript × Joiner) := do
  let session ← response
  usable session
  match session.approver with
  | none => .error (.new "the approving device has not confirmed yet")
  | some approval => do
    let tr ← buildTranscript C j.sessionID j.offer.offer approval suiteID
    .require (tr.expired C now = false)
      (.protocol .pairingExpired "this pairing session has expired" [])
    match session.approverConfirmation with
    | none => .error (.new "the approving device has not confirmed yet")
    | some conf => do
      verifyConfirmation C conf tr (tr.digest C) (mustVerifyKey C approval.approverVerifyKey)
      return (tr, { j with transcript := some tr })

/-- The snapshot a bundle binds, from the session or fetched separately. -/
def readSnapshot (j : Joiner) (session : PairingResponse) (bundle : Bundle)
    (fetched : Except Error Bytes) : Except Error (List Envelope) :=
  match bundle.snapshotDigest with
  | none => .ok []
  | some digest => do
    let sealedSnapshot ← (if session.snapshot = [] then
        fetched.mapError (.wrap "fetch the snapshot the bundle binds: %w" [])
      else .ok session.snapshot)
    openSnapshot C sealedSnapshot j.id.encryption digest (bundle.snapshotLength.getD 0)

/-- `Joiner.Receive`: the session, the membership list and the snapshot are what
    the relay answers. -/
def receive (j : Joiner) (response : Except Error PairingResponse)
    (membership : Except Error (List SignedMembershipEvent)) (fetched : Except Error Bytes) :
    Except Error Delivery :=
  match j.transcript with
  | none => .error (.new "nothing has been compared yet")
  | some tr => do
    let session ← response
    usable session
    match session.membershipEvent, session.genesis with
    | none, _ => .error errNotDelivered
    | some ev, genesis? => do
      .require (session.bundle ≠ []) errNotDelivered
      match genesis? with
      | none => .error (.new "the delivery carries no genesis document")
      | some genesis => do
        (genesis.validate C suiteID).mapError (.wrap "delivered genesis: %w" [])
        .require (genesis.vaultID = j.vaultID) (.new "the delivery is for a different vault")
        let digest := tr.digest C
        let events ← membership.mapError fun err =>
          if err.codeOf = .deviceUnknown then errNotDelivered else err
        let chain ← (Membership.validate C genesis events).mapError (.wrap "membership chain: %w" [])
        .require (ev.event.deviceID = j.id.deviceID) (.new "the enrolment is for a different device")
        .require (ev.event.transcriptDigest.getD [] = digest)
          (.new "the enrolment names a transcript this device did not confirm")
        let published ← containsEvent C events ev
        let extended ← (if published then .ok chain else
          (chain.append C ev).mapError (.wrap "the enrolment does not extend the chain: %w" []))
        .require (extended.authorized j.id.deviceID = true)
          (.new "the chain does not authorize this device")
        match extended.device ev.event.authorizedBy with
        | none => .error (.new "the enrolment names an approver the chain does not know")
        | some approver => do
          let bundle ← openBundle C session.bundle j.id.encryption approver.verifyKey
          .require (bundle.transcriptDigest.getD [] = digest)
            (.new "the bundle names a transcript this device did not confirm")
          .require (bundle.recipientDeviceID = some j.id.deviceID)
            (.new "the bundle is addressed to a different device")
          .require (bundle.genesisDigest = genesis.digest C)
            (.new "the bundle pins a different vault")
          let snapshot ← j.readSnapshot C session bundle fetched
          return { genesis := genesis, bundle := bundle, snapshot := snapshot, event := ev,
                   membership := extended.events }

end Joiner

end Sshstate.Enroll
