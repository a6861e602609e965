/-
  Pairing sessions at the relay (`internal/relay/pairing.go`).

  A row of `pairing` holds the session as a text and, in columns of their own, its
  state, the joiner's device, the sealed objects and the second of its expiry.  The
  sealed objects are not part of the text and the expiry is read from its column.  An
  expired session is never stored as such: `pairing` computes that state on reading,
  and `advance` refuses to write what it has read in that state.

  Times are in nanoseconds, the expiry in seconds.  The id of a new session is an
  argument, and the stored text of a session is the session it decodes to.
-/
import Sshstate.Protocol.Pairing
import Sshstate.Relay.Store

namespace Sshstate.Relay

variable (C : Suite)

/-! ## Sessions -/

inductive PairingState where
  | offered | confirming | confirmed | completed | expired
  deriving DecidableEq, Repr

/-- `PairingSession`; a blob is `none` where the source has `nil`. -/
structure PairingSession where
  sessionID : ID
  vaultID : ID
  state : PairingState
  offer : SignedPairingOffer
  approver : Option PairingApproval
  approverConfirmation : Option SignedPairingConfirmation
  joinerConfirmation : Option SignedPairingConfirmation
  membershipEvent : Option SignedMembershipEvent
  genesis : Option Genesis
  expiresAt : ℤ
  bundle : Option Bytes
  snapshot : Option Bytes
  deriving DecidableEq, Repr

namespace PairingSession

/-- `PairingSession.JoinerDeviceID`. -/
def joinerDeviceID (p : PairingSession) : ID := p.offer.offer.joinerDeviceID

/-- `PairingSession.TranscriptDigest`. -/
def transcriptDigest (p : PairingSession) : Option Bytes :=
  p.approverConfirmation.map (·.confirmation.transcriptDigest)

end PairingSession

/-- A row of `pairing`. -/
structure PairingRow where
  vaultID : ID
  joinerDeviceID : ID
  state : PairingState
  session : PairingSession
  bundle : Option Bytes
  snapshot : Option Bytes
  expiresAt : ℤ
  deriving DecidableEq, Repr

/-- The session in a row: what is not in the text comes from the columns. -/
def PairingRow.stored (row : PairingRow) : PairingSession :=
  { row.session with bundle := row.bundle, snapshot := row.snapshot, expiresAt := row.expiresAt }

/-- The relay's database with its table `pairing`. -/
structure PairingStore where
  relay : Store
  pairings : AList fun _ : ID => PairingRow

/-- Nanoseconds in a second. -/
def second : ℤ := 10 ^ 9

/-- `writable`. -/
def writable (p : PairingSession) : Except Error Unit :=
  match p.state with
  | .completed => .error (.protocol .pairingConsumed "this pairing session already completed" [])
  | .expired => .error (.protocol .pairingExpired "this pairing session has expired" [])
  | _ => .ok ()

/-- `authorized`, with the device it finds. -/
def authorized (chain : Membership.Chain) (id : ID) : Except Error Membership.Device :=
  match chain.device id with
  | none => .error (.protocol .deviceUnknown "device %s is not in the membership chain" [ID.text id])
  | some d => do
    .require (d.revoked = false) (.protocol .deviceRevoked "device %s was revoked" [ID.text id])
    return d

/-- The key that `verifyConfirmation` looks up: the offered one for the joiner, and that
    of an authorized device otherwise. -/
def confirmationKey (chain : Membership.Chain) (p : PairingSession) (id : ID) : Except Error Bytes :=
  if id = p.joinerDeviceID then C.verifyKeyFromBytes p.offer.offer.joinerVerifyKey
  else do
    let d ← authorized chain id
    return d.verifyKey

/-- `verifyConfirmation`. -/
def verifyConfirmation (chain : Membership.Chain) (p : PairingSession)
    (conf : SignedPairingConfirmation) : Except Error Unit := do
  (conf.confirmation.validate C).mapError fun err => .protocol .invalidRequest "%v" [err.text]
  .require (conf.confirmation.sessionID = p.sessionID ∧ conf.confirmation.vaultID = p.vaultID)
    (.protocol .idMismatch "the confirmation names another session" [])
  let key ← confirmationKey C chain p conf.confirmation.deviceID
  .require (C.verify key pairingConfirmDomain (C.canonical (.pairingConfirmation conf.confirmation))
      conf.signature = true)
    (.protocol .signatureInvalid "the confirmation signature does not verify" [])

/-! ## What the calls do to a session -/

namespace PairingSession

/-- The step of `ConfirmApprover`. -/
def confirmApprover (approval : PairingApproval) (conf : SignedPairingConfirmation)
    (p : PairingSession) (chain : Membership.Chain) : Except Error PairingSession := do
  .require (p.state = .offered)
    (.protocol .pairingIncomplete "this session already has an approver" [])
  (approval.validate C).mapError fun err => .protocol .invalidRequest "%v" [err.text]
  .require (approval.approverDeviceID = conf.confirmation.deviceID)
    (.protocol .invalidRequest "the confirmation names a different device" [])
  let _ ← authorized chain approval.approverDeviceID
  verifyConfirmation C chain p conf
  return { p with approver := some approval, approverConfirmation := some conf,
                  state := .confirming }

/-- The step of `ConfirmJoiner`. -/
def confirmJoiner (conf : SignedPairingConfirmation) (p : PairingSession)
    (chain : Membership.Chain) : Except Error PairingSession := do
  .require (p.state = .confirming)
    (.protocol .pairingIncomplete "the approver has not confirmed this session yet" [])
  .require (conf.confirmation.deviceID = p.joinerDeviceID)
    (.protocol .notAuthorized "this confirmation is not the joiner's" [])
  verifyConfirmation C chain p conf
  .require (bytesEqual (some conf.confirmation.transcriptDigest) p.transcriptDigest = true)
    (.protocol .invalidRequest "the two devices confirmed different transcripts" [])
  return { p with joinerConfirmation := some conf, state := .confirmed }

/-- The step of `Complete`. -/
def complete (ev : SignedMembershipEvent) (bundle snapshot : Bytes) (genesis : Option Genesis)
    (p : PairingSession) (_ : Membership.Chain) : Except Error PairingSession := do
  .require (p.state = .confirmed)
    (.protocol .pairingIncomplete "both devices must confirm before keys are delivered" [])
  .require (p.bundle = none)
    (.protocol .pairingConsumed "this session already carries a bundle" [])
  .require (bundle ≠ []) (.protocol .invalidRequest "no bundle" [])
  .require (ev.event.deviceID = p.joinerDeviceID)
    (.protocol .idMismatch "the membership event enrols a different device" [])
  .require (bytesEqual ev.event.transcriptDigest p.transcriptDigest = true)
    (.protocol .invalidRequest "the membership event names a different transcript" [])
  return { p with membershipEvent := some ev, bundle := some bundle,
                  snapshot := if snapshot ≠ [] then some snapshot else p.snapshot,
                  genesis := genesis }

/-- The step of `PutPairingSnapshot`. -/
def putSnapshot (snapshot : Bytes) (p : PairingSession) (_ : Membership.Chain) :
    Except Error PairingSession := do
  .require (p.state = .confirmed)
    (.protocol .pairingIncomplete "both devices must confirm before a snapshot is delivered" [])
  .require (p.bundle = none)
    (.protocol .pairingConsumed "this session already carries a bundle" [])
  .require (snapshot ≠ []) (.protocol .invalidRequest "the snapshot is empty" [])
  return { p with snapshot := some snapshot }

/-- The step of `Acknowledge`. -/
def acknowledge (p : PairingSession) (_ : Membership.Chain) : Except Error PairingSession := do
  .require (p.state = .confirmed ∧ p.bundle ≠ none)
    (.protocol .pairingIncomplete "there is nothing to acknowledge yet" [])
  return { p with state := .completed }

end PairingSession

/-! ## The table -/

/-- `Store.VaultID`. -/
def Store.vaultID (st : Store) : Except Error ID :=
  match st.vault with
  | some v => .ok v.genesis.vaultID
  | none => .error (.protocol .notFound "this relay holds no vault" [])

/-- `nullableBlob`. -/
def nullableBlob (b : Option Bytes) : Option Bytes := b.filter (· ≠ [])

namespace PairingStore

/-- `insertPairing`: an existing row keeps vault, joiner and expiry. -/
def insertPairing (s : PairingStore) (p : PairingSession) : PairingStore :=
  let row : PairingRow := match s.pairings.lookup p.sessionID with
    | none => { vaultID := p.vaultID, joinerDeviceID := p.joinerDeviceID, state := p.state,
                session := p, bundle := nullableBlob p.bundle, snapshot := nullableBlob p.snapshot,
                expiresAt := p.expiresAt }
    | some row => { row with state := p.state, session := p, bundle := nullableBlob p.bundle,
                             snapshot := nullableBlob p.snapshot }
  { s with pairings := s.pairings.insert p.sessionID row }

/-- `pairingTx`, and `Store.Pairing`. -/
def pairing (s : PairingStore) (now : ℤ) (sessionID : ID) : Except Error PairingSession :=
  match s.pairings.lookup sessionID with
  | none => .error (.protocol .notFound "no such pairing session" [])
  | some row =>
    let p := row.stored
    if p.state ≠ .completed ∧ ¬ now < p.expiresAt * second then .ok { p with state := .expired }
    else .ok p

/-- `Store.CreatePairing`; `sessionID` is the id it draws. -/
def createPairing (s : PairingStore) (now : ℤ) (vaultID : ID) (offer : SignedPairingOffer)
    (sessionID : ID) : Except Error (PairingSession × PairingStore) := do
  (offer.offer.validate C suiteID).mapError fun err => .protocol .invalidRequest "%v" [err.text]
  .require (offer.offer.vaultID = vaultID)
    (.protocol .idMismatch "the offer names another vault" [])
  let key ← (C.verifyKeyFromBytes offer.offer.joinerVerifyKey).mapError
    fun err => .protocol .invalidRequest "joiner_verify_key: %v" [err.text]
  .require (C.verify key pairingOfferDomain (C.canonical (.pairingOffer offer.offer))
      offer.signature = true)
    (.protocol .signatureInvalid "the offer is not signed by the key it offers" [])
  let chain ← s.relay.chain C vaultID
  .require (chain.device offer.offer.joinerDeviceID = none)
    (.protocol .invalidRequest "device %s has already appeared in the membership chain"
      [ID.text offer.offer.joinerDeviceID])
  let session : PairingSession :=
    { sessionID := sessionID, vaultID := vaultID, state := .offered, offer := offer, approver := none,
      approverConfirmation := none, joinerConfirmation := none, membershipEvent := none,
      genesis := none, expiresAt := (now + pairingLifetime) / second, bundle := none,
      snapshot := none }
  let active := s.pairings.entries.countP fun e =>
    e.2.vaultID = vaultID ∧ e.2.joinerDeviceID = offer.offer.joinerDeviceID ∧
      e.2.state ≠ .completed ∧ e.2.expiresAt > now / second
  .require (active = 0)
    (.protocol .rateLimited "device %s already has an active pairing attempt"
      [ID.text offer.offer.joinerDeviceID])
  return (session, s.insertPairing session)

/-- `Store.advance`. -/
def advance (s : PairingStore) (now : ℤ) (sessionID : ID)
    (step : PairingSession → Membership.Chain → Except Error PairingSession) :
    Except Error (PairingSession × PairingStore) := do
  let vaultID ← s.relay.vaultID
  let chain ← s.relay.chain C vaultID
  let p ← s.pairing now sessionID
  .require (p.vaultID = vaultID) (.protocol .notFound "no such pairing session" [])
  writable p
  let p ← step p chain
  return (p, s.insertPairing p)

/-! ## Calls -/

end PairingStore

/-- A call that reads or writes the table, or that the chain grows by. -/
inductive PairingCall where
  | createPairing (vaultID : ID) (offer : SignedPairingOffer) (sessionID : ID)
  | confirmApprover (sessionID : ID) (approval : PairingApproval) (conf : SignedPairingConfirmation)
  | confirmJoiner (sessionID : ID) (conf : SignedPairingConfirmation)
  | complete (sessionID : ID) (ev : SignedMembershipEvent) (bundle snapshot : Bytes)
      (genesis : Option Genesis)
  | putPairingSnapshot (sessionID : ID) (snapshot : Bytes)
  | acknowledge (sessionID : ID)
  | pairing (sessionID : ID)
  | appendMembership (vaultID : ID) (ev : SignedMembershipEvent)

namespace PairingStore

/-- The store after a transaction, which is rolled back if it fails. -/
def settle (s : PairingStore) : Except Error (PairingSession × PairingStore) → PairingStore
  | .ok (_, s') => s'
  | .error _ => s

/-- The store after a call. -/
def call (s : PairingStore) (now : ℤ) : PairingCall → PairingStore
  | .createPairing vaultID offer sessionID => s.settle (s.createPairing C now vaultID offer sessionID)
  | .confirmApprover id approval conf =>
    s.settle (s.advance C now id (PairingSession.confirmApprover C approval conf))
  | .confirmJoiner id conf => s.settle (s.advance C now id (PairingSession.confirmJoiner C conf))
  | .complete id ev bundle snapshot genesis =>
    s.settle (s.advance C now id (PairingSession.complete ev bundle snapshot genesis))
  | .putPairingSnapshot id snapshot =>
    s.settle (s.advance C now id (PairingSession.putSnapshot snapshot))
  | .acknowledge id => s.settle (s.advance C now id PairingSession.acknowledge)
  | .pairing _ => s
  | .appendMembership vaultID ev =>
    match s.relay.appendMembership C vaultID ev with
    | .ok (_, relay) => { s with relay := relay }
    | .error _ => s

end PairingStore

/-- The relay and the time of its last call. -/
structure PairingDesk where
  store : PairingStore
  clock : ℤ

/-- A call at a time that is not before the last one. -/
def PairingDesk.step (D : PairingDesk) (l : ℤ × PairingCall) : Option PairingDesk :=
  if D.clock ≤ l.1 then some { store := D.store.call C l.1 l.2, clock := l.1 } else none

end Sshstate.Relay
