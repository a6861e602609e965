/-
  What a pairing session at the relay goes through.

  `Moves` are the five ways in which a call changes a session it may still write; every
  other session stays as it is (`advance_eq_ok`, `insertPairing_lookup`).  `Sound` is
  what a session holds in each of its states.  Over every run of calls at times that do
  not decrease, sessions stay sound, at most one per joiner is open, and what a session
  holds is not taken back (`pairing_sessions`).

  `Complete` does not look at the action of the event it is given: the event names the
  offering device, but it may revoke it (`revocation_delivered`).
-/
import Sshstate.Proof.Appends
import Sshstate.Proof.Server
import Sshstate.Relay.Pairing

namespace Sshstate.Relay

variable {C : Suite}

/-! ## Confirmations -/

/-- The key that a confirmation of the device `id` has to be signed with: the offered one
    for the joiner, and that of a device of the chain otherwise. -/
def KeyOf (chain : Membership.Chain) (p : PairingSession) (id : ID) (key : Bytes) : Prop :=
  (id = p.joinerDeviceID ∧ key = p.offer.offer.joinerVerifyKey) ∨
  (id ≠ p.joinerDeviceID ∧ ∃ d, chain.device id = some d ∧ d.verifyKey = key)

variable (C) in
/-- A valid confirmation of this session, with a signature of its device. -/
structure Confirms (chain : Membership.Chain) (p : PairingSession) (conf : SignedPairingConfirmation) :
    Prop where
  digest : conf.confirmation.transcriptDigest.length = sha256Size
  session : conf.confirmation.sessionID = p.sessionID
  vault : conf.confirmation.vaultID = p.vaultID
  signed : ∃ key, KeyOf chain p conf.confirmation.deviceID key ∧
    C.verify key pairingConfirmDomain (C.canonical (.pairingConfirmation conf.confirmation))
      conf.signature = true

theorem authorized_eq_ok {chain : Membership.Chain} {id : ID} {d : Membership.Device}
    (h : authorized chain id = .ok d) : chain.device id = some d ∧ d.revoked = false := by
  unfold authorized at h
  split at h
  · cases h
  next d' hd =>
    simp only [Except.require_bind_eq_ok, Except.pure_eq_ok, Except.ok.injEq] at h
    obtain ⟨hrev, rfl⟩ := h
    exact ⟨hd, hrev⟩

theorem confirmationKey_eq_ok {chain : Membership.Chain} {p : PairingSession} {id : ID} {key : Bytes}
    (h : confirmationKey C chain p id = .ok key) : KeyOf chain p id key := by
  unfold confirmationKey at h
  split_ifs at h with hid
  · exact Or.inl ⟨hid, (C.verifyKeyFromBytes_eq_ok.1 h).2⟩
  · obtain ⟨d, hd, hkey⟩ := Except.bind_eq_ok.1 h
    cases hkey
    exact Or.inr ⟨hid, d, (authorized_eq_ok hd).1, rfl⟩

theorem verifyConfirmation_eq_ok {chain : Membership.Chain} {p : PairingSession}
    {conf : SignedPairingConfirmation} {u : Unit} (h : verifyConfirmation C chain p conf = .ok u) :
    Confirms C chain p conf := by
  simp only [verifyConfirmation, Except.bind_eq_ok, Except.mapError_eq_ok,
    Except.require_eq_ok] at h
  obtain ⟨_, hvalid, _, ⟨hs, hv⟩, key, hkey, hsig⟩ := h
  simp only [PairingConfirmation.validate, Except.bind_eq_ok, Except.require_eq_ok] at hvalid
  obtain ⟨-, -, -, -, -, -, -, -, -, -, -, hlen, -⟩ := hvalid
  exact ⟨hlen, hs, hv, key, confirmationKey_eq_ok hkey, hsig⟩

/-- A longer chain has the keys of a shorter one. -/
theorem Confirms.grow {chain chain' : Membership.Chain} {p : PairingSession}
    {conf : SignedPairingConfirmation} (h : Confirms C chain p conf)
    (hk : ∀ id d, chain.device id = some d → ∃ d', chain'.device id = some d' ∧ d.Keeps d') :
    Confirms C chain' p conf := by
  obtain ⟨key, hkey | ⟨hne, d, hd, rfl⟩, hsig⟩ := h.signed
  · exact { h with signed := ⟨key, Or.inl hkey, hsig⟩ }
  · obtain ⟨d', hd', hkeeps⟩ := hk _ d hd
    exact { h with signed := ⟨_, Or.inr ⟨hne, d', hd', hkeeps.verifyKey⟩, hsig⟩ }

/-! ## One step of a session -/

variable (C) in
/-- The steps of `ConfirmApprover`, `ConfirmJoiner`, `Complete`, `PutPairingSnapshot` and
    `Acknowledge`; `P` is what is known of the events that `Complete` is called with. -/
inductive Moves (P : SignedMembershipEvent → Prop) (chain : Membership.Chain) (p : PairingSession) :
    PairingSession → Prop
  | approver {approval : PairingApproval} {conf : SignedPairingConfirmation}
      (state : p.state = .offered) (device : approval.approverDeviceID = conf.confirmation.deviceID)
      (member : (chain.device approval.approverDeviceID).isSome = true)
      (confirms : Confirms C chain p conf) :
      Moves P chain p { p with approver := some approval, approverConfirmation := some conf,
                               state := .confirming }
  | joiner {conf : SignedPairingConfirmation} (state : p.state = .confirming)
      (device : conf.confirmation.deviceID = p.joinerDeviceID) (confirms : Confirms C chain p conf)
      (digest : p.transcriptDigest.getD [] = conf.confirmation.transcriptDigest) :
      Moves P chain p { p with joinerConfirmation := some conf, state := .confirmed }
  | bundle {ev : SignedMembershipEvent} {bundle : Bytes} {snapshot : Option Bytes}
      {genesis : Option Genesis} (state : p.state = .confirmed) (first : p.bundle = none)
      (nonempty : bundle ≠ []) (device : ev.event.deviceID = p.joinerDeviceID)
      (digest : ev.event.transcriptDigest.getD [] = p.transcriptDigest.getD []) (given : P ev)
      (blob : snapshot = p.snapshot ∨ ∃ b, b ≠ [] ∧ snapshot = some b) :
      Moves P chain p { p with membershipEvent := some ev, bundle := some bundle,
                               snapshot := snapshot, genesis := genesis }
  | snapshot {snapshot : Bytes} (state : p.state = .confirmed) (first : p.bundle = none)
      (nonempty : snapshot ≠ []) : Moves P chain p { p with snapshot := some snapshot }
  | acknowledged (state : p.state = .confirmed) (held : p.bundle ≠ none) :
      Moves P chain p { p with state := .completed }

section
variable {P : SignedMembershipEvent → Prop} {chain : Membership.Chain} {p p' : PairingSession}

theorem confirmApprover_moves {approval : PairingApproval} {conf : SignedPairingConfirmation}
    (h : p.confirmApprover C approval conf chain = .ok p') : Moves C P chain p p' := by
  simp only [PairingSession.confirmApprover, Except.bind_eq_ok, Except.require_eq_ok,
    Except.pure_eq_ok, Except.ok.injEq] at h
  obtain ⟨_, hstate, _, -, _, hdev, d, hauth, _, hconf, rfl⟩ := h
  exact .approver hstate hdev (by rw [(authorized_eq_ok hauth).1]; rfl) (verifyConfirmation_eq_ok hconf)

theorem bytesEqual_eq_true {a b : Option Bytes} : bytesEqual a b = true ↔ a.getD [] = b.getD [] := by
  simp [bytesEqual]

theorem confirmJoiner_moves {conf : SignedPairingConfirmation}
    (h : p.confirmJoiner C conf chain = .ok p') : Moves C P chain p p' := by
  simp only [PairingSession.confirmJoiner, Except.bind_eq_ok, Except.require_eq_ok,
    Except.pure_eq_ok, Except.ok.injEq, bytesEqual_eq_true] at h
  obtain ⟨_, hstate, _, hdev, _, hconf, _, hdigest, rfl⟩ := h
  exact .joiner hstate hdev (verifyConfirmation_eq_ok hconf) hdigest.symm

theorem complete_moves {ev : SignedMembershipEvent} {bundle snapshot : Bytes}
    {genesis : Option Genesis} (hP : P ev)
    (h : p.complete ev bundle snapshot genesis chain = .ok p') : Moves C P chain p p' := by
  simp only [PairingSession.complete, Except.bind_eq_ok, Except.require_eq_ok,
    Except.pure_eq_ok, Except.ok.injEq, bytesEqual_eq_true] at h
  obtain ⟨_, hstate, _, hfirst, _, hne, _, hdev, _, hdigest, rfl⟩ := h
  refine .bundle hstate hfirst hne hdev hdigest hP ?_
  split_ifs with hs
  · exact Or.inr ⟨snapshot, hs, rfl⟩
  · exact Or.inl rfl

theorem putSnapshot_moves {snapshot : Bytes} (h : p.putSnapshot snapshot chain = .ok p') :
    Moves C P chain p p' := by
  simp only [PairingSession.putSnapshot, Except.bind_eq_ok, Except.require_eq_ok,
    Except.pure_eq_ok, Except.ok.injEq] at h
  obtain ⟨_, hstate, _, hfirst, _, hne, rfl⟩ := h
  exact .snapshot hstate hfirst hne

theorem acknowledge_moves (h : p.acknowledge chain = .ok p') : Moves C P chain p p' := by
  simp only [PairingSession.acknowledge, Except.bind_eq_ok, Except.require_eq_ok,
    Except.pure_eq_ok, Except.ok.injEq] at h
  obtain ⟨_, ⟨hstate, hheld⟩, rfl⟩ := h
  exact .acknowledged hstate hheld

end

/-! ## What a session holds -/

variable (C) in
/-- Both confirmations, of one transcript: the approver's and the joiner's. -/
structure Confirmed (chain : Membership.Chain) (p : PairingSession) (a : PairingApproval)
    (ca cj : SignedPairingConfirmation) : Prop where
  approver : p.approver = some a
  approverConfirmation : p.approverConfirmation = some ca
  joinerConfirmation : p.joinerConfirmation = some cj
  approves : a.approverDeviceID = ca.confirmation.deviceID
  member : (chain.device a.approverDeviceID).isSome = true
  joins : cj.confirmation.deviceID = p.joinerDeviceID
  approverSigned : Confirms C chain p ca
  joinerSigned : Confirms C chain p cj
  digest : ca.confirmation.transcriptDigest = cj.confirmation.transcriptDigest

variable (C) in
/-- What a session holds in its state. -/
structure Sound (P : SignedMembershipEvent → Prop) (chain : Membership.Chain) (p : PairingSession) :
    Prop where
  offered : p.state = .offered → p.approver = none ∧ p.approverConfirmation = none
  confirming : p.state = .confirming → ∃ a ca, p.approver = some a ∧
    p.approverConfirmation = some ca ∧ a.approverDeviceID = ca.confirmation.deviceID ∧
    (chain.device a.approverDeviceID).isSome = true ∧ Confirms C chain p ca
  pending : p.state = .offered ∨ p.state = .confirming →
    p.joinerConfirmation = none ∧ p.bundle = none ∧ p.snapshot = none
  confirmed : p.state = .confirmed ∨ p.state = .completed → ∃ a ca cj, Confirmed C chain p a ca cj
  event : ∀ ev ∈ p.membershipEvent, p.bundle ≠ none ∧ ev.event.deviceID = p.joinerDeviceID ∧
    ev.event.transcriptDigest = p.transcriptDigest ∧ P ev
  completed : p.state = .completed → p.bundle ≠ none
  blobs : (∀ b ∈ p.bundle, b ≠ []) ∧ ∀ b ∈ p.snapshot, b ≠ []
  stored : p.state ≠ .expired

/-- The order of the states. -/
def PairingState.next : PairingState → Option PairingState
  | .offered => some .confirming
  | .confirming => some .confirmed
  | .confirmed => some .completed
  | .completed | .expired => none

/-- A later version of a session: what was set is still set to the same, and so are the
    offer and the expiry. -/
structure Onward (p p' : PairingSession) : Prop where
  sessionID : p'.sessionID = p.sessionID
  vaultID : p'.vaultID = p.vaultID
  offer : p'.offer = p.offer
  expiresAt : p'.expiresAt = p.expiresAt
  state : Relation.ReflTransGen (fun s s' => s.next = some s') p.state p'.state
  approver : ∀ a ∈ p.approver, a ∈ p'.approver
  approverConfirmation : ∀ c ∈ p.approverConfirmation, c ∈ p'.approverConfirmation
  joinerConfirmation : ∀ c ∈ p.joinerConfirmation, c ∈ p'.joinerConfirmation
  membershipEvent : ∀ ev ∈ p.membershipEvent, ev ∈ p'.membershipEvent
  bundle : ∀ b ∈ p.bundle, b ∈ p'.bundle

section
variable {P : SignedMembershipEvent → Prop} {chain chain' : Membership.Chain}
variable {p p' p'' : PairingSession}

theorem Onward.refl (p : PairingSession) : Onward p p :=
  ⟨rfl, rfl, rfl, rfl, .refl, fun _ h => h, fun _ h => h, fun _ h => h, fun _ h => h, fun _ h => h⟩

theorem Onward.trans (h : Onward p p') (h' : Onward p' p'') : Onward p p'' where
  sessionID := h'.sessionID.trans h.sessionID
  vaultID := h'.vaultID.trans h.vaultID
  offer := h'.offer.trans h.offer
  expiresAt := h'.expiresAt.trans h.expiresAt
  state := h.state.trans h'.state
  approver := fun a ha => h'.approver a (h.approver a ha)
  approverConfirmation := fun c hc => h'.approverConfirmation c (h.approverConfirmation c hc)
  joinerConfirmation := fun c hc => h'.joinerConfirmation c (h.joinerConfirmation c hc)
  membershipEvent := fun ev hev => h'.membershipEvent ev (h.membershipEvent ev hev)
  bundle := fun b hb => h'.bundle b (h.bundle b hb)

theorem Sound.grow (h : Sound C P chain p)
    (hk : ∀ id d, chain.device id = some d → ∃ d', chain'.device id = some d' ∧ d.Keeps d') :
    Sound C P chain' p := by
  have hmember : ∀ {id}, (chain.device id).isSome = true → (chain'.device id).isSome = true := by
    intro id hid
    obtain ⟨d, hd⟩ := Option.isSome_iff_exists.1 hid
    obtain ⟨d', hd', -⟩ := hk id d hd
    rw [hd']; rfl
  refine { h with confirming := fun hs => ?_, confirmed := fun hs => ?_ }
  · obtain ⟨a, ca, ha, hca, heq, hmem, hconf⟩ := h.confirming hs
    exact ⟨a, ca, ha, hca, heq, hmember hmem, hconf.grow hk⟩
  · obtain ⟨a, ca, cj, hc⟩ := h.confirmed hs
    exact ⟨a, ca, cj, { hc with
      member := hmember hc.member
      approverSigned := hc.approverSigned.grow hk
      joinerSigned := hc.joinerSigned.grow hk }⟩

/-- A confirmation is one of a session with the same id, vault and offer. -/
theorem Confirms.of_onward {conf : SignedPairingConfirmation} (h : Confirms C chain p conf)
    (hs : p'.sessionID = p.sessionID) (hv : p'.vaultID = p.vaultID) (ho : p'.offer = p.offer) :
    Confirms C chain p' conf := by
  refine ⟨h.digest, h.session.trans hs.symm, h.vault.trans hv.symm, ?_⟩
  have hkey : ∀ id key, KeyOf chain p id key → KeyOf chain p' id key := by
    unfold KeyOf PairingSession.joinerDeviceID
    rw [ho]
    exact fun _ _ h => h
  obtain ⟨key, hk, hsig⟩ := h.signed
  exact ⟨key, hkey _ key hk, hsig⟩

/-- The confirmations stay when only other fields change. -/
theorem Confirmed.keep {a : PairingApproval} {ca cj : SignedPairingConfirmation}
    (h : Confirmed C chain p a ca cj) (hs : p'.sessionID = p.sessionID) (hv : p'.vaultID = p.vaultID)
    (ho : p'.offer = p.offer) (ha : p'.approver = p.approver)
    (hca : p'.approverConfirmation = p.approverConfirmation)
    (hcj : p'.joinerConfirmation = p.joinerConfirmation) : Confirmed C chain p' a ca cj where
  approver := ha.trans h.approver
  approverConfirmation := hca.trans h.approverConfirmation
  joinerConfirmation := hcj.trans h.joinerConfirmation
  approves := h.approves
  member := h.member
  joins := h.joins.trans (by unfold PairingSession.joinerDeviceID; rw [ho])
  approverSigned := h.approverSigned.of_onward hs hv ho
  joinerSigned := h.joinerSigned.of_onward hs hv ho
  digest := h.digest

/-- A digest of its full length is not the default for a missing one. -/
theorem eq_some_of_getD {x : Option Bytes} {b : Bytes} (hb : b.length = sha256Size)
    (h : x.getD [] = b) : x = some b := by
  rcases x with _ | x
  · rw [← h] at hb; cases hb
  · exact congrArg some h

theorem Sound.no_event (h : Sound C P chain p) (hb : p.bundle = none) : p.membershipEvent = none := by
  rcases hev : p.membershipEvent with _ | ev
  · rfl
  · exact absurd hb (h.event ev hev).1

/-- Nothing is delivered before both devices have confirmed. -/
theorem Sound.delivered (h : Sound C P chain p)
    (hheld : p.bundle ≠ none ∨ p.membershipEvent ≠ none ∨ p.snapshot ≠ none) :
    ∃ a ca cj, Confirmed C chain p a ca cj := by
  have hlate : ¬ (p.state = .offered ∨ p.state = .confirming) := by
    intro hs
    obtain ⟨-, hb, hsnap⟩ := h.pending hs
    rcases hheld with hx | hx | hx
    · exact hx hb
    · exact hx (h.no_event hb)
    · exact hx hsnap
  refine h.confirmed ?_
  rcases hs : p.state with _ | _ | _ | _ | _
  · exact absurd (Or.inl hs) hlate
  · exact absurd (Or.inr hs) hlate
  · exact Or.inl rfl
  · exact Or.inr rfl
  · exact absurd hs h.stored

theorem Sound.approver (h : Sound C P chain p) {approval : PairingApproval}
    {conf : SignedPairingConfirmation} (state : p.state = .offered)
    (device : approval.approverDeviceID = conf.confirmation.deviceID)
    (member : (chain.device approval.approverDeviceID).isSome = true)
    (confirms : Confirms C chain p conf) :
    Sound C P chain { p with approver := some approval, approverConfirmation := some conf,
                             state := .confirming } where
  offered := fun hs => by cases hs
  confirming := fun _ => ⟨approval, conf, rfl, rfl, device, member, confirms.of_onward rfl rfl rfl⟩
  pending := fun _ => h.pending (Or.inl state)
  confirmed := fun hs => by rcases hs with hs | hs <;> cases hs
  event := fun ev hev => by
    rw [show ev ∈ p.membershipEvent ↔ _ from Iff.rfl, h.no_event (h.pending (Or.inl state)).2.1] at hev
    cases hev
  completed := fun hs => by cases hs
  blobs := h.blobs
  stored := fun hs => by cases hs

theorem Sound.joiner (h : Sound C P chain p) {conf : SignedPairingConfirmation}
    (state : p.state = .confirming) (device : conf.confirmation.deviceID = p.joinerDeviceID)
    (confirms : Confirms C chain p conf)
    (digest : p.transcriptDigest.getD [] = conf.confirmation.transcriptDigest) :
    Sound C P chain { p with joinerConfirmation := some conf, state := .confirmed } where
  offered := fun hs => by cases hs
  confirming := fun hs => by cases hs
  pending := fun hs => by rcases hs with hs | hs <;> cases hs
  confirmed := fun _ => by
    obtain ⟨a, ca, ha, hca, heq, hmem, hconf⟩ := h.confirming state
    rw [PairingSession.transcriptDigest, hca] at digest
    exact ⟨a, ca, conf, ha, hca, rfl, heq, hmem, device, hconf.of_onward rfl rfl rfl,
      confirms.of_onward rfl rfl rfl, digest⟩
  event := h.event
  completed := fun hs => by cases hs
  blobs := h.blobs
  stored := fun hs => by cases hs

theorem Sound.bundle (h : Sound C P chain p) {ev : SignedMembershipEvent} {bundle : Bytes}
    {snapshot : Option Bytes} {genesis : Option Genesis} (state : p.state = .confirmed)
    (nonempty : bundle ≠ []) (device : ev.event.deviceID = p.joinerDeviceID)
    (digest : ev.event.transcriptDigest.getD [] = p.transcriptDigest.getD []) (given : P ev)
    (blob : snapshot = p.snapshot ∨ ∃ b, b ≠ [] ∧ snapshot = some b) :
    Sound C P chain { p with membershipEvent := some ev, bundle := some bundle,
                             snapshot := snapshot, genesis := genesis } := by
  obtain ⟨a, ca, cj, hc⟩ := h.confirmed (Or.inl state)
  have htr : p.transcriptDigest = some ca.confirmation.transcriptDigest := by
    rw [PairingSession.transcriptDigest, hc.approverConfirmation]; rfl
  refine
    { offered := fun hs => absurd (hs.symm.trans state) (by decide)
      confirming := fun hs => absurd (hs.symm.trans state) (by decide)
      pending := fun hs => ?_
      confirmed := fun _ => ⟨a, ca, cj, hc.keep rfl rfl rfl rfl rfl rfl⟩
      event := fun ev' hev' => ?_
      completed := fun hs => absurd (hs.symm.trans state) (by decide)
      blobs := ⟨fun b hb => ?_, fun b hb => ?_⟩
      stored := h.stored }
  · rcases hs with hs | hs <;> exact absurd (hs.symm.trans state) (by decide)
  · cases hev'
    rw [htr] at digest
    exact ⟨Option.some_ne_none bundle, device,
      (eq_some_of_getD hc.approverSigned.digest digest).trans htr.symm, given⟩
  · cases hb; exact nonempty
  · rcases blob with rfl | ⟨b', hb', rfl⟩
    · exact h.blobs.2 b hb
    · cases hb; exact hb'

theorem Sound.snapshot (h : Sound C P chain p) {snapshot : Bytes} (state : p.state = .confirmed)
    (nonempty : snapshot ≠ []) : Sound C P chain { p with snapshot := some snapshot } := by
  obtain ⟨a, ca, cj, hc⟩ := h.confirmed (Or.inl state)
  refine { h with
    confirming := fun hs => absurd (hs.symm.trans state) (by decide)
    pending := fun hs => ?_
    confirmed := fun _ => ⟨a, ca, cj, hc.keep rfl rfl rfl rfl rfl rfl⟩
    blobs := ⟨h.blobs.1, fun b hb => ?_⟩ }
  · rcases hs with hs | hs <;> exact absurd (hs.symm.trans state) (by decide)
  · cases hb; exact nonempty

theorem Sound.acknowledged (h : Sound C P chain p) (state : p.state = .confirmed)
    (held : p.bundle ≠ none) : Sound C P chain { p with state := .completed } := by
  obtain ⟨a, ca, cj, hc⟩ := h.confirmed (Or.inl state)
  exact
    { offered := fun hs => by cases hs
      confirming := fun hs => by cases hs
      pending := fun hs => by rcases hs with hs | hs <;> cases hs
      confirmed := fun _ => ⟨a, ca, cj, hc.keep rfl rfl rfl rfl rfl rfl⟩
      event := h.event
      completed := fun _ => held
      blobs := h.blobs
      stored := fun hs => by cases hs }

/-- One step keeps a session sound. -/
theorem Sound.moves (h : Sound C P chain p) (hm : Moves C P chain p p') : Sound C P chain p' := by
  cases hm with
  | approver state device member confirms => exact h.approver state device member confirms
  | joiner state device confirms digest => exact h.joiner state device confirms digest
  | bundle state first nonempty device digest given blob =>
    exact h.bundle state nonempty device digest given blob
  | snapshot state first nonempty => exact h.snapshot state nonempty
  | acknowledged state held => exact h.acknowledged state held

/-- One step takes nothing back, and moves the state on by at most one. -/
theorem Sound.onward (h : Sound C P chain p) (hm : Moves C P chain p p') :
    Onward p p' ∧ (p'.state = p.state ∨ p.state.next = some p'.state) := by
  have unset : ∀ {α : Type} {x : Option α} {y : α → Prop}, x = none → ∀ z ∈ x, y z := by
    rintro α x y rfl z hz
    cases hz
  cases hm with
  | approver state device member confirms =>
    have hnext : p.state.next = some .confirming := by rw [state]; rfl
    exact ⟨{ Onward.refl p with
      state := .single hnext
      approver := unset (h.offered state).1
      approverConfirmation := unset (h.offered state).2 }, Or.inr hnext⟩
  | joiner state device confirms digest =>
    have hnext : p.state.next = some .confirmed := by rw [state]; rfl
    exact ⟨{ Onward.refl p with
      state := .single hnext
      joinerConfirmation := unset (h.pending (Or.inr state)).1 }, Or.inr hnext⟩
  | bundle state first nonempty device digest given blob =>
    exact ⟨{ Onward.refl p with
      membershipEvent := unset (h.no_event first)
      bundle := unset first }, Or.inl rfl⟩
  | snapshot state first nonempty => exact ⟨{ Onward.refl p with }, Or.inl rfl⟩
  | acknowledged state held =>
    have hnext : p.state.next = some .completed := by rw [state]; rfl
    exact ⟨{ Onward.refl p with state := .single hnext }, Or.inr hnext⟩

end

/-! ## The table -/

/-- The columns of a row agree with its text. -/
structure Filed (id : ID) (row : PairingRow) : Prop where
  key : row.session.sessionID = id
  vault : row.vaultID = row.session.vaultID
  joiner : row.joinerDeviceID = row.session.joinerDeviceID
  state : row.state = row.session.state

/-- Neither completed nor expired. -/
def Active (now : ℤ) (row : PairingRow) : Prop :=
  row.state ≠ .completed ∧ now < row.expiresAt * second

theorem active_iff (now : ℤ) (row : PairingRow) :
    Active now row ↔ row.state ≠ .completed ∧ row.expiresAt > now / second := by
  unfold Active
  rw [gt_iff_lt, Int.ediv_lt_iff_lt_mul (by decide)]

theorem nullableBlob_of {b : Option Bytes} (h : ∀ x ∈ b, x ≠ []) : nullableBlob b = b := by
  rcases b with _ | x
  · rfl
  · simp [nullableBlob, Option.filter, h x rfl]

namespace PairingStore

variable {s s' : PairingStore} {now : ℤ} {id : ID}

theorem advance_eq_ok {step : PairingSession → Membership.Chain → Except Error PairingSession}
    {p' : PairingSession} (h : s.advance C now id step = .ok (p', s')) :
    ∃ row chain, s.pairings.lookup id = some row ∧
      s.relay.chain C row.session.vaultID = .ok chain ∧ row.session.state ≠ .completed ∧
      now < row.expiresAt * second ∧ step row.stored chain = .ok p' ∧ s' = s.insertPairing p' := by
  simp only [advance, Except.bind_eq_ok, Except.require_eq_ok, Except.pure_eq_ok,
    Except.ok.injEq, Prod.mk.injEq] at h
  obtain ⟨v, -, chain, hchain, p, hp, _, hv, _, hw, q, hq, rfl, rfl⟩ := h
  simp only [pairing] at hp
  split at hp
  · cases hp
  next row hrow =>
    split_ifs at hp with hexp
    · cases hp; cases hw
    · cases hp
      have hne : row.session.state ≠ .completed := by
        intro hs
        simp only [writable, show row.stored.state = .completed from hs] at hw
        cases hw
      have hlt : now < row.expiresAt * second := not_not.1 fun hn => hexp ⟨hne, hn⟩
      exact ⟨row, chain, hrow, hv ▸ hchain, hne, hlt, hq, rfl⟩

/-- The row of a session that is written again. -/
theorem insertPairing_again {p : PairingSession} {row : PairingRow}
    (hrow : s.pairings.lookup p.sessionID = some row) (hexp : p.expiresAt = row.expiresAt)
    (hb : (∀ b ∈ p.bundle, b ≠ []) ∧ ∀ b ∈ p.snapshot, b ≠ []) :
    ∃ row', s.insertPairing p = { s with pairings := s.pairings.insert p.sessionID row' } ∧
      row'.session = p ∧ row'.stored = p ∧ row'.vaultID = row.vaultID ∧
      row'.joinerDeviceID = row.joinerDeviceID ∧ row'.state = p.state ∧
      row'.expiresAt = row.expiresAt := by
  refine ⟨_, rfl, ?_⟩
  simp only [hrow, PairingRow.stored, nullableBlob_of hb.1, nullableBlob_of hb.2, ← hexp, and_self]

/-- The row of a new session. -/
theorem insertPairing_new {p : PairingSession} (hrow : s.pairings.lookup p.sessionID = none)
    (hb : (∀ b ∈ p.bundle, b ≠ []) ∧ ∀ b ∈ p.snapshot, b ≠ []) :
    ∃ row', s.insertPairing p = { s with pairings := s.pairings.insert p.sessionID row' } ∧
      row'.session = p ∧ row'.stored = p ∧ row'.vaultID = p.vaultID ∧
      row'.joinerDeviceID = p.joinerDeviceID ∧ row'.state = p.state ∧
      row'.expiresAt = p.expiresAt := by
  refine ⟨_, rfl, ?_⟩
  simp only [hrow, PairingRow.stored, nullableBlob_of hb.1, nullableBlob_of hb.2, and_self]

/-- A new session is an open one of a device that has no other. -/
theorem createPairing_eq_ok {v : ID} {offer : SignedPairingOffer} {p : PairingSession}
    (h : s.createPairing C now v offer id = .ok (p, s')) :
    ∃ chain, s.relay.chain C v = .ok chain ∧ s' = s.insertPairing p ∧
      p = { sessionID := id, vaultID := v, state := .offered, offer := offer, approver := none,
            approverConfirmation := none, joinerConfirmation := none, membershipEvent := none,
            genesis := none, expiresAt := (now + pairingLifetime) / second, bundle := none,
            snapshot := none } ∧
      ∀ id' row, s.pairings.lookup id' = some row → row.vaultID = v →
        row.joinerDeviceID = offer.offer.joinerDeviceID → ¬ Active now row := by
  simp only [createPairing, Except.bind_eq_ok, Except.require_eq_ok, Except.mapError_eq_ok,
    Except.pure_eq_ok, Except.ok.injEq, Prod.mk.injEq] at h
  obtain ⟨_, -, _, -, _, -, _, -, chain, hchain, _, -, _, hactive, rfl, rfl⟩ := h
  refine ⟨chain, hchain, rfl, rfl, fun id' row hrow hv hj hact => ?_⟩
  rw [List.countP_eq_zero] at hactive
  refine hactive ⟨id', row⟩ (AList.mem_lookup_iff.1 hrow) ?_
  exact decide_eq_true ⟨hv, hj, (active_iff now row).1 hact⟩

end PairingStore

/-! ## One call -/

/-- A call that draws an id draws a new one, and the event of a `Complete` is one of `P`. -/
def Calls (P : SignedMembershipEvent → Prop) (D : PairingDesk) (l : ℤ × PairingCall) : Prop :=
  match l.2 with
  | .createPairing _ _ id => D.store.pairings.lookup id = none
  | .complete _ ev _ _ _ => P ev
  | _ => True

/-- The chain of a relay after calls that append to it. -/
def ChainKept (C : Suite) (r r' : Store) : Prop :=
  ∀ v chain, r.chain C v = .ok chain → ∃ chain', r'.chain C v = .ok chain' ∧
    ∀ id d, chain.device id = some d → ∃ d', chain'.device id = some d' ∧ d.Keeps d'

theorem ChainKept.refl (C : Suite) (r : Store) : ChainKept C r r :=
  fun _ chain h => ⟨chain, h, fun _ d hd => ⟨d, hd, .refl d⟩⟩

theorem chainKept_append {r r' : Store} {v : ID} {ev : SignedMembershipEvent}
    {next : Membership.Chain} (h : r.appendMembership C v ev = .ok (next, r')) :
    ChainKept C r r' := by
  obtain ⟨chain, hchain, happ, rfl⟩ := Store.appendMembership_ok h
  intro v' chain' hchain'
  obtain ⟨row, hrow, hid, hval⟩ := Store.chain_eq_ok.1 hchain
  obtain ⟨row', hrow', hid', hval'⟩ := Store.chain_eq_ok.1 hchain'
  obtain rfl : row = row' := Option.some.inj (hrow.symm.trans hrow')
  obtain rfl : chain = chain' := Except.ok.inj (hval.symm.trans hval')
  have hnext := Membership.validate_concat hval happ
  exact ⟨next, Store.chain_eq_ok.2 ⟨row, hrow, hid', hnext⟩,
    fun id d hd => Membership.keeps_of_validate hval hnext hd⟩

variable (C) in
/-- What a call does: at most the chain grows; or a session is created; or one moves on. -/
inductive Called (P : SignedMembershipEvent → Prop) (s : PairingStore) (now : ℤ) : PairingStore → Prop
  | quiet {s' : PairingStore} (table : s'.pairings = s.pairings)
      (chain : ChainKept C s.relay s'.relay) : Called P s now s'
  | created {p : PairingSession} {chain : Membership.Chain} (new : s.pairings.lookup p.sessionID = none)
      (valid : s.relay.chain C p.vaultID = .ok chain) (sound : Sound C P chain p)
      (only : ∀ id row, s.pairings.lookup id = some row → row.vaultID = p.vaultID →
        row.joinerDeviceID = p.joinerDeviceID → ¬ Active now row) :
      Called P s now (s.insertPairing p)
  | moved {id : ID} {row : PairingRow} {chain : Membership.Chain} {p : PairingSession}
      (found : s.pairings.lookup id = some row)
      (valid : s.relay.chain C row.session.vaultID = .ok chain)
      (uncompleted : row.session.state ≠ .completed) (unexpired : now < row.expiresAt * second)
      (moves : Moves C P chain row.stored p) : Called P s now (s.insertPairing p)

section
variable {P : SignedMembershipEvent → Prop} {s : PairingStore} {now : ℤ}

theorem called_advance {id : ID}
    {step : PairingSession → Membership.Chain → Except Error PairingSession}
    (hstep : ∀ p chain p', step p chain = .ok p' → Moves C P chain p p') :
    Called C P s now (s.settle (s.advance C now id step)) := by
  rcases h : s.advance C now id step with err | ⟨p, s'⟩
  · exact .quiet rfl (.refl C _)
  · obtain ⟨row, chain, hrow, hchain, hne, hlt, hp, rfl⟩ := PairingStore.advance_eq_ok h
    exact .moved hrow hchain hne hlt (hstep _ _ _ hp)

theorem called {D : PairingDesk} {l : ℤ × PairingCall} (hok : Calls P D l) :
    Called C P D.store l.1 (D.store.call C l.1 l.2) := by
  obtain ⟨now, call⟩ := l
  cases call with
  | createPairing v offer id =>
    simp only [PairingStore.call]
    rcases h : D.store.createPairing C now v offer id with err | ⟨p, s'⟩
    · exact .quiet rfl (.refl C _)
    · obtain ⟨chain, hchain, rfl, rfl, honly⟩ := PairingStore.createPairing_eq_ok h
      refine .created hok hchain ?_ honly
      exact
        { offered := fun _ => ⟨rfl, rfl⟩
          confirming := fun hs => by cases hs
          pending := fun _ => ⟨rfl, rfl, rfl⟩
          confirmed := fun hs => by rcases hs with hs | hs <;> cases hs
          event := fun ev hev => by cases hev
          completed := fun hs => by cases hs
          blobs := ⟨fun b hb => (by cases hb), fun b hb => (by cases hb)⟩
          stored := fun hs => by cases hs }
  | confirmApprover id approval conf =>
    exact called_advance fun _ _ _ h => confirmApprover_moves h
  | confirmJoiner id conf => exact called_advance fun _ _ _ h => confirmJoiner_moves h
  | complete id ev bundle snapshot genesis =>
    exact called_advance fun _ _ _ h => complete_moves hok h
  | putPairingSnapshot id snapshot => exact called_advance fun _ _ _ h => putSnapshot_moves h
  | acknowledge id => exact called_advance fun _ _ _ h => acknowledge_moves h
  | pairing id => exact .quiet rfl (.refl C _)
  | appendMembership v ev =>
    simp only [PairingStore.call]
    rcases h : D.store.relay.appendMembership C v ev with err | ⟨next, r'⟩
    · exact .quiet rfl (.refl C _)
    · exact .quiet rfl (chainKept_append h)

end

/-! ## Runs -/

variable (C) in
/-- Every stored session is sound, and at most one per joiner is open. -/
structure Orderly (P : SignedMembershipEvent → Prop) (D : PairingDesk) : Prop where
  filed : ∀ {id row}, D.store.pairings.lookup id = some row → Filed id row
  sound : ∀ {id row}, D.store.pairings.lookup id = some row →
    ∃ chain, D.store.relay.chain C row.vaultID = .ok chain ∧ Sound C P chain row.stored
  single : ∀ {id id' row row'}, D.store.pairings.lookup id = some row →
    D.store.pairings.lookup id' = some row' → row.joinerDeviceID = row'.joinerDeviceID →
    Active D.clock row → Active D.clock row' → id = id'

section
variable {P : SignedMembershipEvent → Prop} {D : PairingDesk} {now : ℤ} {s' : PairingStore}

theorem Active.earlier {t t' : ℤ} (h : t ≤ t') {row : PairingRow} (ha : Active t' row) :
    Active t row := ⟨ha.1, h.trans_lt ha.2⟩

/-- The relay holds one vault. -/
theorem Orderly.vault_eq (hD : Orderly C P D) {id : ID} {row : PairingRow} {v : ID}
    {chain : Membership.Chain} (hrow : D.store.pairings.lookup id = some row)
    (hv : D.store.relay.chain C v = .ok chain) : row.vaultID = v := by
  obtain ⟨chain', hchain', -⟩ := hD.sound hrow
  obtain ⟨g, hg, hid, -⟩ := Store.chain_eq_ok.1 hv
  obtain ⟨g', hg', hid', -⟩ := Store.chain_eq_ok.1 hchain'
  obtain rfl : g = g' := Option.some.inj (hg.symm.trans hg')
  exact hid'.symm.trans hid

/-- A row is written: it is in order, and if it is open no other one of its joiner is. -/
theorem Orderly.write (hD : Orderly C P D) (hclock : D.clock ≤ now) {key : ID} {row : PairingRow}
    {chain : Membership.Chain} (hfiled : Filed key row)
    (hchain : D.store.relay.chain C row.vaultID = .ok chain) (hsound : Sound C P chain row.stored)
    (hsingle : ∀ id row', id ≠ key → D.store.pairings.lookup id = some row' →
      row'.joinerDeviceID = row.joinerDeviceID → Active now row → ¬ Active now row') :
    Orderly C P { store := { D.store with pairings := D.store.pairings.insert key row },
                  clock := now } := by
  have hlookup : ∀ {id row'}, (D.store.pairings.insert key row).lookup id = some row' →
      (id = key ∧ row' = row) ∨ (id ≠ key ∧ D.store.pairings.lookup id = some row') := by
    intro id row' h
    rcases eq_or_ne id key with rfl | hne
    · rw [AList.lookup_insert] at h
      exact Or.inl ⟨rfl, (Option.some.inj h).symm⟩
    · rw [AList.lookup_insert_ne hne] at h
      exact Or.inr ⟨hne, h⟩
  refine ⟨fun h => ?_, fun h => ?_, fun h h' hj ha ha' => ?_⟩
  · rcases hlookup h with ⟨rfl, rfl⟩ | ⟨-, hold⟩
    · exact hfiled
    · exact hD.filed hold
  · rcases hlookup h with ⟨rfl, rfl⟩ | ⟨-, hold⟩
    · exact ⟨chain, hchain, hsound⟩
    · exact hD.sound hold
  · rcases hlookup h with ⟨rfl, rfl⟩ | ⟨hne, hold⟩ <;> rcases hlookup h' with ⟨rfl, rfl⟩ | ⟨hne', hold'⟩
    · rfl
    · exact absurd ha' (hsingle _ _ hne' hold' hj.symm ha)
    · exact absurd ha (hsingle _ _ hne hold hj ha')
    · exact hD.single hold hold' hj (ha.earlier hclock) (ha'.earlier hclock)

/-- What a call leaves of a row: it is later, and the same if it was completed or has
    expired. -/
def Later (now : ℤ) (row row' : PairingRow) : Prop :=
  Onward row.stored row'.stored ∧ (row'.state = row.state ∨ row.state.next = some row'.state) ∧
    (¬ Active now row → row' = row)

theorem Later.refl (now : ℤ) (row : PairingRow) : Later now row row :=
  ⟨.refl _, Or.inl rfl, fun _ => rfl⟩

theorem Orderly.call (hD : Orderly C P D) (hclock : D.clock ≤ now) (h : Called C P D.store now s') :
    Orderly C P { store := s', clock := now } ∧
    ∀ {id row}, D.store.pairings.lookup id = some row →
      ∃ row', s'.pairings.lookup id = some row' ∧ Later now row row' := by
  cases h with
  | quiet table chain =>
    refine ⟨⟨fun h => hD.filed (table ▸ h), fun h => ?_, fun h h' hj ha ha' => ?_⟩, fun h => ?_⟩
    · obtain ⟨c, hc, hsound⟩ := hD.sound (table ▸ h)
      obtain ⟨c', hc', hk⟩ := chain _ c hc
      exact ⟨c', hc', hsound.grow hk⟩
    · exact hD.single (table ▸ h) (table ▸ h') hj (ha.earlier hclock) (ha'.earlier hclock)
    · exact ⟨_, table ▸ h, .refl now _⟩
  | @created p chain new valid sound only =>
    obtain ⟨row, hins, hsession, hstored, hvault, hjoiner, hstate, hexp⟩ :=
      PairingStore.insertPairing_new new sound.blobs
    rw [hins]
    refine ⟨hD.write hclock ⟨by rw [hsession], by rw [hvault, hsession], by rw [hjoiner, hsession],
      by rw [hstate, hsession]⟩ (hvault ▸ valid) (hstored ▸ sound) ?_, fun {id row'} h => ?_⟩
    · intro id row' _ hrow' hj _
      exact only id row' hrow' (hD.vault_eq hrow' valid) (hj.trans hjoiner)
    · refine ⟨row', ?_, .refl now row'⟩
      rw [AList.lookup_insert_ne, h]
      rintro rfl
      rw [new] at h
      cases h
  | @moved key old chain p found valid uncompleted unexpired moves =>
    obtain ⟨c, hc, hsound⟩ := hD.sound found
    have hfiled := hD.filed found
    obtain rfl : c = chain := Except.ok.inj (hc.symm.trans (hfiled.vault ▸ valid))
    obtain ⟨honward, hnext⟩ := hsound.onward moves
    have hsound' := hsound.moves moves
    have hkey : p.sessionID = key := honward.sessionID.trans hfiled.key
    obtain ⟨row, hins, hsession, hstored, hvault, hjoiner, hstate, hexp⟩ :=
      PairingStore.insertPairing_again (hkey.symm ▸ found) honward.expiresAt hsound'.blobs
    rw [hins, hkey]
    have hactive : Active now old := ⟨fun hs => uncompleted (hfiled.state ▸ hs), unexpired⟩
    have hoffer : p.joinerDeviceID = old.session.joinerDeviceID :=
      congrArg (·.offer.joinerDeviceID) honward.offer
    refine ⟨hD.write hclock ⟨by rw [hsession, hkey], ?_, ?_, by rw [hstate, hsession]⟩
      (hvault ▸ hc) (hstored ▸ hsound') ?_, fun {id row'} h => ?_⟩
    · rw [hvault, hfiled.vault, hsession]; exact honward.vaultID.symm
    · rw [hjoiner, hfiled.joiner, hsession, hoffer]
    · intro id row' hne hrow' hj _ hact'
      exact hne (hD.single hrow' found (hj.trans hjoiner) (hact'.earlier hclock)
        (hactive.earlier hclock))
    · rcases eq_or_ne id key with rfl | hne
      · obtain rfl : old = row' := Option.some.inj (found.symm.trans h)
        refine ⟨row, AList.lookup_insert _, hstored ▸ honward, ?_, fun hn => absurd hactive hn⟩
        rw [hstate, hfiled.state]
        exact hnext
      · exact ⟨row', (AList.lookup_insert_ne hne).trans h, .refl now row'⟩

theorem Orderly.step {D' : PairingDesk} {l : ℤ × PairingCall} (hD : Orderly C P D)
    (hok : Calls P D l) (h : D.step C l = some D') :
    Orderly C P D' ∧ D.clock ≤ D'.clock ∧ ∀ {id row}, D.store.pairings.lookup id = some row →
      ∃ row', D'.store.pairings.lookup id = some row' ∧ Later D'.clock row row' := by
  unfold PairingDesk.step at h
  split_ifs at h with hclock
  cases h
  obtain ⟨hD', hrows⟩ := hD.call hclock (called (C := C) hok)
  exact ⟨hD', hclock, hrows⟩

/-- A run leaves later versions of all sessions, and those alone that were completed or
    had expired. -/
theorem Orderly.run {D' : PairingDesk} (hD : Orderly C P D)
    (h : Run.Reach (PairingDesk.step C) (Calls P) D D') :
    Orderly C P D' ∧ D.clock ≤ D'.clock ∧ ∀ {id row}, D.store.pairings.lookup id = some row →
      ∃ row', D'.store.pairings.lookup id = some row' ∧ Onward row.stored row'.stored ∧
        (¬ Active D.clock row → row' = row) := by
  refine h.invariant (P := fun K => Orderly C P K ∧ D.clock ≤ K.clock ∧
    ∀ {id row}, D.store.pairings.lookup id = some row → ∃ row', K.store.pairings.lookup id = some row' ∧
      Onward row.stored row'.stored ∧ (¬ Active D.clock row → row' = row))
    ⟨hD, le_rfl, fun {id row} hrow => ⟨row, hrow, .refl _, fun _ => rfl⟩⟩ ?_
  intro K l K' ⟨hK, hclock, hrows⟩ hok hstep
  obtain ⟨hK', hclock', hrows'⟩ := hK.step hok hstep
  refine ⟨hK', hclock.trans hclock', fun {id row} hrow => ?_⟩
  obtain ⟨row', hrow', honward, hsame⟩ := hrows hrow
  obtain ⟨row'', hrow'', honward', -, hsame'⟩ := hrows' hrow'
  refine ⟨row'', hrow'', honward.trans honward', fun hn => ?_⟩
  obtain rfl := hsame hn
  exact hsame' fun ha => hn (ha.earlier (hclock.trans hclock'))

end

/-- **Main result.**  Over every run of calls at times that do not decrease, from a relay
    without sessions: what is delivered through a session is delivered after both devices
    have signed confirmations of one transcript; its event names the offering device and
    that transcript, and is one that `Complete` was called with; a completed session has a
    bundle.  At no time are two sessions of one joiner open.  A call moves the state of a
    session on by at most one, no call takes back or replaces what a session holds, and
    none changes a session that is completed or has expired. -/
theorem pairing_sessions (C : Suite) {P : SignedMembershipEvent → Prop} {r₀ : Store} {t₀ : ℤ}
    {D : PairingDesk}
    (h : Run.Reach (PairingDesk.step C) (Calls P) { store := ⟨r₀, ∅⟩, clock := t₀ } D) :
    (∀ id row, D.store.pairings.lookup id = some row → Filed id row ∧
      ∃ chain, D.store.relay.chain C row.vaultID = .ok chain ∧
        (row.bundle ≠ none ∨ row.session.membershipEvent ≠ none ∨ row.snapshot ≠ none →
          ∃ a ca cj, Confirmed C chain row.stored a ca cj) ∧
        (∀ ev ∈ row.session.membershipEvent, ev.event.deviceID = row.joinerDeviceID ∧
          ev.event.transcriptDigest = row.session.transcriptDigest ∧ P ev) ∧
        (row.state = .completed → row.bundle ≠ none)) ∧
    (∀ now, D.clock ≤ now → ∀ id id' row row', D.store.pairings.lookup id = some row →
      D.store.pairings.lookup id' = some row' → row.joinerDeviceID = row'.joinerDeviceID →
      Active now row → Active now row' → id = id') ∧
    (∀ l D', Calls P D l → D.step C l = some D' → ∀ id row,
      D.store.pairings.lookup id = some row → ∃ row', D'.store.pairings.lookup id = some row' ∧
        (row'.state = row.state ∨ row.state.next = some row'.state)) ∧
    ∀ D', Run.Reach (PairingDesk.step C) (Calls P) D D' → ∀ id row,
      D.store.pairings.lookup id = some row → ∃ row', D'.store.pairings.lookup id = some row' ∧
        Onward row.stored row'.stored ∧
        (row.state = .completed ∨ row.expiresAt * second ≤ D.clock → row' = row) := by
  have hD : Orderly C P D := by
    refine h.invariant (P := Orderly C P) ⟨fun hr => ?_, fun hr => ?_, fun hr => ?_⟩
      fun _ _ _ hK hok hstep => (hK.step hok hstep).1
    all_goals cases hr
  refine ⟨fun id row hrow => ?_, fun now hnow id id' row row' hrow hrow' hj ha ha' => ?_,
    fun l D' hok hstep id row hrow => ?_, fun D' hrun id row hrow => ?_⟩
  · have hfiled := hD.filed hrow
    obtain ⟨chain, hchain, hsound⟩ := hD.sound hrow
    refine ⟨hfiled, chain, hchain, hsound.delivered, fun ev hev => ?_,
      fun hs => hsound.completed (hfiled.state ▸ hs)⟩
    obtain ⟨-, hdev, hdigest, hP⟩ := hsound.event ev hev
    exact ⟨hdev.trans hfiled.joiner.symm, hdigest, hP⟩
  · exact hD.single hrow hrow' hj (ha.earlier hnow) (ha'.earlier hnow)
  · obtain ⟨-, -, hrows⟩ := hD.step hok hstep
    obtain ⟨row', hrow', -, hnext, -⟩ := hrows hrow
    exact ⟨row', hrow', hnext⟩
  · obtain ⟨-, -, hrows⟩ := hD.run hrun
    obtain ⟨row', hrow', honward, hsame⟩ := hrows hrow
    refine ⟨row', hrow', honward, fun hend => hsame fun ha => ?_⟩
    rcases hend with hend | hend
    · exact ha.1 hend
    · exact absurd ha.2 (not_lt.2 hend)

/-! ## The device `0b` joins the vault of `0a` -/

namespace Pairing01

instance decidableCalls (P : SignedMembershipEvent → Prop) [DecidablePred P] (D : PairingDesk) :
    (l : ℤ × PairingCall) → Decidable (Calls P D l)
  | (_, .createPairing _ _ id) =>
    inferInstanceAs (Decidable (D.store.pairings.lookup id = none))
  | (_, .complete _ ev _ _ _) => inferInstanceAs (Decidable (P ev))
  | (_, .confirmApprover _ _ _) | (_, .confirmJoiner _ _) | (_, .putPairingSnapshot _ _)
  | (_, .acknowledge _) | (_, .pairing _) | (_, .appendMembership _ _) =>
    inferInstanceAs (Decidable True)

def offer : SignedPairingOffer :=
  let o : PairingOffer :=
    { domain := pairingOfferDomain, formatVersion := 1, suite := suiteID, vaultID := Sample.id 0x01,
      joinerDeviceID := Sample.id 0x0b, joinerVerifyKey := [11], joinerRecipient := "B",
      joinerChallenge := List.replicate 32 0, createdAt := "t0" }
  { offer := o, signature := sample.sign [11] [] pairingOfferDomain (sample.canonical (.pairingOffer o)) }

def approval : PairingApproval :=
  { approverDeviceID := Sample.id 0x0a, approverVerifyKey := [10], approverRecipient := "A",
    approverChallenge := List.replicate 32 0, createdAt := "t0", expiresAt := "t1" }

/-- The confirmation of a device with the key `key`, in the session `40`. -/
def confirmation (device : ID) (key : Bytes) : SignedPairingConfirmation :=
  let c : PairingConfirmation :=
    { domain := pairingConfirmDomain, formatVersion := 1, vaultID := Sample.id 0x01,
      sessionID := Sample.id 0x40, deviceID := device, transcriptDigest := List.replicate 32 1,
      createdAt := "t0" }
  { confirmation := c,
    signature := sample.sign key [] pairingConfirmDomain (sample.canonical (.pairingConfirmation c)) }

/-- The calls of a pairing that delivers the event `ev`, one in a second. -/
def calls (ev : SignedMembershipEvent) : List (ℤ × PairingCall) :=
  [(0, .createPairing (Sample.id 0x01) offer (Sample.id 0x40)),
   (second, .confirmApprover (Sample.id 0x40) approval (confirmation (Sample.id 0x0a) [10])),
   (2 * second, .confirmJoiner (Sample.id 0x40) (confirmation (Sample.id 0x0b) [11])),
   (3 * second, .putPairingSnapshot (Sample.id 0x40) [1]),
   (4 * second, .complete (Sample.id 0x40) ev [2] [] (some Sample.genesis)),
   (5 * second, .acknowledge (Sample.id 0x40))]

def desk : PairingDesk := { store := ⟨soleRelay, ∅⟩, clock := 0 }

/-- An event that revokes the offering device. -/
def revokesJoiner : SignedMembershipEvent :=
  { Sample.enrolment with event := { Sample.enrolment.event with action := .revoke } }

def misled : PairingDesk :=
  (Run.replay (PairingDesk.step sample) (Calls fun _ => True) desk (calls revokesJoiner)).get
    (by decide)
def misledRow : PairingRow :=
  (misled.store.pairings.lookup (Sample.id 0x40)).get (by decide)

/-- A session is completed with an event that does not enrol the offering device. -/
theorem revocation_delivered :
    Run.Reach (PairingDesk.step sample) (Calls fun _ => True) desk misled ∧
    misled.store.pairings.lookup (Sample.id 0x40) = some misledRow ∧
    misledRow.state = .completed ∧
    ∃ ev ∈ misledRow.session.membershipEvent, ev.event.deviceID = misledRow.joinerDeviceID ∧
      ev.event.action = .revoke :=
  ⟨Run.reach_of_replay (Option.some_get _).symm, (Option.some_get _).symm, by decide,
    revokesJoiner, by decide, by decide, rfl⟩

/-- The event enrols a device. -/
def Enrols (ev : SignedMembershipEvent) : Prop := ev.event.action = .enroll

instance decidableEnrols : DecidablePred Enrols := fun ev =>
  inferInstanceAs (Decidable (ev.event.action = .enroll))

def paired : PairingDesk :=
  (Run.replay (PairingDesk.step sample) (Calls Enrols) desk (calls Sample.enrolment)).get
    (by decide)
def pairedRow : PairingRow :=
  (paired.store.pairings.lookup (Sample.id 0x40)).get (by decide)

theorem pairing_sessions_paired :
    pairedRow.state = .completed ∧ pairedRow.session.membershipEvent = some Sample.enrolment ∧
    pairedRow.bundle ≠ none ∧ Enrols Sample.enrolment ∧
    (∃ chain, paired.store.relay.chain sample pairedRow.vaultID = .ok chain ∧
      ∃ a ca cj, Confirmed sample chain pairedRow.stored a ca cj) ∧
    ∀ D', Run.Reach (PairingDesk.step sample) (Calls Enrols) paired D' →
      ∃ row', D'.store.pairings.lookup (Sample.id 0x40) = some row' ∧ row' = pairedRow := by
  have hrun : Run.Reach (PairingDesk.step sample) (Calls Enrols) desk paired :=
    Run.reach_of_replay (Option.some_get _).symm
  have hrow : paired.store.pairings.lookup (Sample.id 0x40) = some pairedRow :=
    (Option.some_get _).symm
  have hstate : pairedRow.state = .completed := by decide
  have hev : pairedRow.session.membershipEvent = some Sample.enrolment := by decide
  obtain ⟨hheld, -, -, hlater⟩ := pairing_sessions sample hrun
  obtain ⟨-, chain, hchain, hconf, hevent, hbundle⟩ := hheld _ pairedRow hrow
  refine ⟨hstate, hev, hbundle hstate, (hevent _ hev).2.2,
    ⟨chain, hchain, hconf (Or.inl (hbundle hstate))⟩, fun D' hD' => ?_⟩
  obtain ⟨row', hrow', -, hsame⟩ := hlater D' hD' _ pairedRow hrow
  exact ⟨row', hrow', hsame (Or.inl hstate)⟩

end Pairing01

end Sshstate.Relay
