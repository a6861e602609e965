/-
  Whose keys a pairing enrols and whose keys a joiner accepts, against a relay
  that answers every request as it likes.

  * Approver (`delivers_iff`): the device it enrols and seals the vault keys to
    is the one of the displayed transcript exactly when the session it read last
    still carries the offered keys of the session it built the transcript from.
    `AwaitJoiner` checks the confirmation but not the offer of the session it
    then keeps, so a relay can exchange the offer in between.
  * Joiner (`receives_iff`): the enrolment and the bundle come from the approver
    of the compared transcript exactly when the event names that device and the
    chain served with it gives that device the transcript's key.  `Receive`
    checks the chain, the event and the bundle against each other only.
-/
import Sshstate.Enroll.Pairing
import Sshstate.Proof.Membership
import Sshstate.Protocol.Sample

namespace Sshstate.Enroll

variable {C : Suite}

/-! ## The approver -/

theorem buildTranscript_joiner {sessionID : ID} {offer : PairingOffer} {approval : PairingApproval}
    {suite : String} {tr : PairingTranscript}
    (h : buildTranscript C sessionID offer approval suite = .ok tr) :
    tr.joinerDeviceID = offer.joinerDeviceID ∧ tr.joinerVerifyKey = offer.joinerVerifyKey ∧
      tr.joinerRecipient = offer.joinerRecipient := by
  simp only [buildTranscript, Except.bind_eq_ok, Except.pure_eq_ok, Except.ok.injEq] at h
  obtain ⟨-, -, -, -, -, -, -, -, rfl⟩ := h
  exact ⟨rfl, rfl, rfl⟩

/-- The transcript is built from the offer of the first session. -/
theorem approve_ok {sessionID : ID} {id : Identity} {now : ℤ} {challenge : Bytes}
    {response : Except Error PairingResponse} {a : Approver}
    (h : approve C sessionID id now challenge response = .ok a) :
    ∃ session offer, response = .ok session ∧ session.offer = some offer ∧
      a.transcript.joinerDeviceID = offer.joinerDeviceID ∧
      a.transcript.joinerVerifyKey = offer.joinerVerifyKey ∧
      a.transcript.joinerRecipient = offer.joinerRecipient := by
  simp only [approve, Except.bind_eq_ok] at h
  obtain ⟨session, hresp, -, -, h⟩ := h
  rcases ho : session.offer with _ | offer
  · rw [ho] at h; cases h
  · simp only [ho, Except.bind_eq_ok, Except.pure_eq_ok, Except.ok.injEq] at h
    obtain ⟨-, -, -, -, tr, htr, rfl⟩ := h
    exact ⟨session, offer, hresp, ho, buildTranscript_joiner htr⟩

namespace Approver

/-- A call that reports the joiner's confirmation keeps the session it read. -/
theorem awaitJoiner_true {a a' : Approver} {response : Except Error PairingResponse}
    (h : a.awaitJoiner C response = .ok (true, a')) :
    ∃ session, response = .ok session ∧ a' = { a with session := session } := by
  simp only [awaitJoiner, Except.bind_eq_ok] at h
  obtain ⟨session, hresp, -, -, h⟩ := h
  refine ⟨session, hresp, ?_⟩
  rcases hc : session.joinerConfirmation with _ | conf
  · simp [hc] at h
  · rcases ho : a.session.offer with _ | offer
    · simp [hc, ho] at h
    · simp only [hc, ho, Except.bind_eq_ok, Except.pure_eq_ok, Except.ok.injEq, Prod.mk.injEq,
        true_and] at h
      obtain ⟨-, -, -, -, rfl⟩ := h
      rfl

/-- A delivery is made out to the offer of the session the approver holds. -/
theorem handOver_ok {a : Approver} {h : HandOver} {d : Delivered} (hd : a.handOver C h = .ok d) :
    ∃ offer, a.session.offer = some offer ∧ d.event.event.deviceID = offer.joinerDeviceID ∧
      d.event.event.deviceVerifyKey = some offer.joinerVerifyKey ∧
      d.event.event.deviceRecipient = some offer.joinerRecipient ∧
      C.parseRecipient offer.joinerRecipient = some d.bundleTo ∧
      ∀ r ∈ d.snapshotTo, r = d.bundleTo := by
  simp only [handOver, Except.bind_eq_ok, Except.pure_eq_ok, Except.ok.injEq] at hd
  obtain ⟨keys, hkeys, ev, hev, body, -, recipient, hrec, bundle, -, sealedBundle, -, -, -, rfl⟩ := hd
  rcases ho : a.session.offer with _ | offer
  · simp [joinerKeys, ho] at hkeys
  · simp only [joinerKeys, ho, Except.ok.injEq] at hkeys
    simp only [Membership.Chain.enroll, Except.bind_eq_ok, Except.pure_eq_ok,
      Except.ok.injEq] at hev
    obtain ⟨-, -, -, -, rfl⟩ := hev
    have hparse : C.parseRecipient offer.joinerRecipient = some recipient := by
      simp only [joinerRecipient, ho] at hrec
      split at hrec
      · cases hrec
      · next r hr => rw [hr]; exact congrArg some (Except.ok.inj hrec)
    subst hkeys
    refine ⟨offer, rfl, rfl, rfl, rfl, hparse, fun r hr => ?_⟩
    split_ifs at hr
    · cases hr
    · exact (Option.some.inj hr).symm

end Approver

/-- The enrolled device and the recipient of the vault keys are the joiner of
    the transcript. -/
structure DeliversTo (C : Suite) (tr : PairingTranscript) (d : Delivered) : Prop where
  deviceID : d.event.event.deviceID = tr.joinerDeviceID
  verifyKey : d.event.event.deviceVerifyKey = some tr.joinerVerifyKey
  recipient : d.event.event.deviceRecipient = some tr.joinerRecipient
  bundle : C.parseRecipient tr.joinerRecipient = some d.bundleTo
  snapshot : ∀ r ∈ d.snapshotTo, C.parseRecipient tr.joinerRecipient = some r

/-- Two answers carry offers of the same device, verify key and recipient. -/
def SameJoiner (first last : Except Error PairingResponse) : Prop :=
  ∃ s s' o o', first = .ok s ∧ last = .ok s' ∧ s.offer = some o ∧ s'.offer = some o' ∧
    o'.joinerDeviceID = o.joinerDeviceID ∧ o'.joinerVerifyKey = o.joinerVerifyKey ∧
    o'.joinerRecipient = o.joinerRecipient

/-- **Whom the approver enrols.**  Whatever the relay answers to `Approve` (`first`),
    to any number of earlier calls of `AwaitJoiner` (`polled`) and to the one that
    returned true (`last`): the delivery is made out to the joiner of the displayed
    transcript if and only if `last` carries the joiner of `first`. -/
theorem delivers_iff {sessionID : ID} {id : Identity} {now : ℤ} {challenge : Bytes}
    {first last : Except Error PairingResponse} {polled : List (Except Error PairingResponse)}
    {a a' : Approver} {h : HandOver} {d : Delivered}
    (happrove : approve C sessionID id now challenge first = .ok a)
    (hawait : (a.polls C polled).awaitJoiner C last = .ok (true, a'))
    (hdeliver : a'.handOver C h = .ok d) :
    DeliversTo C a.transcript d ↔ SameJoiner first last := by
  obtain ⟨s, o, hfirst, ho, htid, htkey, htrec⟩ := approve_ok happrove
  obtain ⟨s', hlast, rfl⟩ := Approver.awaitJoiner_true hawait
  obtain ⟨o', ho', hid, hkey, hrec, hparse, hsnap⟩ := Approver.handOver_ok hdeliver
  constructor
  · intro hto
    refine ⟨s, s', o, o', hfirst, hlast, ho, ho', ?_, ?_, ?_⟩
    · rw [← hid, hto.deviceID, htid]
    · exact Option.some.inj (hkey.symm.trans (hto.verifyKey.trans (congrArg some htkey)))
    · exact Option.some.inj (hrec.symm.trans (hto.recipient.trans (congrArg some htrec)))
  · rintro ⟨t, t', p, p', hfirst', hlast', hp, hp', hpid, hpkey, hprec⟩
    obtain rfl : s = t := Except.ok.inj (hfirst.symm.trans hfirst')
    obtain rfl : s' = t' := Except.ok.inj (hlast.symm.trans hlast')
    obtain rfl : o = p := Option.some.inj (ho.symm.trans hp)
    obtain rfl : o' = p' := Option.some.inj (ho'.symm.trans hp')
    have hparse' : C.parseRecipient a.transcript.joinerRecipient = some d.bundleTo := by
      rw [htrec, ← hprec]; exact hparse
    exact ⟨by rw [hid, hpid, htid], by rw [hkey, hpkey, htkey], by rw [hrec, hprec, htrec],
      hparse', fun r hr => by rw [hsnap r hr]; exact hparse'⟩

/-! ### A relay that exchanges the offer -/

namespace Session05

open Sample (genesis founded root)

/-- An offer of the device `id` with the verify key `k` and the recipient `r`. -/
def offer (id : ID) (k : Bytes) (r : String) : PairingOffer :=
  { domain := pairingOfferDomain, formatVersion := 1, suite := suiteID,
    vaultID := Sample.id 0x01, joinerDeviceID := id, joinerVerifyKey := k,
    joinerRecipient := r, joinerChallenge := List.replicate 32 0, createdAt := "t0" }

/-- The session `05` as the relay serves it, with the given offer and confirmation. -/
def session (o : PairingOffer) (conf : Option SignedPairingConfirmation) : PairingResponse :=
  { sessionID := Sample.id 0x05, state := "open", offer := some o,
    offerSignature := sample.sign o.joinerVerifyKey [] pairingOfferDomain
      (sample.canonical (.pairingOffer o)),
    approver := none, approverConfirmation := none, joinerConfirmation := conf, bundle := [],
    snapshot := [], membershipEvent := none, genesis := none, expiresAt := "t1" }

def joinerOffer : PairingOffer := offer (Sample.id 0x0b) [11] "B"
def otherOffer : PairingOffer := offer (Sample.id 0x0e) [14] "E"

def approverIdentity : Identity :=
  { deviceID := Sample.id 0x0a, signing := [10], encryption := [65] }

def approved : Except Error Approver :=
  approve sample (Sample.id 0x05) approverIdentity 0 (List.replicate 32 0)
    (.ok (session joinerOffer none))

def approver : Approver := approved.get (by decide)

/-- The joiner's confirmation of the displayed transcript. -/
def confirmation : SignedPairingConfirmation :=
  let c : PairingConfirmation :=
    { domain := pairingConfirmDomain, formatVersion := 1,
      vaultID := Sample.id 0x01,
      sessionID := Sample.id 0x05,
      deviceID := Sample.id 0x0b,
      transcriptDigest := approver.transcript.digest sample, createdAt := "t0" }
  { confirmation := c
    signature := sample.sign [11] [] pairingConfirmDomain (sample.canonical (.pairingConfirmation c)) }

def device (id : ID) (k : Bytes) (r : String) : Membership.Device :=
  { id := id, verifyKey := k, recipient := r, enrolledAt := "t0", enrolledBy := id,
    revoked := false, revokedAt := "", enrollSeq := 1, revokeSeq := 0 }

def handOver : HandOver :=
  { genesis := genesis, vaultID := genesis.vaultID,
    signer := { deviceID := Sample.id 0x0a, key := [10] },
    keyEpoch := 1, checkpointEpoch := 1, metadataKey := List.replicate 32 1,
    secretKey := List.replicate 32 2,
    chain := { genesis := genesis, events := [], head := List.replicate 32 0,
               devices := [device (Sample.id 0x0a) [10] "A"] },
    records := [], heads := [], seq := 0, now := 0,
    eventID := Sample.id 0x06, entropy := [] }

/-- The answer to `AwaitJoiner`: the joiner's confirmation with the offer `o`. -/
def answer (o : PairingOffer) : Except Error PairingResponse := .ok (session o (some confirmation))

def awaited (o : PairingOffer) : Except Error (Bool × Approver) :=
  (approver.polls sample []).awaitJoiner sample (answer o)

def approver' (o : PairingOffer) : Approver := { approver with session := session o (some confirmation) }

end Session05

open Session05 Sample in
/-- Against a relay that keeps the offer, the keys go to the joiner. -/
theorem delivers_to_joiner : ∃ d, (approver' joinerOffer).handOver sample handOver = .ok d ∧
    SameJoiner (.ok (session joinerOffer none)) (answer joinerOffer) ∧
    DeliversTo sample approver.transcript d := by
  have h1 : approved = .ok approver := Except.eq_ok_get _
  have h2 : awaited joinerOffer = .ok (true, approver' joinerOffer) := by decide
  have h3 := Except.eq_ok_get
    (by decide : ((approver' joinerOffer).handOver sample handOver).toBool = true)
  have hsame : SameJoiner (.ok (session joinerOffer none)) (answer joinerOffer) :=
    ⟨_, _, _, _, rfl, rfl, rfl, rfl, rfl, rfl, rfl⟩
  exact ⟨_, h3, hsame, (delivers_iff h1 h2 h3).2 hsame⟩

open Session05 Sample in
/-- The relay serves the joiner's offer to `Approve` and another device's offer,
    with the joiner's genuine confirmation, to `AwaitJoiner`: the other device is
    enrolled and gets the vault keys. -/
theorem delivers_to_other : ∃ a a' d,
    approve sample (Sample.id 0x05) approverIdentity 0 (List.replicate 32 0)
      (.ok (session joinerOffer none)) = .ok a ∧
    (a.polls sample []).awaitJoiner sample (.ok (session otherOffer (some confirmation))) =
      .ok (true, a') ∧
    a'.handOver sample handOver = .ok d ∧
    a.transcript.joinerDeviceID = Sample.id 0x0b ∧
    d.event.event.deviceID = Sample.id 0x0e ∧
    d.event.event.deviceVerifyKey = some [14] ∧ d.bundleTo = "E" ∧
    ¬ DeliversTo sample a.transcript d := by
  have h1 : approved = .ok approver := Except.eq_ok_get _
  have h2 : awaited otherOffer = .ok (true, approver' otherOffer) := by decide
  have h3 := Except.eq_ok_get
    (by decide : ((approver' otherOffer).handOver sample handOver).toBool = true)
  have hid : approver.transcript.joinerDeviceID = Sample.id 0x0b := by
    decide
  refine ⟨_, _, _, h1, h2, h3, hid, by decide, by decide, by decide, ?_⟩
  intro hto
  have := hto.deviceID
  revert this
  decide

/-! ## The joiner -/

namespace Joiner

theorem readTranscript_ok {j j' : Joiner} {now : ℤ} {response : Except Error PairingResponse}
    {tr : PairingTranscript} (h : j.readTranscript C now response = .ok (tr, j')) :
    j' = { j with transcript := some tr } := by
  simp only [readTranscript, Except.bind_eq_ok] at h
  obtain ⟨session, -, -, -, h⟩ := h
  rcases ha : session.approver with _ | approval
  · simp [ha] at h
  · rcases hc : session.approverConfirmation with _ | conf
    · simp [ha, hc, Except.bind_eq_ok] at h
    · simp only [ha, hc, Except.bind_eq_ok, Except.pure_eq_ok, Except.ok.injEq,
        Prod.mk.injEq] at h
      obtain ⟨_, -, -, -, -, -, rfl, rfl⟩ := h
      rfl

end Joiner

theorem openBundle_ok {sealedBundle identity sender : Bytes} {b : Bundle}
    (h : openBundle C sealedBundle identity sender = .ok b) :
    ∃ raw signed, C.openWith identity sealedBundle = some raw ∧
      C.unmarshalBundle raw = some signed ∧ signed.bundle = b ∧
      C.verify sender bundleSignatureDomain (C.canonical (.bundle b)) signed.signature = true := by
  unfold openBundle at h
  rcases hraw : C.openWith identity sealedBundle with _ | raw
  · simp [hraw] at h
  · rcases hs : C.unmarshalBundle raw with _ | signed
    · simp [hraw, hs] at h
    · simp only [hraw, hs, Except.bind_eq_ok, Except.require_eq_ok, Except.pure_eq_ok,
        Except.ok.injEq] at h
      obtain ⟨-, -, -, hv, -, -, rfl⟩ := h
      exact ⟨raw, signed, rfl, hs, rfl, hv⟩

/-- The events the joiner folds: those served, and the delivered one unless it
    is among them. -/
def Folds (C : Suite) (events : List SignedMembershipEvent) (ev s : SignedMembershipEvent) : Prop :=
  s ∈ events ∨ s = ev ∧ containsEvent C events ev = .ok false

/-- What a delivery was checked against: a chain folded from the served events,
    and the key that chain gives to the device the event names. -/
theorem Joiner.receive_ok {j : Joiner} {response : Except Error PairingResponse}
    {membership : Except Error (List SignedMembershipEvent)} {fetched : Except Error Bytes}
    {d : Delivery} (h : j.receive C response membership fetched = .ok d) :
    ∃ session events key, response = .ok session ∧ membership = .ok events ∧
      session.membershipEvent = some d.event ∧
      (∀ k, (∃ s, Folds C events d.event s ∧ s.event.action = .enroll ∧
          s.event.deviceID = d.event.event.authorizedBy ∧ s.event.deviceVerifyKey = some k) ↔
        k = key) ∧
      openBundle C session.bundle j.id.encryption key = .ok d.bundle := by
  unfold receive at h
  rcases htr : j.transcript with _ | tr
  · simp [htr] at h
  · simp only [htr, Except.bind_eq_ok] at h
    obtain ⟨session, hresp, -, -, h⟩ := h
    rcases hev : session.membershipEvent with _ | ev
    · simp [hev] at h
    · rcases hg : session.genesis with _ | genesis
      · simp [hev, hg, Except.bind_eq_ok] at h
      · simp only [hev, hg, Except.bind_eq_ok] at h
        obtain ⟨-, -, -, -, -, -, events, hmem, chain, hchain, -, -, -, -, published, hpub,
          extended, hext, -, -, h⟩ := h
        rcases hdev : extended.device ev.event.authorizedBy with _ | approver
        · simp [hdev] at h
        · simp only [hdev, Except.bind_eq_ok, Except.pure_eq_ok, Except.ok.injEq] at h
          obtain ⟨bundle, hopen, -, -, -, -, -, -, snapshot, -, rfl⟩ := h
          simp only [Except.mapError_eq_ok] at hmem hchain
          obtain ⟨hevents, -, hen⟩ := Membership.validate_events hchain
          have hfold : extended.Enrols ∧ ∀ s, s ∈ extended.events ↔ Folds C events ev s := by
            cases published with
            | true =>
              simp only [if_true, Except.ok.injEq] at hext
              subst hext
              exact ⟨hen, fun s => by simp [Folds, hevents, hpub]⟩
            | false =>
              simp only [Bool.false_eq_true, if_false, Except.mapError_eq_ok] at hext
              obtain ⟨-, -, hev', -⟩ := Membership.Chain.apply_ok hext
              exact ⟨hen.apply hext, fun s => by simp [Folds, hev', hevents, hpub]⟩
          obtain ⟨hen', hmem'⟩ := hfold
          refine ⟨session, events, approver.verifyKey, hresp, hmem, hev, fun k => ?_, hopen⟩
          constructor
          · rintro ⟨s, hs, ha, hid, hk⟩
            obtain ⟨d, hd, hkey⟩ := hen'.complete s ((hmem' s).2 hs) ha
            rw [hid, hdev] at hd
            cases hd
            exact Option.some.inj (hk.symm.trans hkey)
          · rintro rfl
            obtain ⟨s, hs, ha, hid, hk⟩ := hen'.sound _ _ hdev
            exact ⟨s, (hmem' s).1 hs, ha, hid, hk⟩

/-- The enrolment is authorized by the approver of the transcript, and the bundle
    the session carries is signed under the approver's key. -/
structure FromApprover (C : Suite) (tr : PairingTranscript) (j : Joiner)
    (response : Except Error PairingResponse) (d : Delivery) : Prop where
  authorizedBy : d.event.event.authorizedBy = tr.approverDeviceID
  signed : ∃ session raw signed, response = .ok session ∧
    C.openWith j.id.encryption session.bundle = some raw ∧
    C.unmarshalBundle raw = some signed ∧ signed.bundle = d.bundle ∧
    C.verify tr.approverVerifyKey bundleSignatureDomain (C.canonical (.bundle d.bundle))
      signed.signature = true

/-- The served event names the approver of the transcript, and the served events
    enrol that device with the transcript's key. -/
def NamesApprover (C : Suite) (tr : PairingTranscript) (response : Except Error PairingResponse)
    (membership : Except Error (List SignedMembershipEvent)) : Prop :=
  ∃ session events ev s, response = .ok session ∧ membership = .ok events ∧
    session.membershipEvent = some ev ∧ ev.event.authorizedBy = tr.approverDeviceID ∧
    Folds C events ev s ∧ s.event.action = .enroll ∧ s.event.deviceID = tr.approverDeviceID ∧
    s.event.deviceVerifyKey = some tr.approverVerifyKey

/-- **Whose keys the joiner accepts.**  Whatever the relay answers to `Transcript`
    (`first`) and to the requests of `Receive`: a delivery comes from the approver of
    the compared transcript if and only if the served event names that approver and
    the served events enrol it with the transcript's key. -/
theorem receives_iff (hkey : C.KeyBound) {j j' : Joiner} {now : ℤ} {tr : PairingTranscript}
    {first response : Except Error PairingResponse}
    {membership : Except Error (List SignedMembershipEvent)} {fetched : Except Error Bytes}
    {d : Delivery} (hread : j.readTranscript C now first = .ok (tr, j'))
    (hreceive : j'.receive C response membership fetched = .ok d) :
    FromApprover C tr j response d ↔ NamesApprover C tr response membership := by
  obtain rfl := Joiner.readTranscript_ok hread
  obtain ⟨session, events, key, hresp, hmem, hev, hfold, hopen⟩ := Joiner.receive_ok hreceive
  obtain ⟨raw, signed, hraw, hsigned, hb, hverify⟩ := openBundle_ok hopen
  constructor
  · rintro ⟨hby, session', raw', signed', hresp', hraw', hsigned', -, hverify'⟩
    obtain rfl : session = session' := Except.ok.inj (hresp.symm.trans hresp')
    obtain rfl : raw = raw' := Option.some.inj (hraw.symm.trans hraw')
    obtain rfl : signed = signed' := Option.some.inj (hsigned.symm.trans hsigned')
    obtain ⟨s, hs, ha, hid, hk⟩ := (hfold tr.approverVerifyKey).2 (hkey _ _ _ _ _ hverify' hverify)
    exact ⟨session, events, d.event, s, hresp, hmem, hev, hby, hs, ha, hid.trans hby, hk⟩
  · rintro ⟨session', events', ev, s, hresp', hmem', hev', hby, hs, ha, hid, hk⟩
    obtain rfl : session = session' := Except.ok.inj (hresp.symm.trans hresp')
    obtain rfl : events = events' := Except.ok.inj (hmem.symm.trans hmem')
    obtain rfl : d.event = ev := Option.some.inj (hev.symm.trans hev')
    have hk' := (hfold tr.approverVerifyKey).1 ⟨s, hs, ha, hid.trans hby.symm, hk⟩
    exact ⟨hby, session, raw, signed, hresp, hraw, hsigned, hb, hk' ▸ hverify⟩

/-! ### A relay that founds its own vault -/

namespace Session05

open Sample (genesis founded root)

/-- The enrolment of the joiner and the bundle for it, made by that device. -/
def enrolment (id : ID) (k : Bytes) (r : String) :
    Except Error (SignedMembershipEvent × SignedBundle) := do
  let chain ← Membership.validate sample (founded id k r) [root id k r]
  let digest := approver.transcript.digest sample
  let ev ← chain.enroll sample { deviceID := id, key := k }
    { id := Sample.id 0x0b, verifyKey := [11], recipient := "B" } digest 0 (Sample.id 0x08) []
  let h := { handOver with
    genesis := founded id k r, signer := { deviceID := id, key := k }, chain := chain }
  let b ← h.enrollmentBundle sample (Sample.id 0x0b) "B" digest none 0
  return (ev, b)

/-- The sample primitives with a decoder for the bundle `b`. -/
def decoding (b : SignedBundle) : Suite :=
  { sample with
    unmarshalBundle := fun raw => if raw = sample.canonical (.signedBundle b) then some b else none }

theorem decoding_keyBound (b : SignedBundle) : (decoding b).KeyBound := sample_keyBound

def joiner : Joiner :=
  { id := { deviceID := Sample.id 0x0b, signing := [11], encryption := [66] },
    vaultID := Sample.id 0x01, sessionID := Sample.id 0x05,
    offer := { offer := joinerOffer, signature := (session joinerOffer none).offerSignature },
    transcript := none }

/-- The approver's confirmation of the transcript. -/
def approval : SignedPairingConfirmation :=
  let c : PairingConfirmation :=
    { domain := pairingConfirmDomain, formatVersion := 1, vaultID := Sample.id 0x01,
      sessionID := Sample.id 0x05, deviceID := Sample.id 0x0a,
      transcriptDigest := approver.transcript.digest sample, createdAt := "t0" }
  { confirmation := c
    signature := sample.sign [10] [] pairingConfirmDomain (sample.canonical (.pairingConfirmation c)) }

/-- What the relay answers to `Transcript`. -/
def compared : Except Error PairingResponse :=
  .ok { session joinerOffer none with
    approver := some approver.approval, approverConfirmation := some approval }

/-- What it answers to `Receive`. -/
def served (g : Genesis) (e : SignedMembershipEvent × SignedBundle) : Except Error PairingResponse :=
  .ok { session joinerOffer (some confirmation) with
    membershipEvent := some e.1, genesis := some g,
    bundle := sample.sealTo (sample.canonical (.signedBundle e.2)) "B" [] }

/-- The joiner after the comparison. -/
def joined : Joiner := { joiner with transcript := some approver.transcript }

/-- The enrolment by the approver of the transcript. -/
def honest : SignedMembershipEvent × SignedBundle :=
  (enrolment (Sample.id 0x0a) [10] "A").get (by decide)

/-- The enrolment by a device the relay made up. -/
def rogue : SignedMembershipEvent × SignedBundle :=
  (enrolment (Sample.id 0x0e) [14] "E").get (by decide)

/-- What the joiner makes of an enrolment by the device `id`. -/
def received (e : SignedMembershipEvent × SignedBundle) (id : ID) (k : Bytes) (r : String) :
    Except Error Delivery :=
  joined.receive (decoding e.2) (served (founded id k r) e) (.ok [root id k r]) (.error (.new ""))

end Session05

open Session05 Sample in
/-- Against a relay that passes on what the approver delivered, the joiner gets
    the approver's keys. -/
theorem receives_from_approver : ∃ d,
    joiner.readTranscript (decoding honest.2) 0 compared = .ok (approver.transcript, joined) ∧
    received honest (Sample.id 0x0a) [10] "A" = .ok d ∧
    FromApprover (decoding honest.2) approver.transcript joiner
      (served (founded (Sample.id 0x0a) [10] "A") honest) d := by
  have h1 : joiner.readTranscript (decoding honest.2) 0 compared =
      .ok (approver.transcript, joined) := by decide
  have h2 := Except.eq_ok_get
    (by decide : (received honest (Sample.id 0x0a) [10] "A").toBool = true)
  have hby : honest.1.event.authorizedBy = approver.transcript.approverDeviceID := by
    decide
  have hid : (root (Sample.id 0x0a) [10] "A").event.deviceID =
      approver.transcript.approverDeviceID := by decide
  have hkey : (root (Sample.id 0x0a) [10] "A").event.deviceVerifyKey =
      some approver.transcript.approverVerifyKey := by decide
  have hnames : NamesApprover (decoding honest.2) approver.transcript
      (served (founded (Sample.id 0x0a) [10] "A") honest)
      (.ok [root (Sample.id 0x0a) [10] "A"]) :=
    ⟨_, _, honest.1, root (Sample.id 0x0a) [10] "A", rfl, rfl, rfl, hby,
      Or.inl (List.mem_cons_self ..), rfl, hid, hkey⟩
  exact ⟨_, h1, h2, (receives_iff (decoding_keyBound _) h1 h2).2 hnames⟩

open Session05 Sample in
/-- The relay serves the approver's part of the transcript and then a genesis, a
    chain, an enrolment and a bundle of its own: the joiner accepts them. -/
theorem receives_from_other : ∃ d,
    joiner.readTranscript (decoding rogue.2) 0 compared = .ok (approver.transcript, joined) ∧
    joined.receive (decoding rogue.2) (served (founded (Sample.id 0x0e) [14] "E") rogue)
      (.ok [root (Sample.id 0x0e) [14] "E"]) (.error (.new "")) = .ok d ∧
    approver.transcript.approverDeviceID = Sample.id 0x0a ∧
    d.event.event.authorizedBy = Sample.id 0x0e ∧
    ¬ FromApprover (decoding rogue.2) approver.transcript joiner
      (served (founded (Sample.id 0x0e) [14] "E") rogue) d := by
  have h1 : joiner.readTranscript (decoding rogue.2) 0 compared =
      .ok (approver.transcript, joined) := by decide
  have h2 := Except.eq_ok_get
    (by decide : (received rogue (Sample.id 0x0e) [14] "E").toBool = true)
  refine ⟨_, h1, h2, by decide, by decide, fun hfrom => ?_⟩
  have := hfrom.authorizedBy
  revert this
  decide

end Sshstate.Enroll
