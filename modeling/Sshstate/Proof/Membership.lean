/-
  What one membership event does to a chain (`apply_ok`), and what a validated
  chain therefore knows: exactly the devices its events enrol, each with the key
  of its enrolment (`validate_events`).
-/
import Sshstate.Membership.Chain

namespace Sshstate.Membership

variable {C : Suite}

namespace Chain

/-- The device an enrolment adds. -/
def enrolled (ev : MembershipEvent) : Device :=
  { id := ev.deviceID, verifyKey := ev.deviceVerifyKey.getD [],
    recipient := ev.deviceRecipient.getD "", enrolledAt := ev.createdAt,
    enrolledBy := ev.authorizedBy, revoked := false, revokedAt := "", enrollSeq := ev.chainSeq,
    revokeSeq := 0 }

/-- A device after a revocation by `ev`, if it is the one revoked. -/
def revokeBy (ev : MembershipEvent) (d : Device) : Device :=
  if d.id = ev.deviceID then
    { d with revoked := true, revokedAt := ev.createdAt, revokeSeq := ev.chainSeq } else d

theorem applyAction_ok {c c' : Chain} {ev : MembershipEvent} (h : c.applyAction C ev = .ok c') :
    (ev.action = .enroll ∧ c.device ev.deviceID = none ∧
        C.verifyKeyOK (enrolled ev).verifyKey = true ∧
        c' = { c with devices := c.devices ++ [enrolled ev] }) ∨
    (ev.action = .revoke ∧ c' = { c with devices := c.devices.map (revokeBy ev) }) := by
  unfold applyAction at h
  cases ha : ev.action with
  | enroll =>
    simp only [ha, Except.bind_eq_ok, Except.require_eq_ok, Except.mapError_eq_ok,
      Suite.verifyKeyFromBytes_eq_ok, Except.pure_eq_ok, Except.ok.injEq] at h
    obtain ⟨-, hnone, _, ⟨hkey, rfl⟩, -, -, rfl⟩ := h
    exact Or.inl ⟨rfl, hnone, hkey, rfl⟩
  | revoke =>
    simp only [ha] at h
    rcases hd : c.device ev.deviceID with _ | d
    · simp [hd] at h
    · simp only [hd, Except.bind_eq_ok, Except.require_eq_ok, Except.pure_eq_ok,
        Except.ok.injEq] at h
      obtain ⟨-, -, -, -, rfl⟩ := h
      exact Or.inr ⟨rfl, rfl⟩
  | other name => simp [ha] at h

/-- **What an event does**: it continues the chain, is signed by the key the chain
    requires, and enrols a device the chain has not seen or revokes one. -/
theorem apply_ok {c c' : Chain} {s : SignedMembershipEvent} (h : c.apply C s = .ok c') :
    s.event.validate C suiteID = .ok () ∧ s.signature ≠ [] ∧
    c'.events = c.events ++ [s] ∧ c'.genesis = c.genesis ∧
    ((s.event.action = .enroll ∧ c.device s.event.deviceID = none ∧
        C.verifyKeyOK (enrolled s.event).verifyKey = true ∧
        c'.devices = c.devices ++ [enrolled s.event]) ∨
     (s.event.action = .revoke ∧ c'.devices = c.devices.map (revokeBy s.event))) := by
  simp only [apply, Except.bind_eq_ok, Except.pure_eq_ok, Except.ok.injEq] at h
  obtain ⟨_, hv, -, -, -, -, -, -, _, -, -, -, c'', hact, d, hd, rfl⟩ := h
  have hsig := ((SignedMembershipEvent.digest_eq_ok C).1 hd).1
  rcases applyAction_ok hact with ⟨ha, hnone, hkey, rfl⟩ | ⟨ha, rfl⟩
  · exact ⟨hv, hsig, rfl, rfl, Or.inl ⟨ha, hnone, hkey, rfl⟩⟩
  · exact ⟨hv, hsig, rfl, rfl, Or.inr ⟨ha, rfl⟩⟩

theorem device_append (c : Chain) (d : Device) (id : ID) (ds : List Device)
    (hds : ds = c.devices ++ [d]) :
    ds.find? (·.id = id) = (c.device id).or (if d.id = id then some d else none) := by
  subst hds
  rw [List.find?_append, device]
  by_cases hd : d.id = id <;> simp [hd]

@[simp] theorem revokeBy_id (ev : MembershipEvent) (d : Device) : (revokeBy ev d).id = d.id := by
  unfold revokeBy; split_ifs <;> rfl

@[simp] theorem revokeBy_verifyKey (ev : MembershipEvent) (d : Device) :
    (revokeBy ev d).verifyKey = d.verifyKey := by unfold revokeBy; split_ifs <;> rfl

theorem find?_revokeBy (ev : MembershipEvent) (ds : List Device) (id : ID) :
    (ds.map (revokeBy ev)).find? (·.id = id) = (ds.find? (·.id = id)).map (revokeBy ev) := by
  rw [List.find?_map]
  have hcomp : (fun d : Device => decide (d.id = id)) ∘ revokeBy ev = fun d => decide (d.id = id) :=
    funext fun d => by simp
  rw [hcomp]

theorem device_revoke {c c' : Chain} {ev : MembershipEvent}
    (hds : c'.devices = c.devices.map (revokeBy ev)) (id : ID) :
    c'.device id = (c.device id).map (revokeBy ev) := by
  rw [device, hds, find?_revokeBy]; rfl

/-- The chain knows the devices its events enrol, each with the key of its enrolment. -/
structure Enrols (c : Chain) : Prop where
  sound : ∀ id d, c.device id = some d →
    ∃ s ∈ c.events, s.event.action = .enroll ∧ s.event.deviceID = id ∧
      s.event.deviceVerifyKey = some d.verifyKey
  complete : ∀ s ∈ c.events, s.event.action = .enroll →
    ∃ d, c.device s.event.deviceID = some d ∧ s.event.deviceVerifyKey = some d.verifyKey

/-- A valid enrolment carries a key. -/
theorem verifyKey_of_validate {e : MembershipEvent} (h : e.validate C suiteID = .ok ())
    (ha : e.action = .enroll) : e.deviceVerifyKey = some (e.deviceVerifyKey.getD []) := by
  simp only [MembershipEvent.validate, Except.bind_eq_ok] at h
  obtain ⟨-, -, -, -, -, -, -, -, -, -, -, -, -, -, -, -, -, -, -, -, -, -, -, -, hact⟩ := h
  simp only [MembershipEvent.validateAction, ha, Except.bind_eq_ok, Except.require_eq_ok] at hact
  obtain ⟨-, ⟨hk, -⟩, -⟩ := hact
  rcases hkey : e.deviceVerifyKey with _ | k
  · rw [hkey] at hk; exact absurd rfl hk
  · rfl

theorem Enrols.apply {c c' : Chain} {s : SignedMembershipEvent} (hc : c.Enrols)
    (h : c.apply C s = .ok c') : c'.Enrols := by
  obtain ⟨hv, -, hev, -, ⟨ha, hnone, -, hds⟩ | ⟨ha, hds⟩⟩ := apply_ok h
  · have hkey := verifyKey_of_validate hv ha
    have hdev : ∀ id, c'.device id =
        (c.device id).or (if s.event.deviceID = id then some (enrolled s.event) else none) :=
      fun id => device_append c _ id _ hds
    refine ⟨fun id d hd => ?_, fun t ht hta => ?_⟩
    · rw [hdev] at hd
      rcases hcd : c.device id with _ | d'
      · rw [hcd] at hd
        simp only [Option.none_or] at hd
        split_ifs at hd with hid
        cases hd
        exact ⟨s, by simp [hev], ha, hid, hkey⟩
      · rw [hcd] at hd
        obtain rfl : d' = d := Option.some.inj hd
        obtain ⟨t, ht, h1, h2, h3⟩ := hc.sound id d' hcd
        exact ⟨t, by simp [hev, ht], h1, h2, h3⟩
    · rw [hev] at ht
      rcases List.mem_append.1 ht with ht | ht
      · obtain ⟨d, hd, hk⟩ := hc.complete t ht hta
        exact ⟨d, by rw [hdev, hd]; rfl, hk⟩
      · obtain rfl := List.mem_singleton.1 ht
        exact ⟨enrolled t.event, by simp [hdev, hnone], hkey⟩
  · have hdev := device_revoke hds
    refine ⟨fun id d hd => ?_, fun t ht hta => ?_⟩
    · rw [hdev, Option.map_eq_some_iff] at hd
      obtain ⟨d', hd', rfl⟩ := hd
      obtain ⟨t, ht, h1, h2, h3⟩ := hc.sound id d' hd'
      exact ⟨t, by simp [hev, ht], h1, h2, by simpa using h3⟩
    · rw [hev] at ht
      rcases List.mem_append.1 ht with ht | ht
      · obtain ⟨d, hd, hk⟩ := hc.complete t ht hta
        exact ⟨_, by rw [hdev, hd]; rfl, by simpa using hk⟩
      · rw [List.mem_singleton.1 ht, ha] at hta; cases hta

end Chain

/-- A chain folded from genesis keeps the events it was folded from. -/
theorem validate_events {g : Genesis} {events : List SignedMembershipEvent} {c : Chain}
    (h : validate C g events = .ok c) : c.events = events ∧ c.genesis = g ∧ c.Enrols := by
  simp only [validate, Except.bind_eq_ok] at h
  obtain ⟨-, -, -, -, h⟩ := h
  induction events using List.reverseRecOn generalizing c with
  | nil => cases h; exact ⟨rfl, rfl, by simp [Chain.start, Chain.device], by simp [Chain.start]⟩
  | append_singleton events s ih =>
    rw [List.foldlM_append, Except.bind_eq_ok] at h
    obtain ⟨c', hc', hs⟩ := h
    obtain ⟨hev, hg, hen⟩ := ih hc'
    simp only [List.foldlM_cons, List.foldlM_nil, Except.bind_eq_ok, Except.mapError_eq_ok,
      Except.pure_eq_ok, Except.ok.injEq] at hs
    obtain ⟨c'', hs, rfl⟩ := hs
    obtain ⟨-, -, hev', hg', -⟩ := Chain.apply_ok hs
    exact ⟨by rw [hev', hev], by rw [hg', hg], hen.apply hs⟩

/-! ## Longer chains -/

theorem validate_append {g : Genesis} {events more : List SignedMembershipEvent} {c : Chain}
    (hne : events ≠ []) (h : validate C g (events ++ more) = .ok c) :
    ∃ c₀, validate C g events = .ok c₀ ∧ more.foldlM (fun c ev => (c.apply C ev).mapError
      (Error.wrap "membership event %d: %w" [toString (c.events.length + 1)])) c₀ = .ok c := by
  simp only [validate, Except.bind_eq_ok, Except.require_eq_ok, List.foldlM_append] at h ⊢
  obtain ⟨_, hg, _, -, c₀, h₀, h₁⟩ := h
  exact ⟨c₀, ⟨(), hg, (), hne, h₀⟩, h₁⟩

/-- A valid chain and one more event. -/
theorem validate_concat {g : Genesis} {events : List SignedMembershipEvent} {c c' : Chain}
    {ev : SignedMembershipEvent} (h : validate C g events = .ok c) (h' : c.apply C ev = .ok c') :
    validate C g (events ++ [ev]) = .ok c' := by
  simp only [validate, Except.bind_eq_ok, Except.require_eq_ok, List.foldlM_append] at h ⊢
  obtain ⟨_, hg, _, -, h⟩ := h
  exact ⟨(), hg, (), by simp, c, h, by simp [h', Except.mapError]⟩

end Sshstate.Membership
