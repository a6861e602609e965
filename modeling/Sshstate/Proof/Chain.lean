/-
  What a validated membership chain guarantees, whatever its length.

  The record a chain keeps of a device names the events that made it: its
  `enrollSeq` is the place of the only event that enrols the device and its
  `revokeSeq` the place of the only event that revokes it (`Chain.Sound`).  Every
  event after the root is signed under the recovery key of genesis or under the
  key of a device that the events before it enrol and do not revoke
  (`apply_signed`), and a longer chain keeps what a shorter one knows
  (`Device.Keeps`).  `validate_sound` puts these together.  Since every event names
  the digest of the one before it, the digest of the head fixes the whole list
  (`head_determines_events`).
-/
import Sshstate.Proof.Membership
import Sshstate.Protocol.Sample

namespace Sshstate.Membership

variable {C : Suite}

/-- The event at place `i` (counted from 0) enrols `id` with `key`. -/
def EnrolsAt (events : List SignedMembershipEvent) (id : ID) (key : Bytes) (i : ℕ) : Prop :=
  ∃ s, events[i]? = some s ∧ s.event.action = .enroll ∧ s.event.deviceID = id ∧
    s.event.deviceVerifyKey = some key

/-- The event at place `i` revokes `id`. -/
def RevokesAt (events : List SignedMembershipEvent) (id : ID) (i : ℕ) : Prop :=
  ∃ s, events[i]? = some s ∧ s.event.action = .revoke ∧ s.event.deviceID = id

/-- The signature of an event verifies under a key. -/
def SignedUnder (C : Suite) (key : Bytes) (s : SignedMembershipEvent) : Prop :=
  C.verifySignature key membershipSignatureDomain (C.canonical (.membershipEvent s.event))
    s.signature = .ok ()

/-- A later record of a device: the same key, recipient and place of enrolment,
    and revoked if it was revoked before. -/
structure Device.Keeps (d d' : Device) : Prop where
  verifyKey : d'.verifyKey = d.verifyKey
  recipient : d'.recipient = d.recipient
  enrollSeq : d'.enrollSeq = d.enrollSeq
  revoked : d.revoked = true → d'.revoked = true

theorem Device.Keeps.refl (d : Device) : d.Keeps d := ⟨rfl, rfl, rfl, fun hr => hr⟩

theorem Device.Keeps.trans {d d' d'' : Device} (h : d.Keeps d') (h' : d'.Keeps d'') :
    d.Keeps d'' :=
  ⟨h'.verifyKey.trans h.verifyKey, h'.recipient.trans h.recipient,
    h'.enrollSeq.trans h.enrollSeq, fun hr => h'.revoked (h.revoked hr)⟩

theorem EnrolsAt.append {events : List SignedMembershipEvent} {id : ID} {key : Bytes} {i : ℕ}
    (h : EnrolsAt events id key i) (more : List SignedMembershipEvent) :
    EnrolsAt (events ++ more) id key i := by
  obtain ⟨s, hs, h⟩ := h
  exact ⟨s, by rw [List.getElem?_append_left (List.getElem?_eq_some_iff.1 hs).1]; exact hs, h⟩

namespace Chain

/-! ## One event -/

theorem keeps_revokeBy (ev : MembershipEvent) (d : Device) : d.Keeps (revokeBy ev d) := by
  unfold revokeBy
  split_ifs
  · exact ⟨rfl, rfl, rfl, fun _ => rfl⟩
  · exact ⟨rfl, rfl, rfl, id⟩

/-- The signer of an event is the recovery key, the key the root event itself
    carries, or the key of an active device. -/
theorem apply_signed {c c' : Chain} {s : SignedMembershipEvent} (h : c.apply C s = .ok c')
    (hne : c.events ≠ []) :
    SignedUnder C c.genesis.recoveryVerifyKey s ∨
      ∃ id d, c.device id = some d ∧ d.revoked = false ∧ SignedUnder C d.verifyKey s := by
  simp only [apply, Except.bind_eq_ok, Except.mapError_eq_ok] at h
  obtain ⟨-, -, -, -, -, -, -, -, signer, hsigner, _, hsig, -⟩ := h
  unfold signerKey at hsigner
  split_ifs at hsigner
  · obtain ⟨-, rfl⟩ := (Suite.verifyKeyFromBytes_eq_ok C).1 hsigner
    exact Or.inl hsig
  · rcases hd : c.device s.event.authorizedBy with _ | d
    · simp [hd] at hsigner
    · simp only [hd] at hsigner
      split_ifs at hsigner with hr
      cases hsigner
      exact Or.inr ⟨_, d, hd, Bool.not_eq_true _ ▸ hr, hsig⟩

theorem apply_chainSeq {c c' : Chain} {s : SignedMembershipEvent} (h : c.apply C s = .ok c') :
    s.event.chainSeq = c.events.length + 1 := by
  simp only [apply, Except.bind_eq_ok, Except.require_eq_ok] at h
  obtain ⟨-, -, -, -, -, hseq, -⟩ := h
  exact hseq

/-- A revocation names an active device, and not the last one. -/
theorem apply_revoke {c c' : Chain} {s : SignedMembershipEvent} (h : c.apply C s = .ok c')
    (ha : s.event.action = .revoke) :
    c.authorizedCount ≠ 1 ∧ ∃ d, c.device s.event.deviceID = some d ∧ d.revoked = false := by
  simp only [apply, Except.bind_eq_ok] at h
  obtain ⟨-, -, -, -, -, -, -, -, -, -, -, -, _, hact, -⟩ := h
  simp only [applyAction, ha] at hact
  rcases hd : c.device s.event.deviceID with _ | d
  · simp [hd] at hact
  · simp only [hd, Except.bind_eq_ok, Except.require_eq_ok] at hact
    obtain ⟨-, hr, -, hcount, -⟩ := hact
    exact ⟨hcount, d, rfl, hr⟩

/-- A device a chain knows is known after an event. -/
theorem keeps_of_apply {c c' : Chain} {s : SignedMembershipEvent} (h : c.apply C s = .ok c')
    {id : ID} {d : Device} (hd : c.device id = some d) :
    ∃ d', c'.device id = some d' ∧ d.Keeps d' := by
  obtain ⟨-, -, -, -, ⟨-, -, -, hds⟩ | ⟨-, hds⟩⟩ := apply_ok h
  · exact ⟨d, by rw [device, device_append c _ id _ hds, hd]; rfl, .refl d⟩
  · exact ⟨_, by rw [device_revoke hds, hd]; rfl, keeps_revokeBy _ d⟩

/-! ## The events behind the records -/

/-- The records of a chain name the events that made them, and some device is
    active once there is an event. -/
structure Sound (c : Chain) : Prop where
  ids : (c.devices.map (·.id)).Nodup
  enrolment : ∀ i s, c.events[i]? = some s → s.event.action = .enroll →
    ∃ d, c.device s.event.deviceID = some d ∧ d.enrollSeq = i + 1
  revocation : ∀ i s, c.events[i]? = some s → s.event.action = .revoke →
    ∃ d, c.device s.event.deviceID = some d ∧ d.revoked = true ∧ d.revokeSeq = i + 1 ∧
      d.enrollSeq ≤ i
  origin : ∀ id d, c.device id = some d → ∃ i, EnrolsAt c.events id d.verifyKey i
  active : c.events ≠ [] → ∃ d ∈ c.devices, d.revoked = false

theorem device_of_mem {c : Chain} (hn : (c.devices.map (·.id)).Nodup) {d : Device}
    (hd : d ∈ c.devices) : c.device d.id = some d := by
  rw [device, List.find?_eq_some_iff_append]
  obtain ⟨l, r, hl⟩ := List.append_of_mem hd
  refine ⟨by simp, l, r, hl, fun x hx => ?_⟩
  rw [hl, List.map_append, List.nodup_append] at hn
  simpa using hn.2.2 _ (List.mem_map_of_mem hx) d.id (by simp)

theorem Sound.exists_authorized {c : Chain} (hc : c.Sound) (hne : c.events ≠ []) :
    ∃ id, c.authorized id = true := by
  obtain ⟨d, hd, hr⟩ := hc.active hne
  exact ⟨d.id, by simp [authorized, device_of_mem hc.ids hd, hr]⟩

/-- Two active devices leave one after a revocation. -/
theorem active_revokeBy {ds : List Device} (hn : (ds.map (·.id)).Nodup)
    (hcount : 1 < ds.countP (!·.revoked)) (ev : MembershipEvent) :
    ∃ d ∈ ds.map (revokeBy ev), d.revoked = false := by
  by_contra hnone
  push Not at hnone
  have hall : ∀ i ∈ (ds.filter (!·.revoked)).map (·.id), i = ev.deviceID := by
    simp only [List.mem_map, List.mem_filter, Bool.not_eq_true', forall_exists_index, and_imp]
    rintro _ d hd hr rfl
    by_contra hid
    exact hnone _ (List.mem_map_of_mem hd) (by simp [revokeBy, hid, hr])
  have hnodup := hn.sublist ((List.filter_sublist (p := (!·.revoked))).map Device.id)
  rw [List.eq_replicate_of_mem hall, List.nodup_replicate, List.length_map,
    ← List.countP_eq_length_filter] at hnodup
  omega

theorem Sound.start (g : Genesis) : (Chain.start g).Sound :=
  ⟨by simp [Chain.start], by simp [Chain.start], by simp [Chain.start],
    by simp [Chain.start, Chain.device], fun h => absurd rfl h⟩

/-- The events of the longer chain: an old one at its place, or the new one. -/
theorem getElem?_concat_cases {α : Type} {l : List α} {a x : α} {i : ℕ}
    (h : (l ++ [a])[i]? = some x) : l[i]? = some x ∨ (i = l.length ∧ x = a) := by
  rcases Nat.lt_trichotomy i l.length with hi | rfl | hi
  · rw [List.getElem?_append_left hi] at h; exact Or.inl h
  · simp at h; exact Or.inr ⟨rfl, h.symm⟩
  · rw [List.getElem?_eq_none (by simp; omega)] at h; cases h

theorem device_id {c : Chain} {id : ID} {d : Device} (h : c.device id = some d) : d.id = id := by
  simpa using List.find?_some h

theorem Sound.enroll {c c' : Chain} {s : SignedMembershipEvent} (hc : c.Sound)
    (h : c.apply C s = .ok c') (ha : s.event.action = .enroll) : c'.Sound := by
  obtain ⟨hv, -, hev, -, ⟨-, hnone, -, hds⟩ | ⟨hr, -⟩⟩ := apply_ok h
  · have hdev : ∀ id, c'.device id =
        (c.device id).or (if s.event.deviceID = id then some (enrolled s.event) else none) :=
      fun id => device_append c _ id _ hds
    have hold : ∀ {id d}, c.device id = some d → c'.device id = some d := by
      intro id d hd; rw [hdev, hd]; rfl
    refine ⟨?_, fun i t ht hta => ?_, fun i t ht hta => ?_, fun id d hd => ?_, fun _ => ?_⟩
    · rw [hds, List.map_append, List.nodup_append]
      refine ⟨hc.ids, List.nodup_singleton _, fun a hmem b hb hab => ?_⟩
      obtain ⟨x, hx, rfl⟩ := List.mem_map.1 hmem
      have hid : x.id = s.event.deviceID := hab.trans (List.mem_singleton.1 hb)
      exact absurd hid (by simpa using List.find?_eq_none.1 hnone x hx)
    · rw [hev] at ht
      rcases getElem?_concat_cases ht with ht | ⟨rfl, rfl⟩
      · obtain ⟨d, hd, hseq⟩ := hc.enrolment i t ht hta
        exact ⟨d, hold hd, hseq⟩
      · exact ⟨enrolled t.event, by simp [hdev, hnone], apply_chainSeq h⟩
    · rw [hev] at ht
      rcases getElem?_concat_cases ht with ht | ⟨rfl, rfl⟩
      · obtain ⟨d, hd, hrest⟩ := hc.revocation i t ht hta
        exact ⟨d, hold hd, hrest⟩
      · rw [ha] at hta; cases hta
    · rw [hev]
      rcases hcd : c.device id with _ | d'
      · rw [hdev, hcd, Option.none_or] at hd
        split_ifs at hd with hid
        cases hd
        exact ⟨c.events.length, s, by simp, ha, hid, verifyKey_of_validate hv ha⟩
      · obtain rfl : d' = d := Option.some.inj ((hold hcd).symm.trans hd)
        obtain ⟨i, hi⟩ := hc.origin id d' hcd
        exact ⟨i, hi.append [s]⟩
    · exact ⟨enrolled s.event, by simp [hds], rfl⟩
  · rw [ha] at hr; cases hr

theorem Sound.revoke {c c' : Chain} {s : SignedMembershipEvent} (hc : c.Sound)
    (h : c.apply C s = .ok c') (ha : s.event.action = .revoke) : c'.Sound := by
  obtain ⟨hcount, x, hx, hactive⟩ := apply_revoke h ha
  obtain ⟨-, -, hev, -, ⟨he, -⟩ | ⟨-, hds⟩⟩ := apply_ok h
  · rw [ha] at he; cases he
  have hdevs := device_revoke hds
  have hdev : ∀ {id d}, c.device id = some d → c'.device id = some (revokeBy s.event d) := by
    intro id d hd
    rw [hdevs, hd]; rfl
  refine ⟨?_, fun i t ht hta => ?_, fun i t ht hta => ?_, fun id d hd => ?_, fun _ => ?_⟩
  · rw [hds, List.map_map]
    exact (List.map_congr_left fun d _ => revokeBy_id s.event d) ▸ hc.ids
  · rw [hev] at ht
    rcases getElem?_concat_cases ht with ht | ⟨-, rfl⟩
    · obtain ⟨d, hd, hseq⟩ := hc.enrolment i t ht hta
      exact ⟨_, hdev hd, (keeps_revokeBy s.event d).enrollSeq.trans hseq⟩
    · rw [ha] at hta; cases hta
  · rw [hev] at ht
    rcases getElem?_concat_cases ht with ht | ⟨rfl, rfl⟩
    · obtain ⟨d, hd, hr, hseq, hle⟩ := hc.revocation i t ht hta
      -- the event names an active device, so it is not the one revoked before
      have hne : d.id ≠ s.event.deviceID := by
        intro hid
        rw [← hid, device_id hd, hd] at hx
        rw [← Option.some.inj hx, hr] at hactive
        cases hactive
      exact ⟨_, hdev hd, by simp [revokeBy, hne, hr], by simp [revokeBy, hne, hseq],
        by simp [revokeBy, hne, hle]⟩
    · obtain ⟨i, t', ht', hta', hid', -⟩ := hc.origin _ x hx
      obtain ⟨d, hd, hseq⟩ := hc.enrolment i t' ht' hta'
      obtain rfl : x = d := Option.some.inj (hx.symm.trans (hid' ▸ hd))
      have hlt := (List.getElem?_eq_some_iff.1 ht').1
      have hid := device_id hx
      exact ⟨_, hdev hx, by simp [revokeBy, hid], by simp [revokeBy, hid, apply_chainSeq h],
        by simp [revokeBy, hid]; omega⟩
  · rw [hdevs] at hd
    obtain ⟨d', hcd, rfl⟩ := Option.map_eq_some_iff.1 hd
    obtain ⟨i, hi⟩ := hc.origin id d' hcd
    rw [hev, revokeBy_verifyKey]
    exact ⟨i, hi.append [s]⟩
  · rw [hds]
    have hpos : 0 < c.authorizedCount :=
      List.countP_pos_iff.2 ⟨x, List.mem_of_find?_eq_some hx, by simp [hactive]⟩
    exact active_revokeBy hc.ids (by unfold authorizedCount at hcount hpos; omega) s.event

theorem Sound.apply {c c' : Chain} {s : SignedMembershipEvent} (hc : c.Sound)
    (h : c.apply C s = .ok c') : c'.Sound := by
  obtain ⟨-, -, -, -, ⟨ha, -⟩ | ⟨ha, -⟩⟩ := apply_ok h
  · exact hc.enroll h ha
  · exact hc.revoke h ha

/-! ## Places in a sound chain -/

theorem Sound.enrolsAt_unique {c : Chain} (hc : c.Sound) {id : ID} {k k' : Bytes} {i j : ℕ}
    (hi : EnrolsAt c.events id k i) (hj : EnrolsAt c.events id k' j) : i = j := by
  obtain ⟨s, hs, hsa, rfl, -⟩ := hi
  obtain ⟨t, ht, hta, hid, -⟩ := hj
  obtain ⟨d, hd, hseq⟩ := hc.enrolment i s hs hsa
  obtain ⟨d', hd', hseq'⟩ := hc.enrolment j t ht hta
  obtain rfl : d = d' := Option.some.inj (hd.symm.trans (hid ▸ hd'))
  omega

theorem Sound.revokesAt_unique {c : Chain} (hc : c.Sound) {id : ID} {i j : ℕ}
    (hi : RevokesAt c.events id i) (hj : RevokesAt c.events id j) : i = j := by
  obtain ⟨s, hs, hsa, rfl⟩ := hi
  obtain ⟨t, ht, hta, hid⟩ := hj
  obtain ⟨d, hd, -, hseq, -⟩ := hc.revocation i s hs hsa
  obtain ⟨d', hd', -, hseq', -⟩ := hc.revocation j t ht hta
  obtain rfl : d = d' := Option.some.inj (hd.symm.trans (hid ▸ hd'))
  omega

theorem Sound.enrolsAt_lt_revokesAt {c : Chain} (hc : c.Sound) {id : ID} {k : Bytes} {i j : ℕ}
    (hi : EnrolsAt c.events id k i) (hj : RevokesAt c.events id j) : i < j := by
  obtain ⟨s, hs, hsa, rfl, -⟩ := hi
  obtain ⟨t, ht, hta, hid⟩ := hj
  obtain ⟨d, hd, hseq⟩ := hc.enrolment i s hs hsa
  obtain ⟨d', hd', -, -, hle⟩ := hc.revocation j t ht hta
  obtain rfl : d = d' := Option.some.inj (hd.symm.trans (hid ▸ hd'))
  omega

/-- An active device is not revoked by any event. -/
theorem Sound.not_revokesAt {c : Chain} (hc : c.Sound) {id : ID} {d : Device}
    (hd : c.device id = some d) (hr : d.revoked = false) (i : ℕ) :
    ¬ RevokesAt c.events id i := by
  rintro ⟨s, hs, hsa, rfl⟩
  obtain ⟨d', hd', hr', -⟩ := hc.revocation i s hs hsa
  obtain rfl : d = d' := Option.some.inj (hd.symm.trans hd')
  rw [hr] at hr'; cases hr'

/-- Every device an event names was enrolled. -/
theorem Sound.exists_enrolsAt {c : Chain} (hc : c.Sound) {s : SignedMembershipEvent}
    (hs : s ∈ c.events) (ha : s.event.action = .enroll ∨ s.event.action = .revoke) :
    ∃ k i, EnrolsAt c.events s.event.deviceID k i := by
  obtain ⟨i, hi⟩ := List.getElem?_of_mem hs
  rcases ha with ha | ha
  · obtain ⟨d, hd, -⟩ := hc.enrolment i s hi ha
    exact ⟨d.verifyKey, hc.origin _ d hd⟩
  · obtain ⟨d, hd, -⟩ := hc.revocation i s hi ha
    exact ⟨d.verifyKey, hc.origin _ d hd⟩

end Chain

/-! ## Validated chains -/

theorem ne_nil_of_validate {g : Genesis} {events : List SignedMembershipEvent} {c : Chain}
    (h : validate C g events = .ok c) : events ≠ [] := by
  simp only [validate, Except.bind_eq_ok, Except.require_eq_ok] at h
  obtain ⟨_, -, _, hne, -⟩ := h
  exact hne

theorem action_of_validate {g : Genesis} {events : List SignedMembershipEvent} {c : Chain}
    (h : validate C g events = .ok c) {s : SignedMembershipEvent} (hs : s ∈ events) :
    s.event.action = .enroll ∨ s.event.action = .revoke := by
  have hall : ∀ t ∈ c.events, t.event.action = .enroll ∨ t.event.action = .revoke := by
    simp only [validate, Except.bind_eq_ok] at h
    obtain ⟨-, -, -, -, h⟩ := h
    refine Except.foldlM_induct
      (P := fun c : Chain => ∀ t ∈ c.events, t.event.action = .enroll ∨ t.event.action = .revoke)
      h (fun _ ht => absurd ht List.not_mem_nil) fun a _ x x' hx hP t ht => ?_
    obtain ⟨-, -, hev, -, hact⟩ := Chain.apply_ok (Except.mapError_eq_ok.1 hx)
    rw [hev] at ht
    rcases List.mem_append.1 ht with ht | ht
    · exact hP t ht
    · rw [List.mem_singleton.1 ht]
      exact hact.imp And.left And.left
  exact hall s ((validate_events h).1.symm ▸ hs)

/-- The events of a valid chain carry their places. -/
theorem chainSeq_of_validate {g : Genesis} {events : List SignedMembershipEvent} {c : Chain}
    (h : validate C g events = .ok c) :
    events.map (·.event.chainSeq) = List.range' 1 events.length := by
  have hseq : c.events.map (·.event.chainSeq) = List.range' 1 c.events.length := by
    simp only [validate, Except.bind_eq_ok] at h
    obtain ⟨-, -, -, -, h⟩ := h
    refine Except.foldlM_induct
      (P := fun c : Chain => c.events.map (·.event.chainSeq) = List.range' 1 c.events.length)
      h rfl fun s _ x x' hx hP => ?_
    have happ := Except.mapError_eq_ok.1 hx
    obtain ⟨-, -, hev, -⟩ := Chain.apply_ok happ
    rw [hev, List.map_append, hP, List.length_append, List.length_singleton, List.range'_concat,
      List.map_singleton, Chain.apply_chainSeq happ]
    simp [Nat.add_comm]
  rwa [(validate_events h).1] at hseq

theorem sound_of_validate {g : Genesis} {events : List SignedMembershipEvent} {c : Chain}
    (h : validate C g events = .ok c) : c.Sound := by
  simp only [validate, Except.bind_eq_ok] at h
  obtain ⟨-, -, -, -, h⟩ := h
  exact Except.foldlM_induct (P := Chain.Sound) h (Chain.Sound.start g)
    fun s hs x x' hx hP => hP.apply (Except.mapError_eq_ok.1 hx)

/-- A longer valid chain keeps the devices of a shorter one. -/
theorem keeps_of_validate {g : Genesis} {events more : List SignedMembershipEvent} {c c' : Chain}
    (h : validate C g events = .ok c) (h' : validate C g (events ++ more) = .ok c') {id : ID}
    {d : Device} (hd : c.device id = some d) : ∃ d', c'.device id = some d' ∧ d.Keeps d' := by
  obtain ⟨c₀, h₀, hfold⟩ := validate_append (ne_nil_of_validate h) h'
  obtain rfl : c = c₀ := Except.ok.inj (h.symm.trans h₀)
  refine Except.foldlM_induct (P := fun c : Chain => ∃ d', c.device id = some d' ∧ d.Keeps d')
    hfold ⟨d, hd, .refl d⟩ ?_
  rintro s hs x x' hx ⟨d', hd', hk⟩
  obtain ⟨d'', hd'', hk'⟩ := Chain.keeps_of_apply (Except.mapError_eq_ok.1 hx) hd'
  exact ⟨d'', hd'', hk.trans hk'⟩

/-- The signer of an event after the root. -/
theorem signed_of_validate {g : Genesis} {pre post : List SignedMembershipEvent}
    {s : SignedMembershipEvent} {c : Chain} (h : validate C g (pre ++ s :: post) = .ok c)
    (hpre : pre ≠ []) :
    SignedUnder C g.recoveryVerifyKey s ∨ ∃ id key i, EnrolsAt pre id key i ∧
      (∀ j, ¬ RevokesAt pre id j) ∧ SignedUnder C key s := by
  obtain ⟨c₀, h₀, hfold⟩ := validate_append hpre h
  rw [List.foldlM_cons, Except.bind_eq_ok] at hfold
  obtain ⟨c₁, h₁, -⟩ := hfold
  obtain ⟨hev, hg, -⟩ := validate_events h₀
  have hsound := sound_of_validate h₀
  rcases Chain.apply_signed (Except.mapError_eq_ok.1 h₁) (hev ▸ hpre) with hs | ⟨id, d, hd, hr, hs⟩
  · exact Or.inl (hg ▸ hs)
  · obtain ⟨i, hi⟩ := hsound.origin id d hd
    exact Or.inr ⟨id, d.verifyKey, i, hev ▸ hi, fun j => hev ▸ hsound.not_revokesAt hd hr j, hs⟩

/-- **Main result.**  In every list of events that `Validate` accepts, a device an
    event names is enrolled by exactly one event and revoked by at most one, later
    than that; every non-empty beginning of the list leaves some device authorized;
    every event after the root is signed under the recovery key, or under the key
    of a device enrolled and not revoked before it; and an accepted extension keeps
    every device's keys and place, and keeps it revoked. -/
theorem validate_sound (C : Suite) {g : Genesis} {events : List SignedMembershipEvent} {c : Chain}
    (h : validate C g events = .ok c) :
    (∀ s ∈ events, (∃ key i, EnrolsAt events s.event.deviceID key i ∧
        ∀ key' j, EnrolsAt events s.event.deviceID key' j → j = i) ∧
      (∀ i j, RevokesAt events s.event.deviceID i → RevokesAt events s.event.deviceID j → i = j) ∧
      ∀ key i j, EnrolsAt events s.event.deviceID key i → RevokesAt events s.event.deviceID j →
        i < j) ∧
    (∀ pre post, events = pre ++ post → pre ≠ [] →
      ∃ c₀, validate C g pre = .ok c₀ ∧ ∃ id, c₀.authorized id = true) ∧
    (∀ pre s post, events = pre ++ s :: post → pre ≠ [] →
      SignedUnder C g.recoveryVerifyKey s ∨ ∃ id key i, EnrolsAt pre id key i ∧
        (∀ j, ¬ RevokesAt pre id j) ∧ SignedUnder C key s) ∧
    ∀ more c', validate C g (events ++ more) = .ok c' → ∀ id d, c.device id = some d →
      ∃ d', c'.device id = some d' ∧ d.Keeps d' := by
  have hsound := sound_of_validate h
  obtain ⟨hev, -⟩ := validate_events h
  refine ⟨fun s hs => ⟨?_, ?_, ?_⟩, ?_, ?_, ?_⟩
  · rw [← hev] at hs ⊢
    obtain ⟨k, i, hi⟩ := hsound.exists_enrolsAt hs (action_of_validate h (hev ▸ hs))
    exact ⟨k, i, hi, fun k' j hj => hsound.enrolsAt_unique hj hi⟩
  · exact fun i j hi hj => hsound.revokesAt_unique (hev ▸ hi) (hev ▸ hj)
  · exact fun k i j hi hj => hsound.enrolsAt_lt_revokesAt (hev ▸ hi) (hev ▸ hj)
  · rintro pre post rfl hpre
    obtain ⟨c₀, h₀, -⟩ := validate_append hpre h
    exact ⟨c₀, h₀, (sound_of_validate h₀).exists_authorized ((validate_events h₀).1 ▸ hpre)⟩
  · rintro pre s post rfl hpre
    exact signed_of_validate h hpre
  · intro more c' h' id d hd
    exact keeps_of_validate h h' hd

/-- The device `0b`, enrolled by the second event and revoked by the third. -/
theorem validate_sound_revoked :
    let events := [Sample.root (Sample.id 0x0a) [10] "A", Sample.enrolment, Sample.revocation]
    EnrolsAt events (Sample.id 0x0b) [11] 1 ∧ RevokesAt events (Sample.id 0x0b) 2 ∧
      SignedUnder sample [10] Sample.revocation ∧
      ∀ j, RevokesAt events (Sample.id 0x0b) j → j = 2 := by
  have hvalid := Except.eq_ok_get (x := validate sample Sample.genesis
    [Sample.root (Sample.id 0x0a) [10] "A", Sample.enrolment, Sample.revocation]) (by decide)
  have hrevoke : RevokesAt [Sample.root (Sample.id 0x0a) [10] "A", Sample.enrolment,
      Sample.revocation] (Sample.id 0x0b) 2 :=
    ⟨_, rfl, by decide, by decide⟩
  refine ⟨⟨_, rfl, by decide, by decide, by decide⟩, hrevoke,
    by unfold SignedUnder; decide, fun j hj => ?_⟩
  obtain ⟨-, hrev, -⟩ := (validate_sound sample hvalid).1 Sample.revocation (by simp)
  exact hrev j 2 hj hrevoke

/-! ## The digest of the head -/

/-- The parent of an event after the root is the head of the chain it continues. -/
theorem Chain.apply_head {c c' : Chain} {s : SignedMembershipEvent} (h : c.apply C s = .ok c') :
    c'.headDigest = C.hash (.signedMembershipEvent s) ∧
      (c.events ≠ [] → s.event.parentDigest.getD [] = c.headDigest) := by
  simp only [apply, Except.bind_eq_ok, Except.pure_eq_ok, Except.ok.injEq] at h
  obtain ⟨-, -, -, -, -, -, _, hparent, _, -, -, -, _, -, d, hd, rfl⟩ := h
  refine ⟨((SignedMembershipEvent.digest_eq_ok C).1 hd).2, fun hne => ?_⟩
  simpa [checkParent, hne, bytesEqual, headDigest] using hparent

/-- The last event of a valid chain gives its head and its length, and names the head of
    the chain before it. -/
theorem head_of_validate {g : Genesis} {events : List SignedMembershipEvent}
    {s : SignedMembershipEvent} {c : Chain} (h : validate C g (events ++ [s]) = .ok c) :
    c.headDigest = C.hash (.signedMembershipEvent s) ∧ s.event.chainSeq = events.length + 1 ∧
      (events ≠ [] → ∃ c₀, validate C g events = .ok c₀ ∧
        s.event.parentDigest.getD [] = c₀.headDigest) := by
  have hlast : ∃ c₀, (events ≠ [] → validate C g events = .ok c₀) ∧ c₀.events = events ∧
      c₀.apply C s = .ok c := by
    by_cases hne : events = []
    · subst hne
      simp only [validate, Except.bind_eq_ok, List.nil_append, List.foldlM_cons, List.foldlM_nil,
        Except.mapError_eq_ok, Except.pure_eq_ok, Except.ok.injEq] at h
      obtain ⟨-, -, -, -, c', hs, rfl⟩ := h
      exact ⟨Chain.start g, fun hne => absurd rfl hne, rfl, hs⟩
    · obtain ⟨c₀, h₀, hfold⟩ := validate_append hne h
      simp only [List.foldlM_cons, List.foldlM_nil, Except.bind_eq_ok, Except.mapError_eq_ok,
        Except.pure_eq_ok, Except.ok.injEq] at hfold
      obtain ⟨c', hs, rfl⟩ := hfold
      exact ⟨c₀, fun _ => h₀, (validate_events h₀).1, hs⟩
  obtain ⟨c₀, h₀, hev, hs⟩ := hlast
  obtain ⟨hhead, hparent⟩ := Chain.apply_head hs
  exact ⟨hhead, hev ▸ Chain.apply_chainSeq hs, fun hne => ⟨c₀, h₀ hne, hparent (hev ▸ hne)⟩⟩

variable (C) in
/-- No two of the events of both lists have one digest: the encoding is injective on them
    and SHA-256 has no collision between their encodings. -/
structure NoCollision (events events' : List SignedMembershipEvent) : Prop where
  canonical : ∀ s ∈ events, ∀ s' ∈ events',
    C.canonical (.signedMembershipEvent s) = C.canonical (.signedMembershipEvent s') → s = s'
  sha256 : ∀ s ∈ events, ∀ s' ∈ events',
    C.sha256 (C.canonical (.signedMembershipEvent s)) =
      C.sha256 (C.canonical (.signedMembershipEvent s')) →
    C.canonical (.signedMembershipEvent s) = C.canonical (.signedMembershipEvent s')

theorem NoCollision.mono {es es' fs fs' : List SignedMembershipEvent} (h : NoCollision C fs fs')
    (he : es ⊆ fs) (he' : es' ⊆ fs') : NoCollision C es es' :=
  ⟨fun s hs s' hs' => h.canonical s (he hs) s' (he' hs'),
    fun s hs s' hs' => h.sha256 s (he hs) s' (he' hs')⟩

/-- Chains with one head have one list of events: the last events are equal, so they have
    one place and one parent, and the chains before them have one head. -/
theorem events_of_head {g : Genesis} {events events' : List SignedMembershipEvent} {c c' : Chain}
    (h : validate C g events = .ok c) (h' : validate C g events' = .ok c')
    (hno : NoCollision C events events') (hhead : c.headDigest = c'.headDigest) :
    events = events' := by
  induction events using List.reverseRecOn generalizing events' c c' with
  | nil => exact absurd rfl (ne_nil_of_validate h)
  | append_singleton es s ih =>
    rcases List.eq_nil_or_concat events' with rfl | ⟨es', s', rfl⟩
    · exact absurd rfl (ne_nil_of_validate h')
    rw [List.concat_eq_append] at h' hno ⊢
    obtain ⟨hs, hseq, hparent⟩ := head_of_validate h
    obtain ⟨hs', hseq', hparent'⟩ := head_of_validate h'
    have hmem : s ∈ es ++ [s] := List.mem_append_right _ List.mem_cons_self
    have hmem' : s' ∈ es' ++ [s'] := List.mem_append_right _ List.mem_cons_self
    obtain rfl : s = s' := hno.canonical s hmem s' hmem'
      (hno.sha256 s hmem s' hmem' (hs.symm.trans (hhead.trans hs')))
    have hlen : es.length = es'.length := by omega
    rcases es with _ | ⟨e, es⟩
    · rw [List.length_eq_zero_iff.1 hlen.symm]
    · have hne' : es' ≠ [] := by rintro rfl; cases hlen
      obtain ⟨c₀, h₀, hp⟩ := hparent (List.cons_ne_nil e es)
      obtain ⟨c₀', h₀', hp'⟩ := hparent' hne'
      rw [ih h₀ h₀' (hno.mono (List.subset_append_left ..) (List.subset_append_left ..))
        (hp.symm.trans hp')]

/-- **Main result.**  Two event lists that `Validate` accepts and that have one head
    digest are equal.  So once two accepted lists differ at a place, the digests of their
    heads differ at every later one. -/
theorem head_determines_events (C : Suite) {g : Genesis} {events events' : List SignedMembershipEvent}
    {c c' : Chain} (h : validate C g events = .ok c) (h' : validate C g events' = .ok c')
    (hno : NoCollision C events events') :
    (c.headDigest = c'.headDigest → events = events') ∧
    ∀ i, events[i]? ≠ events'[i]? → ∀ m n, i < m → i < n →
      ∃ d d', validate C g (events.take m) = .ok d ∧ validate C g (events'.take n) = .ok d' ∧
        d.headDigest ≠ d'.headDigest := by
  refine ⟨events_of_head h h' hno, fun i hi m n hm hn => ?_⟩
  have hbegin : ∀ {es : List SignedMembershipEvent} {x : Chain} {k : ℕ}, validate C g es = .ok x →
      0 < k → ∃ d, validate C g (es.take k) = .ok d := by
    intro es x k hes hk
    have hne : es.take k ≠ [] := by
      rw [Ne, List.take_eq_nil_iff, not_or]
      exact ⟨hk.ne', ne_nil_of_validate hes⟩
    obtain ⟨d, hd, -⟩ := validate_append hne ((List.take_append_drop k es).symm ▸ hes)
    exact ⟨d, hd⟩
  obtain ⟨d, hd⟩ := hbegin h (Nat.zero_lt_of_lt hm)
  obtain ⟨d', hd'⟩ := hbegin h' (Nat.zero_lt_of_lt hn)
  refine ⟨d, d', hd, hd', fun heq => hi ?_⟩
  have hev := events_of_head hd hd' (hno.mono (List.take_subset ..) (List.take_subset ..)) heq
  calc events[i]? = (events.take m)[i]? := (List.getElem?_take_of_lt hm).symm
    _ = (events'.take n)[i]? := by rw [hev]
    _ = events'[i]? := List.getElem?_take_of_lt hn

/-- Two chains that fork after the root, at the enrolment of `0b` and of `0c`. -/
theorem head_determines_fork :
    ∃ d d', validate sample Sample.genesis
        [Sample.root (Sample.id 0x0a) [10] "A", Sample.enrolment, Sample.revocation] = .ok d ∧
      validate sample Sample.genesis
        [Sample.root (Sample.id 0x0a) [10] "A", Sample.otherEnrolment] = .ok d' ∧
      d.headDigest ≠ d'.headDigest := by
  have h := Except.eq_ok_get (x := validate sample Sample.genesis
    [Sample.root (Sample.id 0x0a) [10] "A", Sample.enrolment, Sample.revocation]) (by decide)
  have h' := Except.eq_ok_get (x := validate sample Sample.genesis
    [Sample.root (Sample.id 0x0a) [10] "A", Sample.otherEnrolment]) (by decide)
  have hno : NoCollision sample
      [Sample.root (Sample.id 0x0a) [10] "A", Sample.enrolment, Sample.revocation]
      [Sample.root (Sample.id 0x0a) [10] "A", Sample.otherEnrolment] :=
    ⟨by decide, by decide⟩
  exact (head_determines_events sample h h' hno).2 1 (by decide) 3 2 (by decide) (by decide)

end Sshstate.Membership
