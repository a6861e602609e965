/-
  What a client knows about devices, over all its Syncs and Rejoins.

  A `Lifetime` is a client whose Syncs and Rejoins follow each other, each with a relay
  that answers as it likes; any of them may stop anywhere.  A run stores a chain only
  after it has checked that the stored one is a beginning of it, and then writes the rows
  of its devices one by one (`Holds`).  The chain in the store is the one that the rows
  come from or a later one, so that a revoked row names a device that the stored chain
  revokes (`Rostered`): the chain only grows and no row becomes active again
  (`devices_grow`).
-/
import Sshstate.Proof.Chain
import Sshstate.Proof.Rejoin

namespace Sshstate.Sync

open Vault (Store Manager DeviceStatus)

variable {C : Suite}

/-! ## A client and its runs -/

namespace Lifetime

/-- A Sync or a Rejoin with the relay at `url`. -/
inductive Process where
  | sync (url : String) (p : Sync.Phase)
  | rejoin (url : String) (p : Rejoin.Phase)

end Lifetime

structure Lifetime where
  store : Store
  process : Option Lifetime.Process

namespace Lifetime

inductive Label where
  | sync (url : String)
  | rejoin (url : String)
  /-- Any answer to a request. -/
  | reply (r : Rejoin.Reply)
  /-- An access to the store. -/
  | work (draw : Draw)
  /-- The run has returned, or it is interrupted. -/
  | stop

section
variable (C) (size : Relay.ImportRecord → ℕ) (m : Manager)

def step (L : Lifetime) : Label → Option Lifetime
  | .sync url => if L.process.isSome then none else some { L with process := some (.sync url .start) }
  | .rejoin url =>
    if L.process.isSome then none else some { L with process := some (.rejoin url .fetchMembership) }
  | .reply r =>
    match L.process, r with
    | some (.sync url p), .read r => (p.receive r).map fun p' => { L with process := some (.sync url p') }
    | some (.rejoin url p), r =>
      (p.receive size r).map fun p' => { L with process := some (.rejoin url p') }
    | _, _ => none
  | .work draw =>
    match L.process with
    | some (.sync url p) => (Sync.work C { manager := m, url := url } draw L.store p).map
        fun (st, p') => { store := st, process := some (.sync url p') }
    | some (.rejoin url p) => (Rejoin.work C size { manager := m, url := url } draw L.store p).map
        fun (st, p') => { store := st, process := some (.rejoin url p') }
    | none => none
  | .stop => some { L with process := none }

end

/-- The events of an answer are among `E`. -/
def Carries (E : SignedMembershipEvent → Prop) (_ : Lifetime) : Label → Prop
  | .reply (.read (.membership (.ok events))) => ∀ ev ∈ events, E ev
  | _ => True

end Lifetime

/-! ## One step -/

/-- The phases of `syncMembership` between the answer and the last row. -/
def Phase.learning : Phase → Bool
  | .compareMembership _ _ | .putMembership _ _ | .putDevice _ _ _ _ _
  | .revocationNoted _ _ _ _ _ => true
  | _ => false

@[simp] theorem learning_failMembership (err : Error) : (failMembership err).learning = false := by
  unfold failMembership; split_ifs <;> rfl

@[simp] theorem learning_nextCandidate (l : Locals) (rest : List Envelope) :
    (nextCandidate l rest).learning = false := by cases rest <;> rfl

@[simp] theorem learning_nextChange (l : Locals) (page : RecordsResponse) (envs todo : List Envelope) :
    (nextChange l page envs todo).learning = false := by cases todo <;> rfl

@[simp] theorem learning_nextRevocation (l : Locals) (through : ℕ) (todo : List ID) :
    (nextRevocation l through todo).learning = false := by cases todo <;> rfl

@[simp] theorem learning_afterPage (l : Locals) (page : RecordsResponse) :
    (afterPage l page).learning = false := by
  unfold afterPage afterPull
  split_ifs
  · rfl
  · exact learning_nextRevocation ..
  · rfl

@[simp] theorem learning_checkLatest (url : String) (l : Locals) (since : ℕ) (stored : String)
    (latest : RecordsResponse) : (checkLatest url l since stored latest).learning = false := by
  unfold checkLatest; split_ifs <;> rfl

theorem learning_onResult (l : Locals) (c : Envelope) (rest : List Envelope) (r : PutResult) :
    (onResult l c rest r).learning = false := by
  cases r <;> simp only [onResult]
  · rfl
  · split_ifs <;> rfl

theorem learning_commit {st st' : Store} {tx : Except Error Store} {next p' : Phase}
    (hn : next.learning = false) (h : commit st tx next = (st', p')) : p'.learning = false := by
  rcases commit_eq h with ⟨-, rfl⟩ | ⟨-, err, rfl⟩
  · exact hn
  · rfl

/-- The steps of a Sync, by what they do to the chain and the devices. -/
inductive Learns (C : Suite) (e : Engine) (st : Store) : Phase → Store → Phase → Prop
  | other {p p' : Phase} {st' : Store} (h : p'.learning = false)
      (membership : st'.membership = st.membership) (devices : st'.devices = st.devices) :
      Learns C e st p st' p'
  | compare {known : ℕ} {events : List SignedMembershipEvent} {chain : Membership.Chain}
      (h : compareMembership C e events st.membership = .ok chain) :
      Learns C e st (.compareMembership known events) st (.putMembership known chain)
  | putMembership {known : ℕ} {chain : Membership.Chain} :
      Learns C e st (.putMembership known chain) { st with membership := chain.events }
        (nextDevice known chain [] chain.devices)
  | putDevice {known : ℕ} {chain : Membership.Chain} {d : Membership.Device}
      {todo : List Membership.Device} {newlyRevoked : List ID} :
      Learns C e st (.putDevice known chain d todo newlyRevoked) (st.putDevice (Vault.deviceRow d))
        (if d.revoked then .revocationNoted known chain d.id todo newlyRevoked
          else nextDevice known chain newlyRevoked todo)
  | noted {known : ℕ} {chain : Membership.Chain} {id : ID} {todo : List Membership.Device}
      {newlyRevoked newlyRevoked' : List ID} :
      Learns C e st (.revocationNoted known chain id todo newlyRevoked) st
        (nextDevice known chain newlyRevoked' todo)

/-- Outside `syncMembership` neither the chain nor a device is written. -/
theorem Else.devices {st st' : Store} {p : Phase} (h : Else st p st') (hp : p.learning = false) :
    st'.membership = st.membership ∧ st'.devices = st.devices := by
  cases h with
  | same hs => exact ⟨hs.membership, hs.devices⟩
  | putMembership => cases hp
  | putDevice => cases hp
  | noteRefusal => exact ⟨rfl, rfl⟩
  | recordHistory => exact ⟨rfl, rfl⟩
  | writeRevocation => exact ⟨rfl, rfl⟩

theorem work_learns {e : Engine} {draw : Draw} {st st' : Store} {p p' : Phase}
    (h : work C e draw st p = some (st', p')) : Learns C e st p st' p' := by
  have other : p.learning = false → p'.learning = false → Learns C e st p st' p' :=
    fun hp hp' => .other hp' ((work_else h).devices hp).1 ((work_else h).devices hp).2
  cases p with
  | compareMembership known events =>
    simp only [work] at h
    split at h <;> cases h
    · next hc => exact .compare hc
    · exact .other (learning_failMembership _) rfl rfl
  | putMembership known chain =>
    simp only [work] at h
    split at h <;> cases h
    · next htx => rw [putMembershipEvents_ok htx]; exact .putMembership
    · exact .other (learning_failMembership _) rfl rfl
  | putDevice known chain dev todo newlyRevoked => cases h; exact .putDevice
  | revocationNoted known chain id todo newlyRevoked => cases h; exact .noted
  | accept l c seq rest => exact other rfl (learning_commit (by simp) (Option.some.inj h))
  | supersede l c head rest => exact other rfl (learning_commit (by simp) (Option.some.inj h))
  | resolve l c k head rest => exact other rfl (learning_commit (by simp) (Option.some.inj h))
  | applyPage l page envs => exact other rfl (learning_commit (by simp) (Option.some.inj h))
  | preserve l c head rest =>
    refine other rfl ?_
    simp only [work] at h
    split at h <;> cases h <;> rfl
  | verifyChange l page env todo envs =>
    refine other rfl ?_
    simp only [work] at h
    split at h <;> cases h <;> rfl
  | compareHead l page env todo envs =>
    refine other rfl ?_
    simp only [work] at h
    split at h <;> cases h
    · exact learning_nextChange ..
    · rfl
  | noteRevocation l through id todo =>
    refine other rfl ?_
    cases h
    split_ifs
    · exact learning_nextRevocation ..
    · rfl
  | writeRevocation l through id todo => cases h; exact other rfl (learning_nextRevocation ..)
  | checkLatest l since latest => cases h; exact other rfl (learning_checkLatest ..)
  | readOutbox l => cases h; exact other rfl (learning_nextCandidate ..)
  | start => cases h; exact other rfl rfl
  | noteRefusal err => cases h; exact other rfl rfl
  | readCursor l => cases h; exact other rfl rfl
  | recordHistory l history => cases h; exact other rfl rfl
  | pullCursor l => cases h; exact other rfl rfl
  | fetchMembership known => cases h
  | fetchLatest l since => cases h
  | push l c rest => cases h
  | fetchPage l since through => cases h
  | done report => cases h
  | failed err => cases h

/-- An answer starts `syncMembership` or keeps out of it. -/
theorem receive_learning {p p' : Phase} {r : Reply} (h : p.receive r = some p') :
    p'.learning = false ∨ ∃ known events, p' = .compareMembership known events ∧
      r = .membership (.ok events) := by
  unfold Phase.receive at h
  split at h
  · split at h <;> cases h
    · exact Or.inr ⟨_, _, rfl, rfl⟩
    · exact Or.inl (learning_failMembership _)
  · split at h <;> cases h <;> exact Or.inl rfl
  · split at h <;> cases h
    · exact Or.inl (learning_onResult ..)
    · exact Or.inl rfl
  · split at h <;> cases h
    · exact Or.inl (learning_nextChange ..)
    · exact Or.inl rfl
  · cases h

namespace Rejoin

/-- The phase of `syncMembership` within a Rejoin. -/
def Phase.syncing : Phase → Option Sync.Phase
  | .membership p _ => some p
  | _ => none

/-- Not between the answer and the last row of `syncMembership`. -/
def Phase.Calm (p : Phase) : Prop := ∀ q, p.syncing = some q → q.learning = false

theorem calm_of_none {p : Phase} (h : p.syncing = none) : p.Calm :=
  fun q hq => absurd (h.symm.trans hq) (Option.some_ne_none q).symm

theorem calm_nextUpload (uploaded : ℕ) (todo : List SignedMembershipEvent) :
    (nextUpload uploaded todo).Calm := by
  cases todo with
  | nil => intro q hq; cases hq; rfl
  | cons ev todo => exact calm_of_none rfl

theorem calm_nextHead (l : Locals) (todo : List Envelope) : (nextHead l todo).Calm := by
  cases todo with
  | nil => unfold nextHead; split_ifs <;> exact calm_of_none rfl
  | cons head todo => exact calm_of_none rfl

section
variable (size : Relay.ImportRecord → ℕ)

theorem calm_nextItem (l : Locals) (item : Relay.ImportRecord) (todo : List Envelope) :
    (nextItem size l item todo).Calm := by
  unfold nextItem
  split_ifs
  · exact calm_of_none rfl
  · exact calm_nextHead _ _

theorem calm_nextOutcome (l : Locals) (next : Waiting) (outs : List Relay.ImportOutcome) :
    (nextOutcome size l next outs).Calm := by
  cases outs with
  | nil =>
    rcases next with _ | ⟨item, todo⟩
    · exact calm_of_none rfl
    · exact calm_nextHead _ _
  | cons out outs => exact calm_of_none rfl

end

/-- The chain and the devices of two stores are the same. -/
def SameDevices (st st' : Store) : Prop :=
  st'.membership = st.membership ∧ st'.devices = st.devices

theorem sameDevices_of {st st' : Store} (h : Vault.Store.SameElse st st') : SameDevices st st' :=
  ⟨h.membership, h.devices⟩

theorem sameElse_supersede {st st' : Store} {conflict : Option Envelope} {head : Envelope}
    (h : st.supersede C conflict head = .ok st') : Vault.Store.SameElse st st' := by
  rcases conflict with _ | k
  · obtain ⟨-, rfl⟩ := Vault.Store.supersede_none_ok.1 h
    exact ⟨rfl, rfl, rfl, rfl, rfl⟩
  · simp only [Store.supersede, Except.bind_eq_ok, Vault.Store.replaceHead_ok] at h
    obtain ⟨st₁, h₁, -, rfl⟩ := h
    exact ((Vault.Store.sameElse_enqueueOutbox st k).trans
      (Vault.Store.Installs.putRecord (List.mem_singleton_self k) h₁).same).trans
      ⟨rfl, rfl, rfl, rfl, rfl⟩

theorem sameElse_acceptImported {st st' : Store} {mine : Envelope} {seq : ℕ}
    (h : st.acceptImported C mine seq = .ok st') : Vault.Store.SameElse st st' := by
  simp only [Store.acceptImported, Except.bind_eq_ok, Vault.Store.replaceHead_ok, Except.pure_eq_ok,
    Except.ok.injEq] at h
  obtain ⟨_, ⟨-, rfl⟩, rfl⟩ := h
  exact ⟨rfl, rfl, rfl, rfl, rfl⟩

section
variable {size : Relay.ImportRecord → ℕ} {e : Engine} {draw : Draw} {st st' : Store} {p' : Phase}

theorem calm_commit {tx : Except Error Store} {wrap : Error → Error} {next : Phase}
    (hn : next.Calm) (htx : tx = .ok st' → Vault.Store.SameElse st st')
    (h : commit st tx wrap next = (st', p')) : p'.Calm ∧ SameDevices st st' := by
  rcases commit_eq h with ⟨hok, rfl⟩ | ⟨rfl, err, rfl⟩
  · exact ⟨hn, sameDevices_of (htx hok)⟩
  · exact ⟨calm_of_none rfl, rfl, rfl⟩

theorem calm_keepAside {l : Locals} {mine : Envelope} {out : Relay.ImportOutcome}
    {outs : List Relay.ImportOutcome} {next : Waiting}
    (h : keepAside C size e draw st l mine out outs next = (st', p')) :
    p'.Calm ∧ SameDevices st st' := by
  unfold keepAside at h
  split at h
  · cases h; exact ⟨calm_of_none rfl, rfl, rfl⟩
  · split_ifs at h
    · exact calm_commit (calm_nextOutcome size _ _ _) sameElse_supersede h
    · split at h <;> cases h <;> exact ⟨calm_of_none rfl, rfl, rfl⟩

theorem calm_settle {l : Locals} {out : Relay.ImportOutcome} {outs : List Relay.ImportOutcome}
    {next : Waiting} (h : settle C size e draw st l out outs next = (st', p')) :
    p'.Calm ∧ SameDevices st st' := by
  unfold settle at h
  split at h
  · cases h; exact ⟨calm_of_none rfl, rfl, rfl⟩
  · split at h
    · exact calm_commit (calm_nextOutcome size _ _ _) sameElse_acceptImported h
    · exact calm_commit (calm_nextOutcome size _ _ _) sameElse_acceptImported h
    · cases h; exact ⟨calm_nextOutcome size _ _ _, rfl, rfl⟩
    · exact calm_keepAside h

/-- A step of a Rejoin is one of `syncMembership`, or it writes neither the chain nor a
    device. -/
theorem work_calm {p : Phase} (h : work C size e draw st p = some (st', p')) :
    (p'.Calm ∧ SameDevices st st') ∨ ∃ q uploaded q', p = .membership q uploaded ∧
      Sync.work C e draw st q = some (st', q') ∧ p' = ofSync uploaded q' := by
  cases p with
  | membership q uploaded =>
    obtain ⟨⟨st₁, q'⟩, hq, heq⟩ := Option.map_eq_some_iff.1 h
    cases heq
    exact Or.inr ⟨q, uploaded, q', rfl, hq, rfl⟩
  | compare remote =>
    simp only [work] at h
    split at h <;> cases h
    · exact Or.inl ⟨calm_nextUpload _ _, rfl, rfl⟩
    · exact Or.inl ⟨calm_of_none rfl, rfl, rfl⟩
  | settle l out outs next => exact Or.inl (calm_settle (Option.some.inj h))
  | supersede l mine conflict head outs next =>
    exact Or.inl (calm_commit (calm_nextOutcome size _ _ _) sameElse_supersede (Option.some.inj h))
  | readHistory chain uploaded => cases h; exact Or.inl ⟨calm_of_none rfl, rfl, rfl⟩
  | readHeads l => cases h; exact Or.inl ⟨calm_nextHead _ _, rfl, rfl⟩
  | readAncestors l head todo => cases h; exact Or.inl ⟨calm_nextItem size _ _ _, rfl, rfl⟩
  | restartHistory l => cases h; exact Or.inl ⟨calm_of_none rfl, rfl, rfl⟩
  | fetchMembership => cases h
  | upload ev todo uploaded => cases h
  | fetchLatest chain stored uploaded => cases h
  | importBatch l next => cases h
  | done report => cases h
  | failed err => cases h

theorem receive_calm {p : Phase} {r : Reply} (h : p.receive size r = some p') :
    p'.Calm ∨ ∃ q uploaded r' q', p = .membership q uploaded ∧ r = .read r' ∧
      q.receive r' = some q' ∧ p' = ofSync uploaded q' := by
  unfold Phase.receive at h
  split at h
  · split at h <;> cases h <;> exact Or.inl (calm_of_none rfl)
  · split at h <;> cases h
    · exact Or.inl (calm_nextUpload _ _)
    · exact Or.inl (calm_of_none rfl)
  · obtain ⟨q', hq, rfl⟩ := Option.map_eq_some_iff.1 h
    exact Or.inr ⟨_, _, _, q', rfl, rfl, hq, rfl⟩
  · split at h <;> cases h <;> exact Or.inl (calm_of_none rfl)
  · split at h <;> cases h
    · exact Or.inl (calm_nextOutcome size _ _ _)
    · exact Or.inl (calm_of_none rfl)
  · cases h

end

end Rejoin

/-! ## The invariant -/

/-- Events that are told apart by their encodings: the stored ones are a beginning of the
    relay's if the comparison succeeds. -/
theorem prefix_of_checkStored {E : SignedMembershipEvent → Prop}
    (hinj : ∀ a b, E a → E b → sameEvent C a b = true → a = b) :
    ∀ {stored events : List SignedMembershipEvent} {i : ℕ}, (∀ a ∈ stored, E a) →
      (∀ b ∈ events, E b) → stored.length ≤ events.length → checkStored C i stored events = .ok () →
      stored <+: events
  | [], events, _, _, _, _, _ => List.nil_prefix
  | a :: stored, [], _, _, _, hlen, _ => absurd hlen (by simp)
  | a :: stored, b :: events, i, ha, hb, hlen, h => by
    simp only [checkStored, Except.require_bind_eq_ok] at h
    obtain rfl := hinj a b (ha a List.mem_cons_self) (hb b List.mem_cons_self) h.1
    exact List.cons_prefix_cons.2 ⟨rfl, prefix_of_checkStored hinj
      (fun x hx => ha x (List.mem_cons_of_mem _ hx)) (fun x hx => hb x (List.mem_cons_of_mem _ hx))
      (by simpa using hlen) h.2⟩

namespace Lifetime

variable (C) in
/-- The stored chain is valid, and it revokes every device whose row is revoked. -/
def Rostered (g : Genesis) (st : Store) : Prop :=
  ∃ c, Membership.validate C g st.membership = .ok c ∧
    ∀ id row, st.devices.lookup id = some row → row.status = .revoked →
      ∃ d, c.device id = some d ∧ d.revoked = true

/-- The chain has grown, and revoked rows are still revoked. -/
structure Kept (st st' : Store) : Prop where
  chain : st.membership <+: st'.membership
  revoked : ∀ id row, st.devices.lookup id = some row → row.status = .revoked →
    ∃ row', st'.devices.lookup id = some row' ∧ row'.status = .revoked

theorem Kept.refl (st : Store) : Kept st st :=
  ⟨List.prefix_refl _, fun _ row hrow hrev => ⟨row, hrow, hrev⟩⟩

theorem Kept.trans {st st' st'' : Store} (h : Kept st st') (h' : Kept st' st'') : Kept st st'' := by
  refine ⟨h.chain.trans h'.chain, fun id row hrow hrev => ?_⟩
  obtain ⟨row', hrow', hrev'⟩ := h.revoked id row hrow hrev
  exact h'.revoked id row' hrow' hrev'

theorem Kept.of_same {st st' : Store} (h : Rejoin.SameDevices st st') : Kept st st' :=
  ⟨h.1 ▸ List.prefix_refl _, fun _ row hrow hrev => ⟨row, h.2 ▸ hrow, hrev⟩⟩

theorem Rostered.of_same {g : Genesis} {st st' : Store} (h : Rejoin.SameDevices st st')
    (hr : Rostered C g st) : Rostered C g st' := by
  unfold Rostered
  rw [h.1, h.2]
  exact hr

variable (C) in
/-- What `syncMembership` relies on between two of its steps. -/
def Holds (g : Genesis) (E : SignedMembershipEvent → Prop) (st : Store) : Sync.Phase → Prop
  | .compareMembership _ events => ∀ ev ∈ events, E ev
  | .putMembership _ chain => Membership.validate C g chain.events = .ok chain ∧
      st.membership <+: chain.events ∧ ∀ ev ∈ chain.events, E ev
  | .putDevice _ chain d todo _ => Membership.validate C g st.membership = .ok chain ∧
      ∀ x ∈ d :: todo, x ∈ chain.devices
  | .revocationNoted _ chain _ todo _ => Membership.validate C g st.membership = .ok chain ∧
      ∀ x ∈ todo, x ∈ chain.devices
  | _ => True

section
variable {g : Genesis} {E : SignedMembershipEvent → Prop} {st st' : Store}

theorem holds_of_learning {p : Sync.Phase} (h : p.learning = false) : Holds C g E st p := by
  cases p <;> trivial

theorem holds_nextDevice {known : ℕ} {chain : Membership.Chain} {newlyRevoked : List ID}
    {todo : List Membership.Device} (h : Membership.validate C g st.membership = .ok chain)
    (htodo : ∀ x ∈ todo, x ∈ chain.devices) :
    Holds C g E st (nextDevice known chain newlyRevoked todo) := by
  cases todo with
  | nil => trivial
  | cons d todo => exact ⟨h, htodo⟩

/-- The rows after a longer chain was stored. -/
theorem Rostered.extend {c : Membership.Chain} (hr : Rostered C g st)
    (hval : Membership.validate C g c.events = .ok c) (hpre : st.membership <+: c.events) :
    Rostered C g { st with membership := c.events } := by
  obtain ⟨c₀, hval₀, hrows⟩ := hr
  obtain ⟨more, hmore⟩ := hpre
  refine ⟨c, hval, fun id row hrow hrev => ?_⟩
  obtain ⟨d, hd, hdrev⟩ := hrows id row hrow hrev
  obtain ⟨d', hd', hk⟩ := Membership.keeps_of_validate hval₀ (hmore ▸ hval) hd
  exact ⟨d', hd', hk.revoked hdrev⟩

theorem putDevice_lookup (st : Store) (row : Vault.Device) (id : ID) :
    ∃ enrolledAt, (st.putDevice row).devices.lookup id =
      if id = row.id then some { row with enrolledAt := enrolledAt } else st.devices.lookup id := by
  unfold Store.putDevice
  split_ifs with hid
  · subst hid; exact ⟨_, AList.lookup_insert _⟩
  · exact ⟨"", AList.lookup_insert_ne hid⟩

/-- The row of a device of the stored chain is written: a revoked device has a revoked
    row, and no other row changes. -/
theorem Rostered.putDevice {c : Membership.Chain} {d : Membership.Device} (hr : Rostered C g st)
    (hval : Membership.validate C g st.membership = .ok c) (hd : d ∈ c.devices) :
    Rostered C g (st.putDevice (Vault.deviceRow d)) ∧ Kept st (st.putDevice (Vault.deviceRow d)) := by
  obtain ⟨c₀, hval₀, hrows⟩ := hr
  obtain rfl : c₀ = c := Except.ok.inj (hval₀.symm.trans hval)
  have hdev : c₀.device d.id = some d :=
    Membership.Chain.device_of_mem (Membership.sound_of_validate hval).ids hd
  have hstatus : (Vault.deviceRow d).status = .revoked ↔ d.revoked = true := by
    unfold Vault.deviceRow; by_cases h : d.revoked <;> simp [h]
  refine ⟨⟨c₀, hval, fun id row hrow hrev => ?_⟩, List.prefix_refl _, fun id row hrow hrev => ?_⟩
  · obtain ⟨enrolledAt, hlookup⟩ := putDevice_lookup st (Vault.deviceRow d) id
    rw [hlookup] at hrow
    split_ifs at hrow with hid
    · subst hid; cases hrow; exact ⟨d, hdev, hstatus.1 hrev⟩
    · exact hrows id row hrow hrev
  · obtain ⟨enrolledAt, hlookup⟩ := putDevice_lookup st (Vault.deviceRow d) id
    rw [hlookup]
    split_ifs with hid
    · obtain ⟨d', hd', hrev'⟩ := hrows id row hrow hrev
      subst hid
      obtain rfl : d' = d := Option.some.inj (hd'.symm.trans hdev)
      exact ⟨_, rfl, hstatus.2 hrev'⟩
    · exact ⟨row, hrow, hrev⟩

/-- One step of `syncMembership`. -/
theorem learns_kept {e : Engine} {p p' : Sync.Phase} (hE : ∀ ev ∈ st.membership, E ev)
    (hinj : ∀ a b, E a → E b → sameEvent C a b = true → a = b)
    (hr : Rostered C e.manager.genesis st) (hp : Holds C e.manager.genesis E st p)
    (h : Learns C e st p st' p') :
    Rostered C e.manager.genesis st' ∧ (∀ ev ∈ st'.membership, E ev) ∧
      Holds C e.manager.genesis E st' p' ∧ Kept st st' := by
  cases h with
  | other hlearn hm hd =>
    exact ⟨hr.of_same ⟨hm, hd⟩, hm ▸ hE, holds_of_learning hlearn, .of_same ⟨hm, hd⟩⟩
  | compare hc =>
    obtain ⟨hval, hlen, hstored⟩ := compareMembership_ok.1 hc
    have hev := (Membership.validate_events hval).1
    refine ⟨hr, hE, ⟨hev ▸ hval, ?_, hev ▸ hp⟩, .refl st⟩
    rw [hev]
    exact prefix_of_checkStored hinj hE hp hlen hstored
  | putMembership =>
    obtain ⟨hval, hpre, hEc⟩ := hp
    exact ⟨hr.extend hval hpre, hEc, holds_nextDevice hval fun _ hx => hx,
      hpre, fun _ row hrow hrev => ⟨row, hrow, hrev⟩⟩
  | putDevice =>
    obtain ⟨hval, htodo⟩ := hp
    obtain ⟨hr', hk⟩ := hr.putDevice hval (htodo _ List.mem_cons_self)
    refine ⟨hr', hE, ?_, hk⟩
    split_ifs
    · exact ⟨hval, fun x hx => htodo x (List.mem_cons_of_mem _ hx)⟩
    · exact holds_nextDevice hval fun x hx => htodo x (List.mem_cons_of_mem _ hx)
  | noted => exact ⟨hr, hE, holds_nextDevice hp.1 hp.2, .refl st⟩

end

/-- Where a run is within `syncMembership`, or in the rest of a Sync. -/
def Process.syncing : Process → Option Sync.Phase
  | .sync _ p => some p
  | .rejoin _ p => p.syncing

variable (C) in
structure Inv (g : Genesis) (E : SignedMembershipEvent → Prop) (L : Lifetime) : Prop where
  rostered : Rostered C g L.store
  events : ∀ ev ∈ L.store.membership, E ev
  holds : ∀ pr ∈ L.process, ∀ q ∈ pr.syncing, Holds C g E L.store q

theorem mem_syncing_ofSync {uploaded : ℕ} {p q : Sync.Phase}
    (h : q ∈ (Rejoin.ofSync uploaded p).syncing) : q = p := by
  cases p <;> cases h <;> rfl

section
variable {size : Relay.ImportRecord → ℕ} {m : Manager} {E : SignedMembershipEvent → Prop}
variable {L L' : Lifetime}

/-- A step that leaves `syncMembership` or keeps out of it. -/
theorem Inv.calm {st : Store} {pr : Option Process} (hL : Inv C m.genesis E L)
    (hsame : Rejoin.SameDevices L.store st) (hpr : ∀ x ∈ pr, ∀ q ∈ x.syncing, q.learning = false) :
    Inv C m.genesis E { store := st, process := pr } ∧ Kept L.store st :=
  ⟨⟨hL.rostered.of_same hsame, fun ev hev => hL.events ev (hsame.1 ▸ hev),
    fun x hx q hq => holds_of_learning (hpr x hx q hq)⟩, .of_same hsame⟩

/-- A step of `syncMembership`, in a Sync or a Rejoin. -/
theorem Inv.learns {e : Engine} {st : Store} {p p' : Sync.Phase} {pr pr' : Process}
    (hL : Inv C e.manager.genesis E L) (hinj : ∀ a b, E a → E b → sameEvent C a b = true → a = b)
    (hpr : L.process = some pr) (hp : p ∈ pr.syncing) (hp' : ∀ q ∈ pr'.syncing, q = p')
    (h : Learns C e L.store p st p') :
    Inv C e.manager.genesis E { store := st, process := some pr' } ∧ Kept L.store st := by
  obtain ⟨hr, hE, hholds, hk⟩ := learns_kept hL.events hinj hL.rostered (hL.holds pr hpr p hp) h
  refine ⟨⟨hr, hE, fun x hx q hq => ?_⟩, hk⟩
  cases hx
  exact hp' q hq ▸ hholds

/-- An answer of the relay within a Sync or a Rejoin. -/
theorem Inv.receives {p p' : Sync.Phase} {r : Reply} {pr' : Process} (hL : Inv C m.genesis E L)
    (hr : ∀ events, r = .membership (.ok events) → ∀ ev ∈ events, E ev)
    (hp' : ∀ q ∈ pr'.syncing, q = p') (h : p.receive r = some p') :
    Inv C m.genesis E { L with process := some pr' } ∧ Kept L.store L.store := by
  refine ⟨⟨hL.rostered, hL.events, fun x hx q hq => ?_⟩, .refl _⟩
  cases hx
  rw [hp' q hq]
  rcases receive_learning h with hlearn | ⟨known, events, rfl, rfl⟩
  · exact holds_of_learning hlearn
  · exact hr events rfl

theorem Inv.step {l : Label} (hL : Inv C m.genesis E L)
    (hinj : ∀ a b, E a → E b → sameEvent C a b = true → a = b) (hl : Carries E L l)
    (h : L.step C size m l = some L') : Inv C m.genesis E L' ∧ Kept L.store L'.store := by
  cases l with
  | sync url =>
    simp only [Lifetime.step] at h
    split_ifs at h
    cases h
    refine hL.calm ⟨rfl, rfl⟩ fun x hx q hq => ?_
    cases hx; cases hq; rfl
  | rejoin url =>
    simp only [Lifetime.step] at h
    split_ifs at h
    cases h
    refine hL.calm ⟨rfl, rfl⟩ fun x hx q hq => ?_
    cases hx; cases hq
  | stop =>
    cases h
    exact hL.calm ⟨rfl, rfl⟩ fun x hx => absurd hx (Option.not_mem_none x)
  | reply r =>
    have hcarried : ∀ r', r = .read r' → ∀ events, r' = .membership (.ok events) →
        ∀ ev ∈ events, E ev := by
      rintro r' rfl events rfl
      exact hl
    simp only [Lifetime.step] at h
    split at h
    · obtain ⟨p', hp', rfl⟩ := Option.map_eq_some_iff.1 h
      exact hL.receives (hcarried _ rfl) (fun q hq => (Option.some.inj hq).symm) hp'
    · obtain ⟨p', hp', rfl⟩ := Option.map_eq_some_iff.1 h
      rcases Rejoin.receive_calm hp' with hcalm | ⟨q, uploaded, r', q', rfl, rfl, hq, rfl⟩
      · refine hL.calm ⟨rfl, rfl⟩ fun x hx q hq => ?_
        cases hx
        exact hcalm q hq
      · exact hL.receives (hcarried r' rfl) (fun _ hx => mem_syncing_ofSync hx) hq
    · cases h
  | work draw =>
    simp only [Lifetime.step] at h
    split at h
    · next url p hpr =>
      obtain ⟨⟨st, p'⟩, hw, rfl⟩ := Option.map_eq_some_iff.1 h
      exact hL.learns (e := { manager := m, url := url }) hinj hpr (Option.mem_def.2 rfl)
        (fun q hq => (Option.some.inj hq).symm) (work_learns hw)
    · next url p hpr =>
      obtain ⟨⟨st, p'⟩, hw, rfl⟩ := Option.map_eq_some_iff.1 h
      rcases Rejoin.work_calm hw with ⟨hcalm, hsame⟩ | ⟨q, uploaded, q', rfl, hq, rfl⟩
      · refine hL.calm hsame fun x hx q hq => ?_
        cases hx
        exact hcalm q hq
      · exact hL.learns (e := { manager := m, url := url }) hinj hpr (Option.mem_def.2 rfl)
          (fun _ hx => mem_syncing_ofSync hx) (work_learns hq)
    · cases h

end

/-! ## Runs -/

/-- The store of a new vault. -/
theorem rostered_initStore {g : Genesis} {root : SignedMembershipEvent} {c : Membership.Chain}
    {st : Store} (hval : Membership.validate C g [root] = .ok c)
    (h : Vault.initStore C g root = .ok st) : Rostered C g st := by
  obtain rfl := putMembershipEvents_ok h
  refine ⟨c, hval, fun id row hrow hrev => ?_⟩
  obtain ⟨enrolledAt, hlookup⟩ := putDevice_lookup Store.empty
    { id := g.firstDeviceID, verifyKey := g.firstDeviceVerifyKey, recipient := g.firstDeviceRecipient,
      status := .active, enrolledAt := g.createdAt } id
  have hone := hlookup.symm.trans hrow
  split_ifs at hone
  · cases hone; cases hrev
  · cases hone

/-- **Main result.**  The store of a client that syncs and rejoins with relays that answer
    as they like: its chain is valid, every chain stored later is an extension of it, and
    a device stored as revoked stays revoked.  The encodings by which the client compares
    events tell apart the events `E` that it holds and receives. -/
theorem devices_grow (C : Suite) {size : Relay.ImportRecord → ℕ} {m : Manager}
    {E : SignedMembershipEvent → Prop} {st₀ : Store}
    (hinj : ∀ a b, E a → E b → sameEvent C a b = true → a = b)
    (hst : Rostered C m.genesis st₀) (hE : ∀ ev ∈ st₀.membership, E ev) {L L' : Lifetime}
    (h : Run.Reach (step C size m) (Carries E) { store := st₀, process := none } L)
    (h' : Run.Reach (step C size m) (Carries E) L L') :
    (∃ c, Membership.validate C m.genesis L.store.membership = .ok c) ∧
    L.store.membership <+: L'.store.membership ∧
    ∀ id row, L.store.devices.lookup id = some row → row.status = .revoked →
      ∃ row', L'.store.devices.lookup id = some row' ∧ row'.status = .revoked := by
  have hL : Inv C m.genesis E L :=
    h.invariant ⟨hst, hE, fun x hx => absurd hx (Option.not_mem_none x)⟩
      fun _ _ _ hs hok hstep => (hs.step hinj hok hstep).1
  have hkept : Inv C m.genesis E L' ∧ Kept L.store L'.store := by
    refine h'.invariant (P := fun K => Inv C m.genesis E K ∧ Kept L.store K.store)
      ⟨hL, .refl _⟩ ?_
    intro K l K' ⟨hK, hk⟩ hok hstep
    obtain ⟨hK', hk'⟩ := hK.step hinj hok hstep
    exact ⟨hK', hk.trans hk'⟩
  obtain ⟨c, hval, -⟩ := hL.rostered
  exact ⟨⟨c, hval⟩, hkept.2.chain, hkept.2.revoked⟩

/-! ## A device that is revoked once -/

namespace Vault01

open Sync.Vault01

/-- The device `0a`, which has founded the vault. -/
def manager : Manager :=
  { genesis := Sample.genesis, deviceID := Sample.id 0x0a, signing := [10], keys := setup.keys }

def events : List SignedMembershipEvent :=
  [Sample.root (Sample.id 0x0a) [10] "A", Sample.enrolment, Sample.revocation]

def membership (n : ℕ) : Label := .reply (.read (.membership (.ok (events.take n))))

/-- A Sync in which the relay sends the revocation of `0b`, interrupted once its row is
    written. -/
def learn : List Label :=
  let w : Label := .work (draw 0xff)
  [.sync "https://relay", w, membership 3, w, w, w, w, .stop]

/-- A Rejoin with a relay that does not know `0b` at first, and then not its revocation. -/
def forget : List Label :=
  let w : Label := .work (draw 0xff)
  let appended : Label := .reply (.append (.ok ()))
  [.rejoin "https://other", membership 1, w, appended, appended, membership 2, w, .stop]

instance decidableCarries (L : Lifetime) : (l : Label) → Decidable (Carries (· ∈ events) L l)
  | .reply (.read (.membership (.ok sent))) => inferInstanceAs (Decidable (∀ ev ∈ sent, ev ∈ events))
  | .reply (.read (.membership (.error _))) | .reply (.read (.records _))
  | .reply (.read (.putRecord _)) | .reply (.append _) | .reply (.importRecords _) | .sync _
  | .rejoin _ | .work _ | .stop => inferInstanceAs (Decidable True)

def run (L : Lifetime) (ls : List Label) : Option Lifetime :=
  Run.replay (step sample (fun _ => 0) manager) (Carries (· ∈ events)) L ls

def learned : Lifetime := (run { store := founding.store, process := none } learn).get (by decide)
def later : Lifetime := (run learned forget).get (by decide)

/-- The row of `0b` after the Sync. -/
def row : Vault.Device := (learned.store.devices.lookup (Sample.id 0x0b)).get (by decide)

theorem events_told_apart : ∀ a ∈ events, ∀ b ∈ events, sameEvent sample a b = true → a = b := by
  decide

theorem devices_grow_forget :
    learned.store.membership = events ∧ row.status = .revoked ∧
    (∃ c, Membership.validate sample Sample.genesis learned.store.membership = .ok c) ∧
    learned.store.membership <+: later.store.membership ∧
    ∃ row', later.store.devices.lookup (Sample.id 0x0b) = some row' ∧ row'.status = .revoked := by
  have hval : Membership.validate sample manager.genesis [Sample.root (Sample.id 0x0a) [10] "A"] =
      .ok Sample.firstChain := Except.eq_ok_get _
  have hrev : row.status = .revoked := by decide
  obtain ⟨hchain, hpre, hrows⟩ := devices_grow sample
    (fun a b ha hb hab => events_told_apart a ha b hb hab)
    (rostered_initStore hval founding.store_eq) (by decide)
    (Run.reach_of_replay (show run _ learn = some learned from (Option.some_get _).symm))
    (Run.reach_of_replay (show run learned forget = some later from (Option.some_get _).symm))
  exact ⟨by decide, hrev, hchain, hpre, hrows _ row (Option.some_get _).symm hrev⟩

end Vault01

end Lifetime

end Sshstate.Sync
