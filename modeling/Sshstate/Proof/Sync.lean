/-
  What a Sync installs, against a relay that answers every request as it likes.

  `Trace` is a Sync with a record of the envelopes it received (`seen`), of those
  it took from its outbox or sealed itself (`own`) and of the chain it accepted.
  `pull` checks every change it installs (`verify`) and installs none behind the
  stored head (`ahead`).  `push` checks neither the head that comes with a
  rejection nor whether an acceptance goes back behind a received head; `Checked`
  is what it would have to check, and `sync_installs` the result under it.
-/
import Sshstate.Lib.Run
import Sshstate.Proof.Engine
import Sshstate.Protocol.Sample

namespace Sshstate.Sync

open Vault (Store)

variable {C : Suite} {e : Engine}

/-! ## A Sync and its relay -/

structure Trace where
  store : Store
  phase : Phase
  seen : List Envelope
  own : List Envelope
  accepted : Option Membership.Chain

/-- A step: an answer of the relay, or an access to the store. -/
inductive Input where
  | reply (r : Reply)
  | draw (d : Draw)

/-- The envelopes an answer carries. -/
def carried : Reply → List Envelope
  | .records (.ok page) => page.changes
  | .putRecord (.ok (.rejected head)) => [head]
  | _ => []

/-- The envelopes a step takes from the outbox or seals. -/
def taken (st : Store) : (before after : Phase) → List Envelope
  | .readOutbox _, _ => st.pending
  | .preserve _ _ _ _, .resolve _ _ conflict _ _ => [conflict]
  | _, _ => []

/-- The chain a step accepts. -/
def acceptedBy (accepted : Option Membership.Chain) : Phase → Option Membership.Chain
  | .putMembership _ chain => some chain
  | _ => accepted

variable (C e) in
def Trace.step (s : Trace) : Input → Option Trace
  | .reply r => (s.phase.receive r).map fun p =>
      { s with phase := p, seen := (carried r).map Envelope.strip ++ s.seen }
  | .draw d => (work C e d s.store s.phase).map fun (st, p) =>
      { store := st, phase := p, seen := s.seen,
        own := (taken s.store s.phase p).map Envelope.strip ++ s.own,
        accepted := acceptedBy s.accepted p }

/-- A Sync about to start. -/
def Trace.start (st : Store) (seen : List Envelope) : Trace :=
  { store := st, phase := .start, seen := seen, own := [], accepted := none }

/-! ## What is installed -/

/-- Everything `verify` checks but the presence of a number: a valid envelope of
    this vault, signed by a device of the chain, and not past the position noted
    for a revoked one. -/
def Genuine (C : Suite) (g : Genesis) (st : Store) (chain : Membership.Chain) (env : Envelope) : Prop :=
  env.validate = .ok () ∧ env.context.vaultID = g.vaultID ∧
  ∃ d ∈ chain.device env.context.updatedBy,
    (d.revoked = true → ∀ at' ∈ st.revokedAt.lookup d.id, env.seq ≤ at') ∧
    C.verify d.verifyKey recordSignatureDomain (env.signingInput C) env.signature = true

instance (g : Genesis) (st : Store) (chain : Membership.Chain) (env : Envelope) :
    Decidable (Genuine C g st chain env) := by unfold Genuine; infer_instance

/-- `env` does not go back behind the stored head, if that was received from the relay. -/
def NotBehind (C : Suite) (st : Store) (seen : List Envelope) (env : Envelope) : Prop :=
  ∀ h ∈ st.head env.context.recordID, h.strip ∈ seen →
    h.context.rev < env.context.rev ∨ h.context.rev = env.context.rev ∧ h.digest C = env.digest C

instance (st : Store) (seen : List Envelope) (env : Envelope) :
    Decidable (NotBehind C st seen env) := by unfold NotBehind; infer_instance

/-- The heads a step installs: its own envelopes or genuine ones, and none behind
    a head that was received from the relay. -/
structure InstallsSound (C : Suite) (g : Genesis) (s s' : Trace) : Prop where
  source : ∀ id h', s'.store.head id = some h' → s.store.head id ≠ some h' →
    h'.context.recordID = id ∧
      (h'.strip ∈ s.own ∨ ∃ chain, s.accepted = some chain ∧ Genuine C g s.store chain h')
  forward : ∀ id h h', s.store.head id = some h → s'.store.head id = some h' → h.strip ∈ s.seen →
    h.context.rev < h'.context.rev ∨ h.context.rev = h'.context.rev ∧ h.digest C = h'.digest C

/-- The candidate a Sync waits for an answer to. -/
def Phase.submitted : Phase → Option (Locals × Envelope)
  | .push l c _ => some (l, c)
  | _ => none

def resultOf : Reply → Option PutResult
  | .putRecord (.ok res) => some res
  | _ => none

/-- A rejection comes with a genuine head that is not behind a received one, and a
    candidate behind a received head is not accepted. -/
def ResultChecked (C : Suite) (g : Genesis) (s : Trace) (l : Locals) (c : Envelope) : PutResult → Prop
  | .accepted _ _ => NotBehind C s.store s.seen c
  | .rejected head => Genuine C g s.store l.chain head ∧ NotBehind C s.store s.seen head

instance (g : Genesis) (s : Trace) (l : Locals) (c : Envelope) :
    (res : PutResult) → Decidable (ResultChecked C g s l c res)
  | .accepted _ _ => inferInstanceAs (Decidable (NotBehind C s.store s.seen c))
  | .rejected head => inferInstanceAs
      (Decidable (Genuine C g s.store l.chain head ∧ NotBehind C s.store s.seen head))

/-- The condition on an answer: its counters are counters, and a result is checked. -/
def Checked (C : Suite) (e : Engine) (s : Trace) : Input → Prop
  | .reply r => (∀ x ∈ carried r, x.context.rev < 2 ^ 64) ∧
    ∀ lc ∈ s.phase.submitted, ∀ res ∈ resultOf r,
      ResultChecked C e.manager.genesis s lc.1 lc.2 res
  | .draw _ => True

instance (s : Trace) : (i : Input) → Decidable (Checked C e s i)
  | .reply r => inferInstanceAs (Decidable ((∀ x ∈ carried r, x.context.rev < 2 ^ 64) ∧
      ∀ lc ∈ s.phase.submitted, ∀ res ∈ resultOf r,
        ResultChecked C e.manager.genesis s lc.1 lc.2 res))
  | .draw _ => inferInstanceAs (Decidable True)

/-! ## The invariant -/

/-- `env` goes past the stored head of its record. -/
def Ahead (st : Store) (env : Envelope) : Prop :=
  ∀ h, st.head env.context.recordID = some h → h.context.rev < env.context.rev

/-- The next version of a stored record whose revision is a counter. -/
def Extends (st : Store) (env : Envelope) : Prop :=
  ∀ h, st.head env.context.recordID = some h → h.context.rev < 2 ^ 64 →
    h.context.rev < env.context.rev

def Owned (own envs : List Envelope) : Prop := ∀ x ∈ envs, x.strip ∈ own

/-- What is known of the envelopes a phase holds. -/
def PhaseSound (C : Suite) (g : Genesis) (s : Trace) : Phase → Prop
  | .push _ c rest => Owned s.own (c :: rest)
  | .accept _ c _ rest => Owned s.own (c :: rest) ∧ NotBehind C s.store s.seen c
  | .supersede l c head rest | .preserve l c head rest => Owned s.own (c :: rest) ∧
      Genuine C g s.store l.chain head ∧ NotBehind C s.store s.seen head
  | .resolve l c conflict head rest => Owned s.own (conflict :: c :: rest) ∧
      Genuine C g s.store l.chain head ∧ NotBehind C s.store s.seen head ∧ Extends s.store conflict
  | .verifyChange l _ _ _ envs | .applyPage l _ envs =>
      ∀ x ∈ envs, Genuine C g s.store l.chain x ∧ Ahead s.store x
  | .compareHead l _ env _ envs => Genuine C g s.store l.chain env ∧
      ∀ x ∈ envs, Genuine C g s.store l.chain x ∧ Ahead s.store x
  | _ => True

structure Sound (C : Suite) (g : Genesis) (s : Trace) : Prop where
  counters : ∀ x ∈ s.seen, x.context.rev < 2 ^ 64
  chain : ∀ chain, s.phase.chain = some chain → s.accepted = some chain
  phase : PhaseSound C g s s.phase

/-! ## The checks of pull -/

theorem verify_ok {g : Genesis} {st : Store} {chain : Membership.Chain} {env : Envelope}
    (h : verify C g st chain env = .ok ()) : Genuine C g st chain env := by
  simp only [verify, Except.bind_eq_ok, Except.require_eq_ok] at h
  obtain ⟨⟨⟩, hvalid, -, hvault, -, -, h⟩ := h
  rcases hd : chain.device env.context.updatedBy with _ | d
  · simp [hd] at h
  · simp only [hd, Except.bind_eq_ok, Except.require_eq_ok] at h
    obtain ⟨⟨⟩, hrevoked, hsig⟩ := h
    refine ⟨hvalid, hvault, d, hd, fun hr at' hat => ?_, hsig⟩
    rw [if_pos hr, checkRevokedWriter, Option.mem_def.1 hat] at hrevoked
    exact Except.require_eq_ok.1 hrevoked

theorem ahead_true {st : Store} {env : Envelope} (h : ahead C st env = .ok true) : Ahead st env := by
  intro stored hstored
  simp only [ahead, hstored] at h
  split_ifs at h with hgt heq
  · exact hgt
  · simp [Except.bind_eq_ok] at h
  · simp at h

theorem Ahead.notBehind {st : Store} {env : Envelope} (h : Ahead st env) (seen : List Envelope) :
    NotBehind C st seen env := fun x hx _ => Or.inl (h x hx)

/-- The conflict record of a rejected candidate extends the stored one. -/
theorem extends_preserveCandidate {m : Vault.Manager} {st : Store} {c head k : Envelope}
    {now : String} {id : Vault.NewID} {r : Vault.Entropy}
    (h : m.preserveCandidate C st c head now id r = .ok k) : Extends st k := by
  obtain ⟨_, _, -, hk⟩ := Vault.Manager.preserveCandidate_ok h
  intro stored hstored hcounter
  have hrev := hk.valid.rev
  rw [hk.context] at hstored hrev ⊢
  simp only [Vault.Writer.context] at hstored hrev ⊢
  simp only [Vault.Manager.nextVersion, hstored, counterSucc] at hrev ⊢
  omega

/-! ## One step -/

/-- A step is sound if every head it changes is. -/
theorem InstallsSound.of_heads {g : Genesis} {s s' : Trace}
    (h : ∀ id, s'.store.head id = s.store.head id ∨ ∃ x, x.context.recordID = id ∧
      s'.store.head id = some x ∧
      (x.strip ∈ s.own ∨ ∃ chain, s.accepted = some chain ∧ Genuine C g s.store chain x) ∧
      NotBehind C s.store s.seen x) : InstallsSound C g s s' := by
  refine ⟨fun id h' hh' hne => ?_, fun id x x' hx hx' hseen => ?_⟩
  · rcases h id with heq | ⟨x, hid, hx, hsource, -⟩
    · exact absurd (heq ▸ hh') hne
    · obtain rfl : x = h' := Option.some.inj (hx.symm.trans hh')
      exact ⟨hid, hsource⟩
  · rcases h id with heq | ⟨y, hid, hy, -, hbehind⟩
    · obtain rfl : x = x' := Option.some.inj (hx.symm.trans (heq ▸ hx'))
      exact Or.inr ⟨rfl, rfl⟩
    · obtain rfl : y = x' := Option.some.inj (hy.symm.trans hx')
      exact hbehind x (by rw [hid]; exact hx) hseen

theorem Sound.installs {s s' : Trace} {i : Input} (hs : Sound C e.manager.genesis s)
    (h : s.step C e i = some s') : InstallsSound C e.manager.genesis s s' := by
  cases i with
  | reply r =>
    obtain ⟨p, -, rfl⟩ := Option.map_eq_some_iff.1 h
    exact .of_heads fun id => Or.inl rfl
  | draw d =>
    obtain ⟨⟨st', p'⟩, hwork, rfl⟩ := Option.map_eq_some_iff.1 h
    have hphase := hs.phase
    have hchain := hs.chain
    refine .of_heads fun id => ?_
    show st'.head id = _ ∨ _
    obtain ⟨st, p, seen, own, accepted⟩ := s
    cases work_effect hwork with
    | quiet hrecords _ _ => exact Or.inl (by simp only [Store.head, hrecords])
    | @accept l c seq rest _ htx =>
      obtain ⟨-, rfl⟩ := Store.acceptOutbox_ok.1 htx
      rw [Store.head_dequeue, Store.head_writeHead]
      split_ifs with hid
      · exact Or.inr ⟨{ c with seq := seq }, hid.symm, rfl, Or.inl (hphase.1 c (by simp)), hphase.2⟩
      · exact Or.inl rfl
    | @supersede l c head rest _ htx =>
      obtain ⟨-, rfl⟩ := Store.supersede_none_ok.1 htx
      rw [Store.head_writeHead]
      split_ifs with hid
      · exact Or.inr ⟨head, hid.symm, rfl, Or.inr ⟨l.chain, hchain _ rfl, hphase.2.1⟩, hphase.2.2⟩
      · exact Or.inl rfl
    | @resolve l c k head rest _ htx =>
      obtain ⟨st₁, hput, -, rfl⟩ := Store.resolveConflict_ok.1 htx
      obtain ⟨hown, hgenuine, hbehind, hext⟩ := hphase
      rw [Store.head_dequeue, Store.head_writeHead]
      split_ifs with hid
      · exact Or.inr ⟨head, hid.symm, rfl, Or.inr ⟨l.chain, hchain _ rfl, hgenuine⟩, hbehind⟩
      · rcases (Store.Installs.putRecord (List.mem_singleton.2 rfl) hput).head id with
          heq | ⟨x, hx, hxid, -, hxhead⟩
        · exact Or.inl (by rw [heq, Store.head_enqueueOutbox])
        · obtain rfl := List.mem_singleton.1 hx
          refine Or.inr ⟨x, hxid, hxhead, Or.inl (hown x (by simp)), fun y hy hseen => ?_⟩
          exact Or.inl (hext y hy (hs.counters y.strip hseen))
    | @apply l page envs _ htx =>
      obtain ⟨hinst, -⟩ := Store.applyRemoteBatch_ok htx
      rcases hinst.head id with heq | ⟨x, hx, hxid, -, hxhead⟩
      · exact Or.inl heq
      · obtain ⟨hgenuine, hahead⟩ := hphase x hx
        exact Or.inr ⟨x, hxid, hxhead, Or.inr ⟨l.chain, hchain _ rfl, hgenuine⟩, hahead.notBehind _⟩

/-! ## The invariant holds along every run -/

theorem phaseSound_nextCandidate {g : Genesis} {s : Trace} {l : Locals} {rest : List Envelope}
    (h : Owned s.own rest) : PhaseSound C g s (nextCandidate l rest) := by
  cases rest with
  | nil => trivial
  | cons c rest => exact h

theorem phaseSound_nextChange {g : Genesis} {s : Trace} {l : Locals} {page : RecordsResponse}
    {envs todo : List Envelope}
    (h : ∀ x ∈ envs, Genuine C g s.store l.chain x ∧ Ahead s.store x) :
    PhaseSound C g s (nextChange l page envs todo) := by
  cases todo <;> exact h

theorem phaseSound_nextDevice {g : Genesis} {s : Trace} {known : ℕ} {chain : Membership.Chain}
    {newlyRevoked : List ID} {todo : List Membership.Device} :
    PhaseSound C g s (nextDevice known chain newlyRevoked todo) := by
  cases todo <;> trivial

theorem phaseSound_nextRevocation {g : Genesis} {s : Trace} {l : Locals} {through : ℕ}
    {todo : List ID} : PhaseSound C g s (nextRevocation l through todo) := by
  cases todo <;> trivial

theorem phaseSound_failMembership {g : Genesis} {s : Trace} {err : Error} :
    PhaseSound C g s (failMembership err) := by
  unfold failMembership; split_ifs <;> trivial

theorem phaseSound_afterPage {g : Genesis} {s : Trace} {l : Locals} {page : RecordsResponse} :
    PhaseSound C g s (afterPage l page) := by
  unfold afterPage afterPull
  split_ifs
  · trivial
  · exact phaseSound_nextRevocation
  · trivial

theorem phaseSound_checkLatest {g : Genesis} {s : Trace} {url : String} {l : Locals} {since : ℕ}
    {stored : String} {latest : RecordsResponse} :
    PhaseSound C g s (checkLatest url l since stored latest) := by
  unfold checkLatest; split_ifs <;> trivial

/-- A head that was just received is not behind itself. -/
theorem NotBehind.seen_cons {st : Store} {seen : List Envelope} {env : Envelope}
    (h : NotBehind C st seen env) : NotBehind C st (env.strip :: seen) env := by
  intro x hx hmem
  rcases List.mem_cons.1 hmem with heq | hseen
  · exact Or.inr ⟨by rw [Envelope.context_of_strip heq], Envelope.digest_of_strip C heq⟩
  · exact h x hx hseen

theorem Sound.reply {s s' : Trace} {r : Reply} (hs : Sound C e.manager.genesis s)
    (hok : Checked C e s (.reply r)) (h : s.step C e (.reply r) = some s') :
    Sound C e.manager.genesis s' := by
  obtain ⟨p, hp, rfl⟩ := Option.map_eq_some_iff.1 h
  obtain ⟨hrange, hok⟩ := hok
  refine ⟨fun x hx => ?_, fun chain hchain => ?_, ?_⟩
  · rcases List.mem_append.1 hx with hx | hx
    · obtain ⟨y, hy, rfl⟩ := List.mem_map.1 hx
      exact hrange y hy
    · exact hs.counters x hx
  · rcases receive_chain hp with hnone | hsame
    · rw [show p.chain = some chain from hchain] at hnone; cases hnone
    · exact hs.chain chain (hsame ▸ hchain)
  · obtain ⟨st, phase, seen, own, accepted⟩ := s
    have hphase := hs.phase
    simp only [Phase.receive] at hp
    split at hp
    · split at hp <;> cases hp
      · trivial
      · exact phaseSound_failMembership
    · split at hp <;> cases hp <;> trivial
    · split at hp <;> cases hp
      · next l c rest _ res =>
        have hok := hok (l, c) rfl res rfl
        cases res with
        | accepted seq digest => exact ⟨hphase, hok⟩
        | rejected head =>
          simp only [onResult]
          split_ifs <;> exact ⟨hphase, hok.1, hok.2.seen_cons⟩
      · trivial
    · split at hp <;> cases hp
      · exact phaseSound_nextChange fun x hx => absurd hx List.not_mem_nil
      · trivial
    · cases hp

theorem PhaseSound.of_commit {g : Genesis} {s : Trace} {st st' : Store} {tx : Except Error Store}
    {next p' : Phase} (hn : PhaseSound C g s next) (h : commit st tx next = (st', p')) :
    PhaseSound C g s p' := by
  rcases commit_eq h with ⟨-, rfl⟩ | ⟨-, err, rfl⟩
  · exact hn
  · trivial

theorem Sound.work {s s' : Trace} {d : Draw} (hs : Sound C e.manager.genesis s)
    (h : s.step C e (.draw d) = some s') : Sound C e.manager.genesis s' := by
  obtain ⟨⟨st', p'⟩, hwork, rfl⟩ := Option.map_eq_some_iff.1 h
  obtain ⟨st, p, seen, own, accepted⟩ := s
  refine ⟨hs.counters, fun chain hchain => ?_, ?_⟩
  · rcases work_chain hwork with (hnone | hsame) | ⟨known, events, chain', -, -, rfl⟩
    · rw [show p'.chain = some chain from hchain] at hnone; cases hnone
    · have hacc := hs.chain chain (hsame ▸ hchain)
      cases p' <;> first | exact hacc | exact hchain
    · exact hchain
  · have hphase := hs.phase
    show PhaseSound C _ _ p'
    cases p with
    | readOutbox l =>
      cases hwork
      refine phaseSound_nextCandidate fun x hx => List.mem_append_left _ ?_
      exact List.mem_map_of_mem hx
    | accept l c seq rest =>
      refine .of_commit (phaseSound_nextCandidate ?_) (Option.some.inj hwork)
      exact fun x hx => List.mem_append_right _ (hphase.1 x (List.mem_cons_of_mem _ hx))
    | supersede l c head rest =>
      refine .of_commit (phaseSound_nextCandidate ?_) (Option.some.inj hwork)
      exact fun x hx => List.mem_append_right _ (hphase.1 x (List.mem_cons_of_mem _ hx))
    | resolve l c k head rest =>
      refine .of_commit (phaseSound_nextCandidate ?_) (Option.some.inj hwork)
      exact fun x hx => List.mem_append_right _ (hphase.1 x (by simp [hx]))
    | preserve l c head rest =>
      simp only [Sync.work] at hwork
      split at hwork <;> cases hwork
      · next k hk =>
        refine ⟨fun x hx => ?_, hphase.2.1, hphase.2.2, extends_preserveCandidate hk⟩
        rcases List.mem_cons.1 hx with rfl | hx
        · exact List.mem_append_left _ (by simp [taken])
        · exact List.mem_append_right _ (hphase.1 x hx)
      · trivial
    | verifyChange l page env todo envs =>
      simp only [Sync.work] at hwork
      split at hwork <;> cases hwork
      · next hv => exact ⟨verify_ok hv, hphase⟩
      · trivial
    | compareHead l page env todo envs =>
      simp only [Sync.work] at hwork
      split at hwork <;> cases hwork
      · next apply ha =>
        refine phaseSound_nextChange fun x hx => ?_
        cases apply with
        | false => exact hphase.2 x hx
        | true =>
          rcases List.mem_append.1 hx with hx | hx
          · exact hphase.2 x hx
          · rw [List.mem_singleton.1 hx]; exact ⟨hphase.1, ahead_true ha⟩
      · trivial
    | applyPage l page envs => exact .of_commit phaseSound_afterPage (Option.some.inj hwork)
    | compareMembership known events =>
      simp only [Sync.work] at hwork
      split at hwork <;> cases hwork
      · trivial
      · exact phaseSound_failMembership
    | putMembership known chain =>
      simp only [Sync.work] at hwork
      split at hwork <;> cases hwork
      · exact phaseSound_nextDevice
      · exact phaseSound_failMembership
    | putDevice known chain dev todo newlyRevoked =>
      cases hwork
      split_ifs
      · trivial
      · exact phaseSound_nextDevice
    | revocationNoted known chain id todo newlyRevoked =>
      cases hwork; exact phaseSound_nextDevice
    | checkLatest l since latest => cases hwork; exact phaseSound_checkLatest
    | noteRevocation l through id todo =>
      cases hwork
      split_ifs
      · exact phaseSound_nextRevocation
      · trivial
    | writeRevocation l through id todo => cases hwork; exact phaseSound_nextRevocation
    | start | noteRefusal | readCursor | recordHistory | pullCursor => cases hwork; trivial
    | fetchMembership | fetchLatest | push | fetchPage | done | failed => cases hwork

theorem sound_start {st : Store} {seen : List Envelope} {g : Genesis}
    (hseen : ∀ x ∈ seen, x.context.rev < 2 ^ 64) : Sound C g (.start st seen) :=
  ⟨hseen, (fun _ h => nomatch h), trivial⟩

/-- **What a Sync installs.**  Whatever a client holds and has received before, and
    whatever the relay answers: along a Sync whose answers are all `Checked`, every
    step installs only own envelopes and genuine ones, and never goes back behind a
    head that was received from the relay. -/
theorem sync_installs {st : Store} {seen : List Envelope} {s s' : Trace} {i : Input}
    (hseen : ∀ x ∈ seen, x.context.rev < 2 ^ 64)
    (hreach : Run.Reach (Trace.step C e) (Checked C e) (.start st seen) s)
    (hstep : s.step C e i = some s') : InstallsSound C e.manager.genesis s s' := by
  have hs : Sound C e.manager.genesis s := by
    refine hreach.invariant (sound_start hseen) fun s i s' hs hok h => ?_
    cases i with
    | reply r => exact hs.reply hok h
    | draw d => exact hs.work h
  exact hs.installs hstep

/-! ### A relay that makes up the head of a rejection -/

namespace Device0a

open Sample (genesis root)

def manager : Vault.Manager :=
  { genesis := genesis, deviceID := Sample.id 0x0a, signing := [10],
    keys := { epoch := 1, metadata := [1], secret := [2] } }

def engine : Engine := { manager := manager, url := "https://relay" }

def entropy : Vault.Entropy := { nonce := [9], nonce_ne_nil := Sample.nonce_ne_nil, signature := [] }

/-- A drawn id. -/
def newID (n : ℕ) (h : ID.valid (Sample.id n) = true) : Vault.NewID := { id := Sample.id n, valid := h }

/-- The host record `20`, created on this device. -/
def edit : Vault.Manager.Edit :=
  { kind := .create (newID 0x20 (by decide)) .host RecordType.isConflict_host
      { bytes := [5], bytes_ne_nil := Sample.payload_ne_nil },
    mutationID := newID 0x30 (by decide), entropy := entropy }

/-- The store after `Init`. -/
def fresh : Store :=
  { Store.empty with membership := [root (Sample.id 0x0a) [10] "A"] }.putDevice
    { id := Sample.id 0x0a, verifyKey := [10], recipient := "A", status := .active, enrolledAt := "t0" }

def candidate : Envelope := (manager.sealEdit sample Store.empty edit).get (by decide)

def store : Store := (fresh.applyLocalBatch sample [candidate]).get (by decide)

/-- An envelope of the record `20` that no device signed. -/
def forged : Envelope :=
  { candidate with
    context := { candidate.context with mutationID := Sample.id 0x66 }
    signature := [6, 6, 6], seq := 1 }

def draw : Input := .draw { now := "t0", mutationID := newID 0x31 (by decide), entropy := entropy }

/-- The page of a relay without records. -/
def noRecords : RecordsResponse :=
  { changes := [], nextCursor := 0, snapshotCursor := 0, hasMore := false, history := "h",
    historyOrigin := historyCreated }

/-- The steps up to the candidate, which `result` answers. -/
def inputs (result : PutResult) : List Input :=
  [draw, .reply (.membership (.ok [root (Sample.id 0x0a) [10] "A"])), draw, draw, draw, draw,
   .reply (.records (.ok noRecords)), draw, draw, draw, .reply (.putRecord (.ok result))]

/-- The Sync after the candidate was accepted, within the condition. -/
def accepted : Trace :=
  (Run.replay (Trace.step sample engine) (Checked sample engine) (.start store [])
    (inputs (.accepted 1 none))).get (by decide)

/-- The Sync after the candidate was rejected with the forged head and preserved. -/
def rejected : Trace :=
  (Run.replay (Trace.step sample engine) (fun _ _ => True) (.start store [])
    (inputs (.rejected forged) ++ [draw])).get (by decide)

end Device0a

open Device0a in
/-- A relay that accepts the candidate: the step that installs it is sound. -/
theorem sync_installs_accepted : ∃ s',
    Run.Reach (Trace.step sample engine) (Checked sample engine) (.start store []) accepted ∧
    accepted.step sample engine draw = some s' ∧ s'.store.outbox = [] ∧
    InstallsSound sample engine.manager.genesis accepted s' := by
  have hreach : Run.Reach (Trace.step sample engine) (Checked sample engine) (.start store [])
      accepted := Run.reach_of_replay (Option.some_get _).symm
  have hstep := Option.eq_some_of_isSome
    (by decide : (accepted.step sample engine draw).isSome = true)
  exact ⟨_, hreach, hstep, by decide, sync_installs (by simp) hreach hstep⟩

open Device0a in
/-- The relay rejects the candidate with a head that nobody signed: `push` makes it
    the head of the record. -/
theorem sync_installs_forged : ∃ s',
    Run.Reach (Trace.step sample engine) (fun _ _ => True) (.start store []) rejected ∧
    rejected.step sample engine draw = some s' ∧
    s'.store.head (Sample.id 0x20) = some forged ∧ forged.strip ∉ rejected.own ∧
    (∀ chain ∈ rejected.accepted,
      ¬ Genuine sample engine.manager.genesis rejected.store chain forged) ∧
    ¬ InstallsSound sample engine.manager.genesis rejected s' := by
  have hreach : Run.Reach (Trace.step sample engine) (fun _ _ => True) (.start store [])
      rejected := Run.reach_of_replay (Option.some_get _).symm
  have hstep := Option.eq_some_of_isSome
    (by decide : (rejected.step sample engine draw).isSome = true)
  have hown : forged.strip ∉ rejected.own := by decide
  have hgenuine : ∀ chain ∈ rejected.accepted,
      ¬ Genuine sample engine.manager.genesis rejected.store chain forged := by decide
  refine ⟨_, hreach, hstep, by decide, hown, hgenuine, fun hs => ?_⟩
  have hsource := hs.source (Sample.id 0x20) forged (by decide) (by decide)
  rcases hsource.2 with h | ⟨chain, hchain, h⟩
  · exact hown h
  · exact hgenuine chain hchain h

end Sshstate.Sync
