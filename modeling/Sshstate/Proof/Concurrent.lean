/-
  Revocation and submissions that overlap.

  A call that runs without others does what the sequential `putRecord` and
  `appendMembership` say (`put_alone`, `append_alone`).  Calls that overlap keep the
  chain valid: an event is only inserted at the place it was checked for
  (`Steady`).  But the writer of a record is checked before the transaction that
  stores it, so that a revocation can come between (`revoked_writer_stored`).  In
  runs in which none does, nothing is written by a device after its revocation
  (`no_write_after_revocation`).
-/
import Sshstate.Lib.Run
import Sshstate.Proof.Mutations
import Sshstate.Relay.Concurrent

namespace Sshstate.Relay

variable {C : Suite}

namespace Store

/-! ## The steps of one call -/

theorem verifyRecordSignature_eq (st : Store) (v : ID) (env : Envelope) :
    st.verifyRecordSignature C v env = (do
      let g ← st.genesis v
      let chain ← readChain C g st.membership
      checkWriter C chain env) := by
  simp only [verifyRecordSignature, chain, readChain, bind_assoc]
  rfl

theorem checkSubmission_eq (st : Store) (v : ID) (env : Envelope) :
    st.checkSubmission C v env = (do
      let digest ← checkEnvelope C v env
      let g ← st.genesis v
      let chain ← readChain C g st.membership
      checkWriter C chain env
      return digest) := by
  simp only [checkSubmission, checkEnvelope, verifyRecordSignature_eq, bind_assoc]

theorem checkEnvelope_eq_ok {v : ID} {env : Envelope} {d : Bytes} (h : checkEnvelope C v env = .ok d) :
    env.Valid ∧ d = env.digest C := by
  simp only [checkEnvelope, Except.bind_eq_ok, Except.mapError_eq_ok, Envelope.validate_eq_ok,
    Envelope.digestE_eq_ok] at h
  obtain ⟨-, hv, -, -, -, -, -, rfl⟩ := h
  exact ⟨hv, rfl⟩

theorem checkWriter_eq_ok {chain : Membership.Chain} {env : Envelope} {u : Unit}
    (h : checkWriter C chain env = .ok u) :
    ∃ d, chain.device env.context.updatedBy = some d ∧ d.revoked = false := by
  unfold checkWriter at h
  rcases hd : chain.device env.context.updatedBy with _ | d
  · simp [hd] at h
  · simp only [hd, Except.require_bind_eq_ok] at h
    exact ⟨d, rfl, h.1⟩

theorem genesis_ok {st : Store} {g g' : Genesis} {v : ID}
    (hrow : ∃ row, st.vault = some row ∧ row.genesis = g) (h : st.genesis v = .ok g') :
    g' = g ∧ v = g.vaultID := by
  obtain ⟨row, hrow, rfl⟩ := hrow
  simp only [Store.genesis, hrow] at h
  split_ifs at h with hv
  exact ⟨(Except.ok.inj h).symm, hv.symm⟩

theorem orderedInsert_of_last {α : Type} {r : α → α → Prop} [DecidableRel r] {a : α} :
    ∀ {l : List α}, (∀ b ∈ l, ¬ r a b) → l.orderedInsert r a = l ++ [a]
  | [], _ => rfl
  | b :: l, h => by
    rw [List.orderedInsert, if_neg (h b (by simp)),
      orderedInsert_of_last fun c hc => h c (List.mem_cons_of_mem b hc), List.cons_append]

/-- An event is inserted only if the chain it was checked against is still the whole
    chain. -/
theorem insertMembership_eq_ok {st st' : Store} {g : Genesis} {c next c' : Membership.Chain}
    {events : List SignedMembershipEvent} {ev : SignedMembershipEvent}
    (hpre : events <+: st.membership) (hval : Membership.validate C g events = .ok c)
    (happ : c.apply C ev = .ok next) (hfull : Membership.validate C g st.membership = .ok c') :
    st.insertMembership ev = .ok st' ↔
      events = st.membership ∧ st' = { st with membership := st.membership ++ [ev] } := by
  have hseq : ev.event.chainSeq = events.length + 1 := by
    rw [Membership.Chain.apply_chainSeq happ, (Membership.validate_events hval).1]
  have hseqs := Membership.chainSeq_of_validate hfull
  simp only [insertMembership, Except.require_bind_eq_ok, Except.pure_eq_ok, Except.ok.injEq]
  rw [hseqs, hseq, List.mem_range'_1]
  constructor
  · rintro ⟨hfree, rfl⟩
    have heq : events = st.membership := hpre.eq_of_length_le (by omega)
    refine ⟨heq, ?_⟩
    rw [orderedInsert_of_last fun b hb => ?_]
    have hmem := List.mem_map_of_mem (f := (·.event.chainSeq)) hb
    rw [hseqs, List.mem_range'_1] at hmem
    rw [hseq, heq]
    omega
  · rintro ⟨rfl, rfl⟩
    refine ⟨by omega, ?_⟩
    rw [orderedInsert_of_last fun b hb => ?_]
    have hmem := List.mem_map_of_mem (f := (·.event.chainSeq)) hb
    rw [hseqs, List.mem_range'_1] at hmem
    rw [hseq]
    omega

end Store

variable (C) in
/-- A call without others, for at most `n` steps. -/
def Task.alone : ℕ → Store → Task → Task × Store
  | 0, st, t => (t, st)
  | n + 1, st, t =>
    match t.next C st with
    | none => (t, st)
    | some (t', st') => alone n st' t'

/-- The three steps of a submission are `PutRecord`. -/
theorem put_alone (st : Store) (v : ID) (env : Envelope) (now : String) :
    Task.alone C 3 st (.put v env now) =
      match st.putRecord C v env now with
      | .error err => (.putDone (.error err), st)
      | .ok (out, st') => (.putDone (.ok out), st') := by
  rw [Store.putRecord_eq, Store.checkSubmission_eq]
  rcases he : Store.checkEnvelope C v env with err | digest
  · simp [Task.alone, Task.next, he]
  rcases hg : st.genesis v with err | g
  · simp [Task.alone, Task.next, he, hg]
  rcases hc : Store.readChain C g st.membership with err | chain
  · simp [Task.alone, Task.next, he, hg, hc]
  rcases hw : Store.checkWriter C chain env with err | u
  · simp [Task.alone, Task.next, he, hg, hc, hw]
  rcases ht : st.transact C v env digest now with err | ⟨out, st'⟩ <;>
    simp [Task.alone, Task.next, he, hg, hc, hw, ht]

/-- The three steps of an event are `AppendMembership`. -/
theorem append_alone (st : Store) (v : ID) (ev : SignedMembershipEvent) :
    Task.alone C 3 st (.append v ev) =
      match st.appendMembership C v ev with
      | .error err => (.appendDone (.error err), st)
      | .ok (next, st') => (.appendDone (.ok next), st') := by
  unfold Store.appendMembership Store.chain
  rcases hg : st.genesis v with err | g
  · simp [Task.alone, Task.next, hg]
  rcases hc : Membership.validate C g st.membership with err | chain
  · simp [Task.alone, Task.next, hg, hc, Store.readChain, Except.mapError]
  rcases ha : chain.append C ev with err | next
  · simp [Task.alone, Task.next, hg, hc, ha, Store.readChain, Store.checkAppend, Except.mapError]
  have hins : st.insertMembership ev = .ok { st with membership := st.membership ++ [ev] } :=
    (Store.insertMembership_eq_ok (List.prefix_refl _) hc ha hc).2 ⟨rfl, rfl⟩
  by_cases hseq : ev.event.chainSeq ≤ maxInt64 <;>
    simp [Task.alone, Task.next, hg, hc, ha, hins, hseq, Store.readChain, Store.checkAppend,
      Except.mapError, Except.require]

/-! ## One step of a call -/

section Next

variable {st st' : Store} {t' : Task}

theorem Task.put_next {v : ID} {env : Envelope} {now : String}
    (h : (Task.put v env now).next C st = some (t', st')) :
    st' = st ∧ ((∃ err, t' = .putDone (.error err)) ∨
      ∃ g, env.Valid ∧ st.genesis v = .ok g ∧ t' = .putGenesis v env now (env.digest C) g) := by
  delta Task.next at h
  rcases he : Store.checkEnvelope C v env with err | digest
  · simp only [he, Except.bind_error'] at h
    cases h
    exact ⟨rfl, Or.inl ⟨err, rfl⟩⟩
  rcases hg : st.genesis v with err | g
  · simp only [he, hg, Except.bind_ok', Except.bind_error'] at h
    cases h
    exact ⟨rfl, Or.inl ⟨err, rfl⟩⟩
  · simp only [he, hg, Except.bind_ok', Except.pure_eq_ok] at h
    cases h
    obtain ⟨hv, rfl⟩ := Store.checkEnvelope_eq_ok he
    exact ⟨rfl, Or.inr ⟨g, hv, rfl, rfl⟩⟩

theorem Task.putGenesis_next {v : ID} {env : Envelope} {now : String} {digest : Bytes} {g : Genesis}
    (h : (Task.putGenesis v env now digest g).next C st = some (t', st')) :
    st' = st ∧ ((∃ err, t' = .putDone (.error err)) ∨
      ∃ chain d, Membership.validate C g st.membership = .ok chain ∧
        chain.device env.context.updatedBy = some d ∧ d.revoked = false ∧
        t' = .putChecked v env now digest) := by
  delta Task.next at h
  rcases hr : (do Store.checkWriter C (← Store.readChain C g st.membership) env :
    Except Error Unit) with err | u
  · simp only [hr] at h
    cases h
    exact ⟨rfl, Or.inl ⟨err, rfl⟩⟩
  · simp only [hr] at h
    cases h
    obtain ⟨chain, hchain, hw⟩ := Except.bind_eq_ok.1 hr
    obtain ⟨d, hd, hrev⟩ := Store.checkWriter_eq_ok hw
    exact ⟨rfl, Or.inr ⟨chain, d, Except.mapError_eq_ok.1 hchain, hd, hrev, rfl⟩⟩

theorem Task.putChecked_next {v : ID} {env : Envelope} {now : String} {digest : Bytes}
    (h : (Task.putChecked v env now digest).next C st = some (t', st')) :
    (st' = st ∧ ∃ err, t' = .putDone (.error err)) ∨
    ∃ out, st.transact C v env digest now = .ok (out, st') ∧ t' = .putDone (.ok out) := by
  delta Task.next at h
  rcases hr : st.transact C v env digest now with err | ⟨out, st''⟩
  · simp only [hr] at h
    cases h
    exact Or.inl ⟨rfl, err, rfl⟩
  · simp only [hr] at h
    cases h
    exact Or.inr ⟨out, rfl, rfl⟩

theorem Task.append_next {v : ID} {ev : SignedMembershipEvent}
    (h : (Task.append v ev).next C st = some (t', st')) :
    st' = st ∧ ((∃ err, st.genesis v = .error err ∧ t' = .appendDone (.error err)) ∨
      ∃ g, st.genesis v = .ok g ∧ t' = .appendGenesis ev g) := by
  delta Task.next at h
  rcases hg : st.genesis v with err | g
  · simp only [hg] at h
    cases h
    exact ⟨rfl, Or.inl ⟨err, rfl, rfl⟩⟩
  · simp only [hg] at h
    cases h
    exact ⟨rfl, Or.inr ⟨g, rfl, rfl⟩⟩

/-- Where the stored chain is valid. -/
theorem Task.appendGenesis_next {ev : SignedMembershipEvent} {g : Genesis} {c : Membership.Chain}
    (hval : Membership.validate C g st.membership = .ok c)
    (h : (Task.appendGenesis ev g).next C st = some (t', st')) :
    st' = st ∧ ((∃ err, Store.checkAppend C c ev = .error err ∧ t' = .appendDone (.error err)) ∨
      ∃ next, c.apply C ev = .ok next ∧ ev.event.chainSeq ≤ maxInt64 ∧
        t' = .appendChecked ev next) := by
  delta Task.next at h
  have hread : Store.readChain C g st.membership = .ok c := Except.mapError_eq_ok.2 hval
  rcases hr : Store.checkAppend C c ev with err | next
  · simp only [hread, Except.bind_ok', hr] at h
    cases h
    exact ⟨rfl, Or.inl ⟨err, rfl, rfl⟩⟩
  · simp only [hread, Except.bind_ok', hr] at h
    cases h
    simp only [Store.checkAppend, Except.bind_eq_ok, Except.mapError_eq_ok, Except.pure_eq_ok,
      Except.require_eq_ok, Except.ok.injEq] at hr
    obtain ⟨_, happ, -, hmax, rfl⟩ := hr
    exact ⟨rfl, Or.inr ⟨_, happ, hmax, rfl⟩⟩

theorem Task.appendChecked_next {ev : SignedMembershipEvent} {next : Membership.Chain}
    (h : (Task.appendChecked ev next).next C st = some (t', st')) :
    (st' = st ∧ ∃ err, st.insertMembership ev = .error err ∧ t' = .appendDone (.error err)) ∨
    (st.insertMembership ev = .ok st' ∧ t' = .appendDone (.ok next)) := by
  delta Task.next at h
  rcases hr : st.insertMembership ev with err | st''
  · simp only [hr] at h
    cases h
    exact Or.inl ⟨rfl, err, rfl, rfl⟩
  · simp only [hr] at h
    cases h
    exact Or.inr ⟨rfl, rfl⟩

end Next

/-! ## Overlapping calls -/

/-- The writer of a record that was checked and is not stored yet. -/
def Task.checkedWriter : Task → Option ID
  | .putChecked _ env _ _ => some env.context.updatedBy
  | _ => none

/-- The device that a step revokes. -/
def Busy.revokes (b : Busy) : Turn → Option ID
  | .advance i =>
    match b.tasks[i]? with
    | some (.appendChecked ev _) =>
      if ev.event.action = .revoke then some ev.event.deviceID else none
    | _ => none
  | _ => none

/-- No device is revoked while a record of it is between its check and its
    transaction. -/
def Unraced (b : Busy) (l : Turn) : Prop :=
  ∀ d ∈ b.revokes l, ∀ t ∈ b.tasks, t.checkedWriter ≠ some d

instance (b : Busy) (l : Turn) : Decidable (Unraced b l) :=
  inferInstanceAs (Decidable (∀ d ∈ b.revokes l, ∀ t ∈ b.tasks, t.checkedWriter ≠ some d))

variable (C) in
/-- What a call relies on between two of its steps. -/
def Task.Steady (g : Genesis) (membership : List SignedMembershipEvent) : Task → Prop
  | .putGenesis _ env _ digest g' => env.Valid ∧ digest = env.digest C ∧ g' = g
  | .putChecked _ env _ digest => env.Valid ∧ digest = env.digest C ∧
      ∀ s ∈ membership, s.event.action = .revoke → s.event.deviceID ≠ env.context.updatedBy
  | .appendGenesis _ g' => g' = g
  | .appendChecked ev next => ∃ events c, events <+: membership ∧
      Membership.validate C g events = .ok c ∧ c.apply C ev = .ok next
  | _ => True

variable (C) in
/-- The stored chain is valid, and every call can rely on what it has read. -/
structure Steady (g : Genesis) (b : Busy) : Prop where
  vault : ∃ row, b.store.vault = some row ∧ row.genesis = g
  chain : ∃ c, Membership.validate C g b.store.membership = .ok c
  tasks : ∀ t ∈ b.tasks, t.Steady C g b.store.membership

theorem Steady.genesis {g g' : Genesis} {b : Busy} {v : ID} (hb : Steady C g b)
    (h : b.store.genesis v = .ok g') : g' = g :=
  (Store.genesis_ok hb.vault h).1

/-- A longer chain revokes nobody whose record is checked. -/
theorem Task.Steady.grow {g : Genesis} {membership : List SignedMembershipEvent} {t : Task}
    {ev : SignedMembershipEvent} (h : t.Steady C g membership)
    (hev : ev.event.action = .revoke → t.checkedWriter ≠ some ev.event.deviceID) :
    t.Steady C g (membership ++ [ev]) := by
  cases t with
  | putChecked v env now digest =>
    refine ⟨h.1, h.2.1, fun s hs hr hid => ?_⟩
    rcases List.mem_append.1 hs with hs | hs
    · exact h.2.2 s hs hr hid
    · obtain rfl := List.mem_singleton.1 hs
      exact hev hr (congrArg some hid.symm)
  | appendChecked ev' next =>
    obtain ⟨events, c, hpre, hrest⟩ := h
    exact ⟨events, c, hpre.trans (List.prefix_append ..), hrest⟩
  | _ => exact h

/-- What a step of a call does to the store: nothing, the transaction of a submission,
    or the insertion of an event; and what the call then relies on. -/
theorem Steady.next {g : Genesis} {b : Busy} {t t' : Task} {st' : Store} (hb : Steady C g b)
    (ht : t.Steady C g b.store.membership) (h : t.next C b.store = some (t', st')) :
    (st' = b.store ∧ t'.Steady C g b.store.membership) ∨
    (∃ v env now out, t = .putChecked v env now (env.digest C) ∧ env.Valid ∧
      b.store.transact C v env (env.digest C) now = .ok (out, st') ∧ t' = .putDone (.ok out)) ∨
    (∃ ev next c, t = .appendChecked ev next ∧ c.apply C ev = .ok next ∧
      Membership.validate C g b.store.membership = .ok c ∧
      st' = { b.store with membership := b.store.membership ++ [ev] } ∧
      t' = .appendDone (.ok next)) := by
  obtain ⟨c, hval⟩ := hb.chain
  cases t with
  | put v env now =>
    obtain ⟨rfl, ⟨err, rfl⟩ | ⟨g', hv, hg, rfl⟩⟩ := Task.put_next h
    · exact Or.inl ⟨rfl, trivial⟩
    · exact Or.inl ⟨rfl, hv, rfl, hb.genesis hg⟩
  | putGenesis v env now digest g' =>
    obtain ⟨hv, rfl, rfl⟩ := ht
    obtain ⟨rfl, ⟨err, rfl⟩ | ⟨chain, d, hchain, hd, hrev, rfl⟩⟩ := Task.putGenesis_next h
    · exact Or.inl ⟨rfl, trivial⟩
    · refine Or.inl ⟨rfl, hv, rfl, fun s hs hrs hid => ?_⟩
      -- the chain that was just read has not revoked the writer
      obtain ⟨i, hi⟩ := List.getElem?_of_mem hs
      refine (Membership.sound_of_validate hchain).not_revokesAt hd hrev i ⟨s, ?_, hrs, hid⟩
      rwa [(Membership.validate_events hchain).1]
  | putChecked v env now digest =>
    obtain ⟨hv, rfl, -⟩ := ht
    obtain ⟨rfl, err, rfl⟩ | ⟨out, htx, rfl⟩ := Task.putChecked_next h
    · exact Or.inl ⟨rfl, trivial⟩
    · exact Or.inr (Or.inl ⟨v, env, now, out, rfl, hv, htx, rfl⟩)
  | append v ev =>
    obtain ⟨rfl, ⟨err, -, rfl⟩ | ⟨g', hg, rfl⟩⟩ := Task.append_next h
    · exact Or.inl ⟨rfl, trivial⟩
    · exact Or.inl ⟨rfl, hb.genesis hg⟩
  | appendGenesis ev g' =>
    obtain rfl : g' = g := ht
    obtain ⟨rfl, ⟨err, -, rfl⟩ | ⟨next, happ, -, rfl⟩⟩ := Task.appendGenesis_next hval h
    · exact Or.inl ⟨rfl, trivial⟩
    · exact Or.inl ⟨rfl, _, c, List.prefix_refl _, hval, happ⟩
  | appendChecked ev next =>
    obtain ⟨events, c', hpre, hval', happ⟩ := ht
    obtain ⟨rfl, err, -, rfl⟩ | ⟨hins, rfl⟩ := Task.appendChecked_next h
    · exact Or.inl ⟨rfl, trivial⟩
    · obtain ⟨rfl, rfl⟩ := (Store.insertMembership_eq_ok hpre hval' happ hval).1 hins
      exact Or.inr (Or.inr ⟨ev, next, c', rfl, happ, hval', rfl, rfl⟩)
  | putDone r => cases h
  | appendDone r => cases h

theorem Store.transact_frame {st st' : Store} {v : ID} {env : Envelope} {now : String}
    {out : Store.PutOutcome} (h : st.transact C v env (env.digest C) now = .ok (out, st'))
    (hv : env.Valid) : st'.vault = st.vault ∧ st'.membership = st.membership ∧
      (st'.log = st.log ∨ st'.log = st.log ++ [Store.entry env (st.currentSeq + 1)]) := by
  obtain ⟨-, -, -, -, rfl⟩ | ⟨-, -, -, rfl⟩ | ⟨-, -, -, -, -, rfl⟩ := Store.transact_cases h
  · exact ⟨rfl, rfl, Or.inl rfl⟩
  · exact ⟨rfl, rfl, Or.inl rfl⟩
  · exact ⟨rfl, rfl, Or.inr (Store.appends_afterAccept (C := C) hv now).log⟩

theorem Steady.step {g : Genesis} {b b' : Busy} {l : Turn} (hb : Steady C g b) (hok : Unraced b l)
    (h : b.step C l = some b') : Steady C g b' := by
  cases l with
  | putRecord v env now =>
    cases h
    exact ⟨hb.vault, hb.chain, List.forall_mem_append.2 ⟨hb.tasks, by simp [Task.Steady]⟩⟩
  | appendMembership v ev =>
    cases h
    exact ⟨hb.vault, hb.chain, List.forall_mem_append.2 ⟨hb.tasks, by simp [Task.Steady]⟩⟩
  | advance i =>
    simp only [Busy.step, Option.bind_eq_bind, Option.bind_eq_some_iff] at h
    obtain ⟨t, ht, ⟨t', st'⟩, hnext, hb'⟩ := h
    cases hb'
    have hmem : ∀ x ∈ b.tasks.set i t', x ∈ b.tasks ∨ x = t' := fun x hx =>
      List.mem_or_eq_of_mem_set hx
    rcases hb.next (hb.tasks t (List.mem_of_getElem? ht)) hnext with
      ⟨rfl, hsteady⟩ | ⟨v, env, now, out, rfl, hv, htx, rfl⟩ |
      ⟨ev, next, c, rfl, happ, hval, rfl, rfl⟩
    · refine ⟨hb.vault, hb.chain, fun x hx => ?_⟩
      rcases hmem x hx with hx | rfl
      · exact hb.tasks x hx
      · exact hsteady
    · obtain ⟨hvault, hmembers, -⟩ := Store.transact_frame htx hv
      refine ⟨hvault ▸ hb.vault, hmembers ▸ hb.chain, fun x hx => ?_⟩
      rcases hmem x hx with hx | rfl
      · exact hmembers ▸ hb.tasks x hx
      · trivial
    · refine ⟨hb.vault, ⟨next, Membership.validate_concat hval happ⟩, fun x hx => ?_⟩
      rcases hmem x hx with hx | rfl
      · refine (hb.tasks x hx).grow fun hr => hok ev.event.deviceID ?_ x hx
        simp [Busy.revokes, ht, hr]
      · trivial

/-- **Main result.**  In every run of overlapping submissions and membership events in
    which no device is revoked while one of its records is between its check and its
    transaction: once an event that revokes `d` is stored, no step adds a log entry
    written by `d`. -/
theorem no_write_after_revocation (C : Suite) {st₀ : Store} {v : ID} {c₀ : Membership.Chain}
    (hchain : st₀.chain C v = .ok c₀) {b b' : Busy} {l : Turn}
    (h : Run.Reach (Busy.step C) Unraced { store := st₀, tasks := [] } b)
    (hstep : b.step C l = some b') {d : ID}
    (hrev : ∃ s ∈ b.store.membership, s.event.action = .revoke ∧ s.event.deviceID = d) :
    ∀ e ∈ b'.store.log.drop b.store.log.length, e.envelope.context.updatedBy ≠ d := by
  obtain ⟨row, hrow, -, hval⟩ := Store.chain_eq_ok.1 hchain
  have hb : Steady C row.genesis b :=
    h.invariant ⟨⟨row, hrow, rfl⟩, ⟨c₀, hval⟩, fun _ ht => absurd ht List.not_mem_nil⟩
      fun _ _ _ hs hok hst => hs.step hok hst
  have hsame : ∀ {e : LogRow}, b'.store.log = b.store.log →
      e ∈ b'.store.log.drop b.store.log.length → e.envelope.context.updatedBy ≠ d := by
    intro e hlog he
    rw [hlog, List.drop_length] at he; cases he
  intro e he
  cases l with
  | putRecord v env now => cases hstep; exact hsame rfl he
  | appendMembership v ev => cases hstep; exact hsame rfl he
  | advance i =>
    simp only [Busy.step, Option.bind_eq_bind, Option.bind_eq_some_iff] at hstep
    obtain ⟨t, ht, ⟨t', st'⟩, hnext, hb'⟩ := hstep
    cases hb'
    have hst := hb.tasks t (List.mem_of_getElem? ht)
    rcases hb.next hst hnext with ⟨rfl, -⟩ | ⟨v, env, now, out, rfl, hv, htx, rfl⟩ |
      ⟨ev, next, c, rfl, -, -, rfl, rfl⟩
    · exact hsame rfl he
    · -- the writer of the record is not revoked in the chain as it is stored now
      obtain ⟨-, -, hlog | hlog⟩ := Store.transact_frame htx hv
      · exact hsame hlog he
      · simp only [hlog, List.drop_left] at he
        rw [List.mem_singleton.1 he]
        rintro rfl
        obtain ⟨s, hs, hr, hid⟩ := hrev
        exact hst.2.2 s hs hr hid
    · exact hsame rfl he

/-! ## A vault with two devices -/

/-- The relay of the devices `0a` and `0b`, without calls. -/
def pairRelay : Store :=
  Store.created Sample.genesis [Sample.root (Sample.id 0x0a) [10] "A", Sample.enrolment] "h"
    historyCreated

/-- A host created by `0b`. -/
def secondHost : Envelope :=
  Sample.version (Sample.id 0x0b) [11] (Sample.id 0x06) (Sample.id 0x23) 1 none

/-- The writer of the host is checked, then `0a` revokes it. -/
def racing : List Turn :=
  [.putRecord (Sample.id 0x01) secondHost "t0", .advance 0, .advance 0,
   .appendMembership (Sample.id 0x01) Sample.revocation, .advance 1, .advance 1, .advance 1]

def raced : Busy :=
  (Run.replay (Busy.step sample) (fun _ _ => True) { store := pairRelay, tasks := [] } racing).get
    (by decide)
def stored : Busy := (raced.step sample (.advance 0)).get (by decide)

/-- The revocation of `0b` is stored, and the next step stores a record of `0b`. -/
theorem revoked_writer_stored :
    Run.Reach (Busy.step sample) (fun _ _ => True) { store := pairRelay, tasks := [] } raced ∧
    raced.step sample (.advance 0) = some stored ∧
    (∃ s ∈ raced.store.membership, s.event.action = .revoke ∧ s.event.deviceID = Sample.id 0x0b) ∧
    ∃ e ∈ stored.store.log.drop raced.store.log.length,
      e.envelope.context.updatedBy = Sample.id 0x0b :=
  ⟨Run.reach_of_replay (Option.some_get _).symm, (Option.some_get _).symm,
    ⟨Sample.revocation, by decide, by decide, by decide⟩,
    ⟨Store.entry secondHost 1, by decide, by decide⟩⟩

/-- `0a` revokes `0b` before the host is checked. -/
def inOrder : Busy :=
  (Run.replay (Busy.step sample) Unraced { store := pairRelay, tasks := [] }
    [.appendMembership (Sample.id 0x01) Sample.revocation, .advance 0, .advance 0, .advance 0,
     .putRecord (Sample.id 0x01) secondHost "t0", .advance 1]).get (by decide)
def refused : Busy := (inOrder.step sample (.advance 1)).get (by decide)

theorem no_write_after_revocation_inOrder :
    inOrder.step sample (.advance 1) = some refused ∧
    ∀ e ∈ refused.store.log.drop inOrder.store.log.length,
      e.envelope.context.updatedBy ≠ Sample.id 0x0b :=
  ⟨(Option.some_get _).symm, no_write_after_revocation sample
    (Except.eq_ok_get (x := pairRelay.chain sample (Sample.id 0x01)) (by decide))
    (Run.reach_of_replay (Option.some_get _).symm) (Option.some_get _).symm
    ⟨Sample.revocation, by decide, by decide, by decide⟩⟩

end Sshstate.Relay
