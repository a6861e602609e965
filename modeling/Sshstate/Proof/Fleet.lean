/-
  The invariant every run of a fleet keeps, with ids drawn once each.

  `Base` says who wrote what is where: everything in an outbox, on its way, in a
  Sync or in the relay's log was sealed by the device it names and is known by its
  mutation id; and what a Sync holds of the relay is in the relay's log (`PhaseOK`).
  `Base.step` is the step lemma.  The other results about fleets are proved on top
  of it.
-/
import Sshstate.Proof.Exchange
import Sshstate.Proof.Handover
import Sshstate.Sync.Fleet

namespace Sshstate.Sync

open Vault (Store Manager Copy Written)
open Relay.Store (decodeEnvelope entry Chained)

variable {C : Suite} {V : Setup}

/-! ## Growth -/

/-- What no step takes back. -/
structure Grows (F F' : Fleet) : Prop where
  log : F.relay.log <+: F'.relay.log
  nodes : ∀ d n, F.nodes d = some n → ∃ n', F'.nodes d = some n' ∧ n'.signing = n.signing
  sealed : F.sealed ⊆ F'.sealed
  committed : F.committed ⊆ F'.committed

theorem Grows.refl (F : Fleet) : Grows F F :=
  ⟨List.prefix_rfl, fun _ n h => ⟨n, h, rfl⟩, fun _ h => h, fun _ h => h⟩

theorem Grows.trans {F F' F'' : Fleet} (h : Grows F F') (h' : Grows F' F'') : Grows F F'' := by
  refine ⟨h.log.trans h'.log, fun d n hn => ?_, fun _ he => h'.sealed (h.sealed he),
    fun _ he => h'.committed (h.committed he)⟩
  obtain ⟨n', hn', hs'⟩ := h.nodes d n hn
  obtain ⟨n'', hn'', hs''⟩ := h'.nodes d n' hn'
  exact ⟨n'', hn'', hs''.trans hs'⟩

theorem grows_draw (F : Fleet) (ids : List ID) (sealed : List Envelope) :
    Grows F (F.draw ids sealed) :=
  ⟨List.prefix_rfl, fun _ n h => ⟨n, h, rfl⟩, List.subset_append_right _ _, fun _ h => h⟩

theorem grows_relay {F : Fleet} {r : Relay.Store} (h : F.relay.log <+: r.log) :
    Grows F { F with relay := r } :=
  ⟨h, fun _ n h => ⟨n, h, rfl⟩, fun _ h => h, fun _ h => h⟩

theorem grows_setNode {F : Fleet} {d : ID} {n' : Node}
    (h : ∀ n, F.nodes d = some n → n'.signing = n.signing) : Grows F (F.setNode d n') := by
  refine ⟨List.prefix_rfl, fun d' n hn => ?_, fun _ h => h, List.subset_append_right _ _⟩
  by_cases hd : d' = d
  · subst hd; exact ⟨n', by simp [Fleet.setNode], h n hn⟩
  · exact ⟨n, by simpa [Fleet.setNode, hd] using hn, rfl⟩

/-! ## Phases -/

/-- Candidates of the device `d`. -/
def Mine (F : Fleet) (d : ID) (cs : List Envelope) : Prop :=
  ∀ c ∈ cs, c ∈ F.committed ∧ c.context.updatedBy = d

/-- The head that a candidate lost against. -/
def Against (F : Fleet) (c head : Envelope) : Prop :=
  Served F.relay head ∧ head.context.recordID = c.context.recordID

/-- What a Sync of the device `d` holds. -/
def PhaseOK (F : Fleet) (d : ID) : Phase → Prop
  | .push _ c rest => Mine F d (c :: rest)
  | .accept _ c seq rest => Mine F d (c :: rest) ∧ entry c seq ∈ F.relay.log
  | .supersede _ c head rest => Mine F d (c :: rest) ∧ Against F c head
  | .preserve _ c head rest => Mine F d (c :: rest) ∧ Against F c head
  | .resolve _ c k head rest =>
    Mine F d (c :: rest) ∧ Against F c head ∧ k ∈ F.sealed ∧ k.context.updatedBy = d
  | .verifyChange _ _ env todo envs => ∀ e ∈ env :: todo ++ envs, Served F.relay e
  | .compareHead _ _ env todo envs => ∀ e ∈ env :: todo ++ envs, Served F.relay e
  | .applyPage _ _ envs => ∀ e ∈ envs, Served F.relay e
  | _ => True

section
variable {F F' : Fleet} (hg : Grows F F') {d : ID}
include hg

theorem Mine.mono {cs : List Envelope} (h : Mine F d cs) : Mine F' d cs :=
  fun c hc => ⟨hg.committed (h c hc).1, (h c hc).2⟩

theorem Against.mono {c head : Envelope} (h : Against F c head) : Against F' c head :=
  ⟨h.1.mono hg.log, h.2⟩

theorem PhaseOK.mono {p : Phase} (h : PhaseOK F d p) : PhaseOK F' d p := by
  cases p with
  | push l c rest => exact Mine.mono hg h
  | accept l c seq rest => exact ⟨Mine.mono hg h.1, hg.log.subset h.2⟩
  | supersede l c head rest => exact ⟨Mine.mono hg h.1, Against.mono hg h.2⟩
  | preserve l c head rest => exact ⟨Mine.mono hg h.1, Against.mono hg h.2⟩
  | resolve l c k head rest =>
    exact ⟨Mine.mono hg h.1, Against.mono hg h.2.1, hg.sealed h.2.2.1, h.2.2.2⟩
  | verifyChange l page env todo envs => exact fun e he => (h e he).mono hg.log
  | compareHead l page env todo envs => exact fun e he => (h e he).mono hg.log
  | applyPage l page envs => exact fun e he => (h e he).mono hg.log
  | _ => trivial

end

section
variable {F : Fleet} {d : ID}

theorem PhaseOK.of_idle {p : Phase} (h : p.idle = true) : PhaseOK F d p := by
  cases p <;> trivial

theorem phaseOK_nextCandidate (l : Locals) {rest : List Envelope} (h : Mine F d rest) :
    PhaseOK F d (nextCandidate l rest) := by
  cases rest
  · trivial
  · exact h

theorem phaseOK_nextChange (l : Locals) (page : RecordsResponse) {envs todo : List Envelope}
    (h : ∀ e ∈ todo ++ envs, Served F.relay e) : PhaseOK F d (nextChange l page envs todo) := by
  cases todo
  · exact h
  · exact h

theorem Mine.tail {c : Envelope} {rest : List Envelope} (h : Mine F d (c :: rest)) : Mine F d rest :=
  fun x hx => h x (List.mem_cons_of_mem _ hx)

/-- An access to the store keeps what a Sync holds; the conflict record it may seal
    is added to the sealed envelopes. -/
theorem PhaseOK.work {e : Engine} {draw : Draw} {st st' : Store} {p p' : Phase}
    (hdev : e.manager.deviceID = d) (hout : Mine F d st.outbox) (hp : PhaseOK F d p)
    (h : Sync.work C e draw st p = some (st', p')) :
    PhaseOK (F.draw (p.draws draw) (Fleet.sealedBy p p')) d p' := by
  have hg : ∀ ids sealed, PhaseOK F d p' → PhaseOK (F.draw ids sealed) d p' :=
    fun ids sealed => PhaseOK.mono (grows_draw F ids sealed)
  cases work_advances h with
  | idle hi => exact .of_idle hi
  | readOutbox => exact hg _ _ (phaseOK_nextCandidate _ fun c hc => hout c (Store.mem_pending.1 hc))
  | accept _ => exact hg _ _ (phaseOK_nextCandidate _ hp.1.tail)
  | supersede _ => exact hg _ _ (phaseOK_nextCandidate _ hp.1.tail)
  | resolve _ => exact hg _ _ (phaseOK_nextCandidate _ hp.1.tail)
  | preserve hk =>
    obtain ⟨_, _, -, hs⟩ := Manager.preserveCandidate_ok hk
    refine ⟨Mine.mono (grows_draw ..) hp.1, Against.mono (grows_draw ..) hp.2,
      List.mem_append_left _ List.mem_cons_self, ?_⟩
    rw [hs.context]; exact hdev
  | verify _ => exact hg _ _ hp
  | compare _ =>
    refine hg _ _ (phaseOK_nextChange _ _ fun e he => hp e ?_)
    next apply _ =>
    cases apply <;> simp only [List.mem_append, List.mem_cons, Bool.false_eq_true, if_false,
      if_true, List.not_mem_nil, or_false] at he ⊢ <;> tauto

end

/-! ## The invariant -/

/-- Written by the device it names. -/
def Wrote (C : Suite) (V : Setup) (F : Fleet) (e : Envelope) : Prop :=
  ∃ n m p, F.nodes e.context.updatedBy = some n ∧
    Written C (n.manager V e.context.updatedBy).writerFor m p e

structure NodeOK (F : Fleet) (d : ID) (n : Node) : Prop where
  outbox : Mine F d n.store.outbox
  sent : Mine F d n.sent
  heads : ∀ id h, n.store.head id = some h → h.context.recordID = id ∧ h.strip ∈ F.committed
  phase : ∀ p, n.sync = some p → PhaseOK F d p

structure Base (C : Suite) (V : Setup) (F : Fleet) : Prop where
  unique : Unique F.sealed
  drawn : ∀ e ∈ F.sealed, e.context.mutationID ∈ F.ids
  wrote : ∀ e ∈ F.sealed, Wrote C V F e
  committed : F.committed ⊆ F.sealed
  relay : RelayOK C F.relay F.committed
  nodes : ∀ d n, F.nodes d = some n → NodeOK F d n
  copies : ∀ c ∈ F.copies, ∀ h ∈ c.heads, h.strip ∈ F.committed

theorem Wrote.mono {F F' : Fleet} (hg : Grows F F') {e : Envelope} (h : Wrote C V F e) :
    Wrote C V F' e := by
  obtain ⟨n, m, p, hn, hw⟩ := h
  obtain ⟨n', hn', hs⟩ := hg.nodes _ _ hn
  refine ⟨n', m, p, hn', ?_⟩
  rw [Node.manager, hs]; exact hw

theorem Wrote.seq {F : Fleet} {e : Envelope} (h : Wrote C V F e) : e.seq = 0 := by
  obtain ⟨_, _, _, -, hw⟩ := h; exact hw.seq

theorem NodeOK.mono {F F' : Fleet} (hg : Grows F F') {d : ID} {n : Node} (h : NodeOK F d n) :
    NodeOK F' d n :=
  ⟨Mine.mono hg h.outbox, Mine.mono hg h.sent,
    fun id e he => ⟨(h.heads id e he).1, hg.committed (h.heads id e he).2⟩,
    fun p hp => (h.phase p hp).mono hg⟩

/-- A device that was just set up holds nothing but heads. -/
theorem NodeOK.fresh {F : Fleet} {d : ID} {signing : Bytes} {st : Store} (hout : st.outbox = [])
    (hheads : ∀ id h, st.head id = some h → h.context.recordID = id ∧ h.strip ∈ F.committed) :
    NodeOK F d (newNode signing st) where
  outbox := fun e he => absurd (hout ▸ he : e ∈ []) List.not_mem_nil
  sent := fun _ he => absurd he List.not_mem_nil
  heads := hheads
  phase := fun p hp => absurd hp.symm (Option.some_ne_none p)

theorem Unique.mono {es es' : List Envelope} (h : Unique es') (hsub : es ⊆ es') : Unique es :=
  fun e he e' he' => h e (hsub he) e' (hsub he')

namespace Base

variable {F : Fleet} (hb : Base C V F)
include hb

theorem seq {e : Envelope} (he : e ∈ F.committed) : e.seq = 0 := (hb.wrote e (hb.committed he)).seq

theorem strip {e : Envelope} (he : e ∈ F.committed) : e.strip = e := Envelope.strip_eq_self (hb.seq he)

theorem unique_committed : Unique F.committed := hb.unique.mono hb.committed

/-- What the relay serves was committed by a device, and is in the log. -/
theorem served {e : Envelope} (he : Served F.relay e) : e.strip ∈ F.committed ∧ InLog F.relay e := by
  obtain ⟨row, hrow, rfl⟩ := he
  have hc := hb.relay.logged row hrow
  have hs : (decodeEnvelope row.envelope row.seq).strip = row.envelope := hb.strip hc
  exact ⟨hs.symm ▸ hc, row, hrow, hs.symm⟩

/-- Ids are drawn and envelopes sealed with them. -/
theorem draw {ids : List ID} {es : List Envelope} (hnodup : (ids ++ F.ids).Nodup)
    (hids : ∀ e ∈ es, e.context.mutationID ∈ ids) (hu : Unique es) (hw : ∀ e ∈ es, Wrote C V F e) :
    Base C V (F.draw ids es) := by
  have hg := grows_draw F ids es
  have hnew : ∀ e ∈ es, ∀ e' ∈ F.sealed, e.context.mutationID ≠ e'.context.mutationID :=
    fun e he e' he' hm =>
      List.disjoint_of_nodup_append hnodup (hids e he) (hm ▸ hb.drawn e' he')
  refine ⟨?_, ?_, ?_, fun e he => hg.sealed (hb.committed he), hb.relay,
    fun d n hn => (hb.nodes d n hn).mono hg, hb.copies⟩
  · intro e he e' he' hm
    rcases List.mem_append.1 he with he | he <;> rcases List.mem_append.1 he' with he' | he'
    · exact hu e he e' he' hm
    · exact absurd hm (hnew e he e' he')
    · exact absurd hm.symm (hnew e' he' e he)
    · exact hb.unique e he e' he' hm
  · intro e he
    rcases List.mem_append.1 he with he | he
    · exact List.mem_append_left _ (hids e he)
    · exact List.mem_append_right _ (hb.drawn e he)
  · intro e he
    rcases List.mem_append.1 he with he | he
    · exact (hw e he).mono hg
    · exact (hb.wrote e he).mono hg

theorem setRelay {r : Relay.Store} (hr : RelayOK C r F.committed) (hlog : F.relay.log <+: r.log) :
    Base C V { F with relay := r } :=
  ⟨hb.unique, hb.drawn, hb.wrote, hb.committed, hr,
    fun d n hn => (hb.nodes d n hn).mono (grows_relay hlog), hb.copies⟩

theorem setCopies {copies : List Copy} (h : ∀ c ∈ copies, ∀ e ∈ c.heads, e.strip ∈ F.committed) :
    Base C V { F with copies := copies } := by
  have hg : Grows F { F with copies := copies } :=
    ⟨List.prefix_rfl, fun _ n h => ⟨n, h, rfl⟩, fun _ h => h, fun _ h => h⟩
  exact ⟨hb.unique, hb.drawn, hb.wrote, hb.committed, hb.relay,
    fun d n hn => (hb.nodes d n hn).mono hg, h⟩

theorem setNode {d : ID} {n' : Node} (hsign : ∀ n, F.nodes d = some n → n'.signing = n.signing)
    (hout : ∀ e ∈ n'.store.outbox, e ∈ F.sealed) (hn' : NodeOK (F.setNode d n') d n') :
    Base C V (F.setNode d n') := by
  have hg := grows_setNode hsign
  refine ⟨hb.unique, hb.drawn, fun e he => (hb.wrote e he).mono hg, fun e he => ?_,
    hb.relay.mono hg.committed, fun d' n hn => ?_,
    fun c hc h hh => hg.committed (hb.copies c hc h hh)⟩
  · rcases List.mem_append.1 he with he | he
    · exact hout e he
    · exact hb.committed he
  · by_cases hd : d' = d
    · subst hd
      have : n = n' := by simpa [Fleet.setNode, eq_comm] using hn
      exact this ▸ hn'
    · exact (hb.nodes d' n (by simpa [Fleet.setNode, hd] using hn)).mono hg

end Base

/-! ## Steps -/

/-- What a step of a fleet can do. -/
inductive Moves (C : Suite) (V : Setup) (F : Fleet) : Label → Fleet → Prop
  | edit {d : ID} {n : Node} {edits : List Manager.Edit} {envs : List Envelope} {st : Store}
      (node : F.nodes d = some n)
      (sealing : List.Forall₂ (fun e env => (n.manager V d).sealEdit C n.store e = .ok env) edits envs)
      (batch : n.store.applyLocalBatch C envs = .ok st) :
      Moves C V F (.edit d edits)
        ((F.draw (edits.flatMap Manager.Edit.draws) envs).setNode d { n with store := st })
  | start {d : ID} {n : Node} (node : F.nodes d = some n) (idle : n.sync = none) :
      Moves C V F (.start d) (F.setNode d (n.enter .start))
  | work {d : ID} {n : Node} {draw : Draw} {p p' : Phase} {st : Store} (node : F.nodes d = some n)
      (sync : n.sync = some p) (h : Sync.work C (n.engine V d) draw n.store p = some (st, p')) :
      Moves C V F (.work d draw) ((F.draw (p.draws draw) (Fleet.sealedBy p p')).setNode d
        ({ n with store := st }.enter p'))
  | call {d : ID} {n : Node} {now : String} {p p' : Phase} {r : Relay.Store}
      (node : F.nodes d = some n) (sync : n.sync = some p)
      (h : Called C F.relay (n.sender C V d) now p r p') :
      Moves C V F (.call d now) ({ F with relay := r }.setNode d (n.enter p'))
  | serve {d : ID} {n : Node} {env : Envelope} {now : String} {res : Except Error PutResult}
      {r : Relay.Store} (node : F.nodes d = some n) (sent : env ∈ n.sent)
      (h : F.relay.submitRecord C (n.sender C V d) env now = (res, r)) :
      Moves C V F (.serve d env now) { F with relay := r }
  | stop {d : ID} {n : Node} (node : F.nodes d = some n) :
      Moves C V F (.stop d) (F.setNode d { n with sync := none })
  | append {ev : SignedMembershipEvent} {chain : Membership.Chain} {r : Relay.Store}
      (h : F.relay.appendMembership C V.genesis.vaultID ev = .ok (chain, r)) :
      Moves C V F (.append ev) { F with relay := r }
  | snapshot {d : ID} {n : Node} (node : F.nodes d = some n) :
      Moves C V F (.snapshot d) { F with copies := F.copies ++ [.snapshot d n.store] }
  | archive {d : ID} {n : Node} (node : F.nodes d = some n) :
      Moves C V F (.archive d) { F with copies := F.copies ++ [.archive d] }
  | read {i : ℕ} {c c' : Copy} {n : Node} (copy : F.copies[i]? = some c)
      (node : F.nodes c.device = some n) (h : c.read n.store = some c') :
      Moves C V F (.read i) { F with copies := F.copies.set i c' }
  | join {d : ID} {i k : ℕ} {signing : Bytes} {c : Copy} {chain : Membership.Chain} {st : Store}
      (copy : F.copies[i]? = some c) (accepted : c.acceptedOnly = true) (complete : c.complete = true)
      (new : F.nodes d = none)
      (auth : { F.relay with membership := F.relay.membership.take k }.authenticate C
        { vaultID := V.genesis.vaultID, deviceID := d, verifyKey := C.verifier signing } = .ok ())
      (valid : Membership.validate C V.genesis (F.relay.membership.take k) = .ok chain)
      (h : Vault.install C chain c.heads (c.cursor.getD 0) = .ok st) :
      Moves C V F (.join d i signing k) (F.setNode d (newNode signing st))
  | restore {d : ID} {i : ℕ} {r : Replacement} {membership : List SignedMembershipEvent} {c : Copy}
      {chain : Membership.Chain} {st : Store} (copy : F.copies[i]? = some c)
      (archived : c.acceptedOnly = false) (complete : c.complete = true) (new : F.nodes d = none)
      (h : Vault.install C chain c.heads (c.cursor.getD 0) = .ok st) :
      Moves C V F (.restore d i r membership) (F.setNode d (newNode r.signing st))

theorem add_eq_some {F F' : Fleet} {d : ID} {signing : Bytes} {chain : Membership.Chain} {c : Copy}
    (h : F.add C d signing chain c = some F') :
    F.nodes d = none ∧ c.complete = true ∧ ∃ st,
      Vault.install C chain c.heads (c.cursor.getD 0) = .ok st ∧
      F' = F.setNode d (newNode signing st) := by
  unfold Fleet.add at h
  split_ifs at h with hc
  obtain ⟨st, hst, h⟩ := Option.bind_eq_some_iff.1 h
  exact ⟨hc.1, hc.2, st, Except.toOption_eq_some.1 hst, (Option.some.inj h).symm⟩

theorem moves_of_step {F F' : Fleet} {l : Label} (h : F.step C V l = some F') : Moves C V F l F' := by
  cases l with
  | edit d edits =>
    obtain ⟨n, hn, h⟩ := Option.bind_eq_some_iff.1 h
    obtain ⟨envs, henvs, h⟩ := Option.bind_eq_some_iff.1 h
    obtain ⟨st, hst, h⟩ := Option.bind_eq_some_iff.1 h
    cases h
    exact .edit hn (Except.mapM_eq_ok.1 (Except.toOption_eq_some.1 henvs))
      (Except.toOption_eq_some.1 hst)
  | start d =>
    obtain ⟨n, hn, h⟩ := Option.bind_eq_some_iff.1 h
    split_ifs at h with hs
    cases h
    exact .start hn (by simpa using hs)
  | work d draw =>
    obtain ⟨n, hn, h⟩ := Option.bind_eq_some_iff.1 h
    obtain ⟨p, hp, h⟩ := Option.bind_eq_some_iff.1 h
    obtain ⟨⟨st, p'⟩, hw, h⟩ := Option.bind_eq_some_iff.1 h
    cases h
    exact .work hn hp hw
  | call d now =>
    obtain ⟨n, hn, h⟩ := Option.bind_eq_some_iff.1 h
    obtain ⟨p, hp, h⟩ := Option.bind_eq_some_iff.1 h
    obtain ⟨req, hreq, h⟩ := Option.bind_eq_some_iff.1 h
    rcases hans : F.relay.answer C (n.sender C V d) now req with ⟨reply, r⟩
    rw [hans] at h
    obtain ⟨p', hp', h⟩ := Option.bind_eq_some_iff.1 h
    cases h
    exact .call hn hp (called_of_receive hreq hans hp')
  | serve d env now =>
    obtain ⟨n, hn, h⟩ := Option.bind_eq_some_iff.1 h
    split_ifs at h with hs
    cases h
    exact .serve hn hs rfl
  | stop d =>
    obtain ⟨n, hn, h⟩ := Option.bind_eq_some_iff.1 h
    cases h
    exact .stop hn
  | append ev =>
    obtain ⟨⟨chain, r⟩, hr, h⟩ := Option.bind_eq_some_iff.1 h
    cases h
    exact .append (Except.toOption_eq_some.1 hr)
  | snapshot d =>
    obtain ⟨n, hn, h⟩ := Option.bind_eq_some_iff.1 h
    cases h
    exact .snapshot hn
  | archive d =>
    obtain ⟨n, hn, h⟩ := Option.bind_eq_some_iff.1 h
    cases h
    exact .archive hn
  | read i =>
    obtain ⟨c, hc, h⟩ := Option.bind_eq_some_iff.1 h
    obtain ⟨n, hn, h⟩ := Option.bind_eq_some_iff.1 h
    obtain ⟨c', hc', h⟩ := Option.bind_eq_some_iff.1 h
    cases h
    exact .read hc hn hc'
  | join d i signing k =>
    obtain ⟨c, hc, h⟩ := Option.bind_eq_some_iff.1 h
    simp only [Fleet.join] at h
    split at h
    next chain hauth hvalid =>
      split_ifs at h with ha
      obtain ⟨hnew, hcomplete, st, hst, rfl⟩ := add_eq_some h
      exact .join hc ha hcomplete hnew hauth hvalid hst
    next => cases h
  | restore d i r membership =>
    obtain ⟨c, hc, h⟩ := Option.bind_eq_some_iff.1 h
    obtain ⟨chain, -, h⟩ := Option.bind_eq_some_iff.1 h
    obtain ⟨chain', -, h⟩ := Option.bind_eq_some_iff.1 h
    split_ifs at h with ha
    obtain ⟨hnew, hcomplete, st, hst, rfl⟩ := add_eq_some h
    exact .restore hc (by simpa using ha) hcomplete hnew hst

/-! ## The step lemma -/

/-- The mutations of a batch of edits. -/
theorem edits_sealed {n : Node} {d : ID} {edits : List Manager.Edit} {envs : List Envelope}
    (h : List.Forall₂ (fun e env => (n.manager V d).sealEdit C n.store e = .ok env) edits envs) :
    envs.map (·.context.mutationID) = edits.map (·.mutationID.id) ∧
    ∀ env ∈ envs, ∃ e ∈ edits, ∃ m p, Written C (n.manager V d).writerFor m p env ∧
      m.mutationID = e.mutationID.id ∧ (n.manager V d).Builds C n.store e m := by
  induction h with
  | nil => exact ⟨rfl, nofun⟩
  | cons hseal _ ih =>
    obtain ⟨m, p, hw, hm, hb⟩ := Manager.sealEdit_ok hseal
    refine ⟨?_, fun env henv => ?_⟩
    · rw [List.map_cons, List.map_cons, ih.1, hw.context]
      exact congrArg (· :: _) hm
    · rcases List.mem_cons.1 henv with rfl | henv
      · exact ⟨_, List.mem_cons_self, m, p, hw, hm, hb⟩
      · obtain ⟨e, he, h⟩ := ih.2 env henv
        exact ⟨e, List.mem_cons_of_mem _ he, h⟩

theorem mutationIDs_sublist (edits : List Manager.Edit) :
    (edits.map (·.mutationID.id)).Sublist (edits.flatMap Manager.Edit.draws) := by
  induction edits with
  | nil => exact List.Sublist.refl _
  | cons e edits ih =>
    rw [List.map_cons, List.flatMap_cons]
    exact (List.singleton_sublist.2 e.mutationID_mem_draws).append ih

namespace Base

variable {F : Fleet} (hb : Base C V F)
include hb

/-- The envelopes of a batch of edits are new, and the device wrote them. -/
theorem drawEdits {d : ID} {n : Node} {edits : List Manager.Edit} {envs : List Envelope}
    (hn : F.nodes d = some n)
    (hs : List.Forall₂ (fun e env => (n.manager V d).sealEdit C n.store e = .ok env) edits envs)
    (hnodup : (edits.flatMap Manager.Edit.draws ++ F.ids).Nodup) :
    Base C V (F.draw (edits.flatMap Manager.Edit.draws) envs) ∧
      ∀ env ∈ envs, env.context.updatedBy = d ∧ env.seq = 0 := by
  obtain ⟨hmap, hwritten⟩ := edits_sealed hs
  have hupd : ∀ env ∈ envs, env.context.updatedBy = d ∧ env.seq = 0 := by
    intro env henv
    obtain ⟨_, -, _, _, hw, -⟩ := hwritten env henv
    exact ⟨by rw [hw.context]; rfl, hw.seq⟩
  refine ⟨hb.draw hnodup (fun env henv => ?_) ?_ fun env henv => ?_, hupd⟩
  · obtain ⟨e, he, m, p, hw, hm, -⟩ := hwritten env henv
    refine List.mem_flatMap.2 ⟨e, he, ?_⟩
    rw [hw.context, show (Vault.Writer.context _ m).mutationID = m.mutationID from rfl, hm]
    exact e.mutationID_mem_draws
  · have hnd : (envs.map (·.context.mutationID)).Nodup :=
      hmap ▸ (mutationIDs_sublist edits).nodup (List.Nodup.of_append_left hnodup)
    exact fun e he e' he' => List.inj_on_of_nodup_map hnd he he'
  · obtain ⟨_, -, m, p, hw, -⟩ := hwritten env henv
    refine ⟨n, m, p, ?_, ?_⟩ <;> rw [(hupd env henv).1]
    · exact hn
    · exact hw

/-- After a batch, its envelopes are pending. -/
theorem batch_outbox {st st' : Store} {envs : List Envelope} (hst : st.applyLocalBatch C envs = .ok st')
    (hout : ∀ e ∈ st.outbox, e ∈ F.sealed) (henvs : ∀ e ∈ envs, e ∈ F.sealed) :
    ∀ e ∈ envs, e ∈ st'.outbox := by
  obtain ⟨-, -, -, hmem, hpend⟩ := Store.applyLocalBatch_ok hst
  intro e he
  obtain ⟨x, hx, hm⟩ := hpend e he
  have hxs : x ∈ F.sealed := (hmem x hx).elim (hout x) (henvs x)
  exact hb.unique x hxs e (henvs e he) hm ▸ hx

theorem edit {d : ID} {n : Node} {edits : List Manager.Edit} {envs : List Envelope} {st : Store}
    (hn : F.nodes d = some n)
    (hs : List.Forall₂ (fun e env => (n.manager V d).sealEdit C n.store e = .ok env) edits envs)
    (hst : n.store.applyLocalBatch C envs = .ok st)
    (hnodup : (edits.flatMap Manager.Edit.draws ++ F.ids).Nodup) :
    Base C V ((F.draw (edits.flatMap Manager.Edit.draws) envs).setNode d { n with store := st }) := by
  obtain ⟨hb', hupd⟩ := hb.drawEdits hn hs hnodup
  have hnode := hb'.nodes d n hn
  have hold : ∀ e ∈ n.store.outbox, e ∈ (F.draw (edits.flatMap Manager.Edit.draws) envs).sealed :=
    fun e he => hb'.committed (hnode.outbox e he).1
  have hnew : ∀ e ∈ envs, e ∈ (F.draw (edits.flatMap Manager.Edit.draws) envs).sealed :=
    fun e he => List.mem_append_left _ he
  have hpend := hb'.batch_outbox hst hold hnew
  obtain ⟨hinst, -, -, hmem, -⟩ := Store.applyLocalBatch_ok hst
  have hsign : ∀ m, (F.draw (edits.flatMap Manager.Edit.draws) envs).nodes d = some m →
      ({ n with store := st } : Node).signing = m.signing := by
    intro m hm; rw [show (F.draw _ _).nodes d = some n from hn] at hm; cases hm; rfl
  have hg := grows_setNode hsign
  refine hb'.setNode hsign (fun e he => (hmem e he).elim (hold e) (hnew e)) ⟨fun e he => ?_,
    (hnode.mono hg).sent, fun id h hh => ?_, (hnode.mono hg).phase⟩
  · refine ⟨List.mem_append_left _ he, ?_⟩
    rcases hmem e he with he | he
    · exact (hnode.outbox e he).2
    · exact (hupd e he).1
  · rcases hinst.head id with heq | ⟨e, he, hid, -, heq⟩
    · exact (hnode.mono hg).heads id h (heq ▸ hh)
    · obtain rfl : h = e := Option.some.inj (hh.symm.trans heq)
      rw [Envelope.strip_eq_self (hupd h he).2]
      exact ⟨hid, List.mem_append_left _ (hpend h he)⟩

end Base

/-- Only the preservation of a candidate seals an envelope. -/
theorem sealedBy_cases {e : Engine} {draw : Draw} {st st' : Store} {p p' : Phase}
    (h : Sync.work C e draw st p = some (st', p')) :
    Fleet.sealedBy p p' = [] ∨ ∃ l c head rest k, p = .preserve l c head rest ∧
      p' = .resolve l c k head rest ∧
      e.manager.preserveCandidate C st c head draw.now draw.mutationID draw.entropy = .ok k := by
  unfold Fleet.sealedBy
  split
  next l c head rest _ _ k _ _ =>
    simp only [Sync.work] at h
    split at h <;> cases h
    next hk => exact Or.inr ⟨l, c, head, rest, k, rfl, rfl, hk⟩
  next => exact Or.inl rfl

/-- The submission of a phase is one of its candidates. -/
theorem inFlight_mine {F : Fleet} {d : ID} {p : Phase} (hp : PhaseOK F d p) : Mine F d (Node.inFlight p) := by
  cases p with
  | push l c rest =>
    intro x hx
    obtain rfl := List.mem_singleton.1 hx
    exact hp x List.mem_cons_self
  | _ => exact fun _ hx => absurd hx List.not_mem_nil

namespace Base

variable {F : Fleet} (hb : Base C V F)
include hb

/-- What a phase installs as a head was committed, or is the conflict record it enqueues. -/
theorem installs_committed {d : ID} {p : Phase} (hp : PhaseOK F d p) {e : Envelope}
    (he : e ∈ p.installs) : e.strip ∈ F.committed ∨ ∃ l c head rest, p = .resolve l c e head rest := by
  cases p with
  | accept l c seq rest =>
    obtain rfl := List.mem_singleton.1 he
    have hc := (hp.1 c List.mem_cons_self).1
    exact Or.inl ((hb.strip hc).symm ▸ hc)
  | supersede l c head rest =>
    obtain rfl := List.mem_singleton.1 he
    exact Or.inl (hb.served hp.2.1).1
  | resolve l c k head rest =>
    rcases List.mem_cons.1 he with rfl | he
    · exact Or.inr ⟨_, _, _, _, rfl⟩
    · obtain rfl := List.mem_singleton.1 he
      exact Or.inl (hb.served hp.2.1.1).1
  | applyPage l page envs => exact Or.inl (hb.served (hp e he)).1
  | _ => cases he

/-- A conflict record is pending once it was stored with its candidate. -/
theorem resolve_outbox {st st' : Store} {c k head : Envelope}
    (h : st.resolveConflict C c.context.mutationID k head = .ok st')
    (hout : ∀ e ∈ st.outbox, e ∈ F.sealed) (hk : k ∈ F.sealed) (hc : c ∈ F.sealed) :
    k ∈ st'.outbox ∨ k = c := by
  obtain ⟨st₁, h₁, -, rfl⟩ := Store.resolveConflict_ok.1 h
  by_cases hm : k.context.mutationID = c.context.mutationID
  · exact Or.inr (hb.unique k hk c hc hm)
  refine Or.inl (Store.mem_dequeue.2 ⟨?_, hm⟩)
  rw [Store.outbox_writeHead, (Store.putRecord_outbox h₁).1]
  obtain ⟨x, hx, hxm⟩ := Store.exists_enqueueOutbox st k
  have hxs : x ∈ F.sealed := (Store.mem_enqueueOutbox hx).elim (hout x) (fun h => h ▸ hk)
  exact hb.unique x hxs k hk hxm ▸ hx

theorem drawWork {d : ID} {n : Node} {draw : Draw} {p p' : Phase} {st : Store}
    (hn : F.nodes d = some n) (h : Sync.work C (n.engine V d) draw n.store p = some (st, p'))
    (hnodup : (p.draws draw ++ F.ids).Nodup) :
    Base C V (F.draw (p.draws draw) (Fleet.sealedBy p p')) := by
  obtain hnil | ⟨l, c, head, rest, k, rfl, rfl, hk⟩ := sealedBy_cases h
  · rw [hnil]
    exact hb.draw hnodup (fun e he => absurd he List.not_mem_nil)
      (fun e he => absurd he List.not_mem_nil) fun e he => absurd he List.not_mem_nil
  · obtain ⟨plaintext, headDigest, -, hs⟩ := Manager.preserveCandidate_ok hk
    refine hb.draw hnodup ?_ ?_ ?_
    · rintro e he
      obtain rfl := List.mem_singleton.1 he
      rw [hs.context]; exact List.mem_cons_self
    · rintro e he e' he' -
      exact (List.mem_singleton.1 he).trans (List.mem_singleton.1 he').symm
    · rintro e he
      obtain rfl := List.mem_singleton.1 he
      have hd : e.context.updatedBy = d := by rw [hs.context]; rfl
      have hw : Written C (n.manager V d).writerFor _ _ e := ⟨hs, nofun, fun hc => by simp at hc⟩
      rw [Wrote, hd]
      exact ⟨n, _, _, hn, hw⟩

theorem work {d : ID} {n : Node} {draw : Draw} {p p' : Phase} {st : Store}
    (hn : F.nodes d = some n) (hsync : n.sync = some p)
    (h : Sync.work C (n.engine V d) draw n.store p = some (st, p'))
    (hnodup : (p.draws draw ++ F.ids).Nodup) :
    Base C V ((F.draw (p.draws draw) (Fleet.sealedBy p p')).setNode d
      ({ n with store := st }.enter p')) := by
  have hb' := hb.drawWork hn h hnodup
  have hp := (hb.nodes d n hn).phase p hsync
  have hp' := PhaseOK.work rfl (hb.nodes d n hn).outbox hp h
  have heff := work_effect h
  generalize hG : F.draw (p.draws draw) (Fleet.sealedBy p p') = G at hb' hp' ⊢
  have hgF : Grows F G := hG ▸ grows_draw ..
  have hnG : G.nodes d = some n := by rw [← hG]; exact hn
  have hpG := hp.mono hgF
  have hnode := hb'.nodes d n hnG
  have hsign : ∀ m, G.nodes d = some m → ({ n with store := st }.enter p').signing = m.signing := by
    intro m hm; rw [hnG] at hm; cases hm; rfl
  have hg := grows_setNode hsign
  have hout : ∀ e ∈ st.outbox, e ∈ G.sealed ∧ e.context.updatedBy = d := by
    intro e he
    rcases heff.outbox he with he | ⟨l, c, head, rest, rfl⟩
    · exact ⟨hb'.committed (hnode.outbox e he).1, (hnode.outbox e he).2⟩
    · exact hpG.2.2
  refine hb'.setNode hsign (fun e he => (hout e he).1)
    ⟨fun e he => ⟨List.mem_append_left _ he, (hout e he).2⟩, ?_, fun id e he => ?_, fun q hq => ?_⟩
  · intro e he
    rcases List.mem_append.1 he with he | he
    · exact Mine.mono hg (inFlight_mine hp') e he
    · exact (hnode.mono hg).sent e he
  · rcases heff.head id with heq | ⟨x, hx, hid, heq⟩
    · exact (hnode.mono hg).heads id e (heq ▸ he)
    · obtain rfl : e = x := Option.some.inj (he.symm.trans heq)
      refine ⟨hid, ?_⟩
      rcases hb'.installs_committed hpG hx with hc | ⟨l, c, head, rest, rfl⟩
      · exact hg.committed hc
      · -- the conflict record itself: it is pending now
        obtain ⟨hmine, -, hk, -⟩ := hpG
        have hc := (hmine c List.mem_cons_self).1
        have hks : e.strip = e := Envelope.strip_eq_self (hb'.wrote e hk).seq
        rw [hks]
        rcases commit_eq (Option.some.inj h) with ⟨htx, -⟩ | ⟨rfl, -⟩
        · rcases hb'.resolve_outbox htx (fun x hx => hb'.committed (hnode.outbox x hx).1) hk
            (hb'.committed hc) with hmem | rfl
          · exact List.mem_append_left _ hmem
          · exact hg.committed hc
        · exact hks ▸ ((hnode.mono hg).heads id e he).2
  · cases hq; exact hp'.mono hg

end Base

namespace Base

variable {F : Fleet} (hb : Base C V F)
include hb

/-- What a Sync holds after an answer. -/
theorem called {d : ID} {n : Node} {now : String} {p p' : Phase} {r : Relay.Store}
    (hn : F.nodes d = some n) (hsync : n.sync = some p)
    (h : Called C F.relay (n.sender C V d) now p r p') :
    RelayOK C r F.committed ∧ F.relay.log <+: r.log ∧ PhaseOK { F with relay := r } d p' := by
  have hp := (hb.nodes d n hn).phase p hsync
  cases h with
  | membership auth => exact ⟨hb.relay, List.prefix_rfl, trivial⟩
  | refused auth => exact ⟨hb.relay, List.prefix_rfl, .of_idle (idle_failMembership _)⟩
  | latest auth h => exact ⟨hb.relay, List.prefix_rfl, trivial⟩
  | page auth h =>
    obtain ⟨page, hpage, rfl⟩ := Relay.Store.records_ok h
    obtain ⟨-, -, -, -, hc, -⟩ := Relay.Store.changes_ok hb.relay.chained.toConsistent hpage
    refine ⟨hb.relay, List.prefix_rfl, phaseOK_nextChange _ _ fun e he => ?_⟩
    rw [List.append_nil, hc] at he
    exact Relay.Store.mem_served he
  | putFailed h =>
    obtain ⟨hr, hlog, -⟩ := hb.relay.submitRecord (hp _ List.mem_cons_self).1 hb.unique_committed
      (hb.seq (hp _ List.mem_cons_self).1) h
    exact ⟨hr, hlog, trivial⟩
  | put h =>
    obtain ⟨hr, hlog, -, hacc, hrej⟩ := hb.relay.submitRecord (hp _ List.mem_cons_self).1
      hb.unique_committed (hb.seq (hp _ List.mem_cons_self).1) h
    have hmine := Mine.mono (grows_relay hlog) hp
    refine ⟨hr, hlog, ?_⟩
    next l c rest res =>
    cases res with
    | accepted seq digest => exact ⟨hmine, hacc seq digest rfl⟩
    | rejected head =>
      obtain ⟨hserved, hid, -⟩ := served_head hr.chained (hrej head rfl)
      unfold onResult
      split_ifs
      · exact ⟨hmine, hserved, hid⟩
      · exact ⟨hmine, hserved, hid⟩
  | latestFailed h => exact ⟨hb.relay, List.prefix_rfl, trivial⟩
  | pageFailed h => exact ⟨hb.relay, List.prefix_rfl, trivial⟩

/-- A node whose store is unchanged enters a phase. -/
theorem enter {d : ID} {n : Node} {p : Phase} (hn : F.nodes d = some n) (hp : PhaseOK F d p) :
    Base C V (F.setNode d (n.enter p)) := by
  have hnode := hb.nodes d n hn
  have hsign : ∀ m, F.nodes d = some m → (n.enter p).signing = m.signing := by
    intro m hm; rw [hn] at hm; cases hm; rfl
  have hg := grows_setNode hsign
  refine hb.setNode hsign (fun e he => hb.committed (hnode.outbox e he).1)
    ⟨(hnode.mono hg).outbox, fun e he => ?_, (hnode.mono hg).heads, fun q hq => ?_⟩
  · rcases List.mem_append.1 he with he | he
    · exact Mine.mono hg (inFlight_mine hp) e he
    · exact (hnode.mono hg).sent e he
  · cases hq; exact hp.mono hg

/-- A new device holds copied heads and nothing else. -/
theorem install {d : ID} {signing : Bytes} {chain : Membership.Chain} {c : Copy} {st : Store}
    (hnew : F.nodes d = none) (hc : c ∈ F.copies)
    (h : Vault.install C chain c.heads (c.cursor.getD 0) = .ok st) :
    Base C V (F.setNode d (newNode signing st)) := by
  obtain ⟨hheads, -, hout, -⟩ := Vault.install_ok h
  have hsign : ∀ m, F.nodes d = some m → (newNode signing st).signing = m.signing := by
    intro m hm; rw [hnew] at hm; cases hm
  have hg := grows_setNode hsign
  refine hb.setNode hsign (fun e he => absurd (hout ▸ he : e ∈ []) List.not_mem_nil)
    (.fresh hout fun id e he => ?_)
  obtain ⟨hmem, hid⟩ := hheads id e he
  exact ⟨hid, hg.committed (hb.copies c hc e hmem)⟩

/-- **The step lemma**: a step that draws new ids keeps the invariant. -/
theorem step {F' : Fleet} {l : Label} (h : F.step C V l = some F') (hnodup : F'.ids.Nodup) :
    Base C V F' := by
  have hm := moves_of_step h
  clear h
  cases hm with
  | edit node sealing batch => exact hb.edit node sealing batch hnodup
  | start node idle => exact hb.enter node trivial
  | work node sync h => exact hb.work node sync h hnodup
  | call node sync h =>
    obtain ⟨hr, hlog, hp⟩ := hb.called node sync h
    exact (hb.setRelay hr hlog).enter node hp
  | serve node sent h =>
    have hc := ((hb.nodes _ _ node).sent _ sent).1
    obtain ⟨hr, hlog, -⟩ := hb.relay.submitRecord hc hb.unique_committed (hb.seq hc) h
    exact hb.setRelay hr hlog
  | @stop d n node =>
    have hnode := hb.nodes d n node
    have hsign : ∀ m, F.nodes d = some m → ({ n with sync := none } : Node).signing = m.signing := by
      intro m hm; rw [node] at hm; cases hm; rfl
    have hn' := hnode.mono (grows_setNode hsign)
    exact hb.setNode hsign (fun e he => hb.committed (hnode.outbox e he).1)
      ⟨hn'.outbox, hn'.sent, hn'.heads, fun p hp => absurd hp.symm (Option.some_ne_none p)⟩
  | append h =>
    obtain ⟨_, -, -, rfl⟩ := Relay.Store.appendMembership_ok h
    exact hb.setRelay (hb.relay.membership _) List.prefix_rfl
  | snapshot node =>
    refine hb.setCopies fun c hc e he => ?_
    rcases List.mem_append.1 hc with hc | hc
    · exact hb.copies c hc e he
    · rw [List.mem_singleton.1 hc] at he; cases he
  | archive node =>
    refine hb.setCopies fun c hc e he => ?_
    rcases List.mem_append.1 hc with hc | hc
    · exact hb.copies c hc e he
    · rw [List.mem_singleton.1 hc] at he; cases he
  | read copy node h =>
    refine hb.setCopies fun c hc e he => ?_
    rcases List.mem_or_eq_of_mem_set hc with hc | rfl
    · exact hb.copies c hc e he
    · rcases Copy.mem_heads_of_read h he with he | ⟨id, he⟩
      · exact hb.copies _ (List.mem_of_getElem? copy) e he
      · exact ((hb.nodes _ _ node).heads id e he).2
  | join copy accepted complete new auth valid h =>
    exact hb.install new (List.mem_of_getElem? copy) h
  | restore copy archived complete new h =>
    exact hb.install new (List.mem_of_getElem? copy) h

end Base

/-- The store of the first device is empty but for the membership. -/
theorem initStore_ok {g : Genesis} {root : SignedMembershipEvent} {st : Store}
    (h : Vault.initStore C g root = .ok st) :
    (∀ id, st.head id = none) ∧ st.outbox = [] ∧ st.cursor = none ∧ st.history = none ∧
      st.membership = [root] ∧ st.revokedAt = ∅ ∧
      ∃ row, st.devices.lookup g.firstDeviceID = some row ∧ row.verifyKey = g.firstDeviceVerifyKey := by
  have h := putMembershipEvents_ok h
  subst h
  refine ⟨fun _ => rfl, rfl, rfl, rfl, rfl, rfl, ?_⟩
  refine ⟨_, AList.lookup_insert _, rfl⟩

theorem Founding.node_eq (A : Founding C) {d : ID} {n : Node} (h : A.fleet.nodes d = some n) :
    n = newNode A.signing A.store := by
  simp only [Founding.fleet] at h
  split_ifs at h
  exact (Option.some.inj h).symm

theorem Founding.base (A : Founding C) : Base C A.setup A.fleet := by
  obtain ⟨hheads, hout, -⟩ := initStore_ok A.store_eq
  refine ⟨nofun, nofun, nofun, List.nil_subset _,
    ⟨Chained.created .., nofun, fun m row h => nomatch h⟩, fun d n hn => ?_, nofun⟩
  rw [A.node_eq hn]
  exact .fresh hout fun id e he => by rw [hheads id] at he; cases he

/-- A step only adds ids. -/
theorem ids_suffix {F F' : Fleet} {l : Label} (h : F.step C V l = some F') : F.ids <:+ F'.ids := by
  cases moves_of_step h <;> first | exact List.suffix_rfl | exact List.suffix_append ..

end Sshstate.Sync
