/-
  The relay and the requests of a Sync.

  `RelayOK` ties the relay's log and its recorded outcomes to what the devices have
  committed; `RelayOK.submitRecord` says what the answer to a submission means, fresh
  or replayed.  `Called` lists what each request of a Sync can lead to.
-/
import Sshstate.Proof.Engine
import Sshstate.Proof.Server

namespace Sshstate.Sync

open Relay.Store (decodeEnvelope entry Chained)

variable {C : Suite}

/-! ## The relay -/

/-- The envelope is in the relay's log. -/
def InLog (r : Relay.Store) (e : Envelope) : Prop := ∃ row ∈ r.log, row.envelope = e.strip

/-- The envelope is an entry of the relay's log, as it is served. -/
def Served (r : Relay.Store) (e : Envelope) : Prop :=
  ∃ row ∈ r.log, e = decodeEnvelope row.envelope row.seq

/-- The log and the recorded outcomes, against what was committed by the devices. -/
structure RelayOK (C : Suite) (r : Relay.Store) (committed : List Envelope) : Prop where
  chained : Chained C r
  logged : ∀ row ∈ r.log, row.envelope ∈ committed
  recorded : ∀ m row, r.mutations.lookup m = some row → ∃ c ∈ committed, c.context.mutationID = m ∧
    (row.accepted = true → ∃ seq, row.seq = some seq ∧ entry c seq ∈ r.log)

/-- An envelope is known by its mutation id. -/
def Unique (es : List Envelope) : Prop :=
  ∀ e ∈ es, ∀ e' ∈ es, e.context.mutationID = e'.context.mutationID → e = e'

theorem RelayOK.mono {r : Relay.Store} {cs cs' : List Envelope} (h : RelayOK C r cs) (hsub : cs ⊆ cs') :
    RelayOK C r cs' :=
  ⟨h.chained, fun row hrow => hsub (h.logged row hrow), fun m row hm => by
    obtain ⟨c, hc, h⟩ := h.recorded m row hm; exact ⟨c, hsub hc, h⟩⟩

theorem RelayOK.membership {r : Relay.Store} {cs : List Envelope} (h : RelayOK C r cs)
    (events : List SignedMembershipEvent) : RelayOK C { r with membership := events } cs :=
  ⟨{ h.chained.toConsistent.keep ⟨rfl, rfl, fun _ h => h⟩ with
      linked := h.chained.linked, revs := h.chained.revs }, h.logged, h.recorded⟩

/-- The head of a record is served from the log, and no entry of the record is newer. -/
theorem served_head {r : Relay.Store} (hr : Chained C r) {id : ID} {head : Envelope}
    (h : r.head id = some head) :
    Served r head ∧ head.context.recordID = id ∧
      ∀ row ∈ r.log, row.recordID = id → row.envelope.context.rev ≤ head.context.rev := by
  rw [hr.head_eq] at h
  obtain ⟨row, hrow, rfl⟩ := Option.map_eq_some_iff.1 h
  obtain ⟨hmem, hid⟩ := KeyedLog.mem_of_last? hrow
  refine ⟨⟨row, hmem, rfl⟩, (hr.filed row hmem).symm.trans hid, fun row' hrow' hid' => ?_⟩
  exact hr.linked.rank_le_last (fun e => e.envelope.context.rev) (fun _ h => h.1) (fun _ _ h => h.1)
    hrow' (hid'.symm ▸ hrow)

section
variable {r r' : Relay.Store} {committed : List Envelope} {c : Envelope} {now : String}
  (hr : RelayOK C r committed) (hc : c ∈ committed)
include hr hc

theorem RelayOK.reject : RelayOK C (r.afterReject C c now) committed := by
  have hkeep := Relay.Store.keeps_afterReject (C := C) r c now
  refine ⟨{ hr.chained.toConsistent.keep hkeep with
    linked := hr.chained.linked, revs := hr.chained.revs }, hr.logged, fun m row hm => ?_⟩
  by_cases h : m = c.context.mutationID
  · subst h
    simp only [Relay.Store.afterReject, AList.lookup_insert, Option.some.injEq] at hm
    subst hm
    exact ⟨c, hc, rfl, nofun⟩
  · simp only [Relay.Store.afterReject, AList.lookup_insert_ne h] at hm
    exact hr.recorded m row hm

theorem RelayOK.accept (hv : c.Valid) (hf : Relay.Store.Follows C c (r.head c.context.recordID))
    (hrev : c.context.rev ≤ maxInt64) : RelayOK C (r.afterAccept C c now) committed := by
  have happ : Relay.Store.Appends C r (r.afterAccept C c now) c := Relay.Store.appends_afterAccept hv now
  refine ⟨hr.chained.accept hv hf hrev now, fun row hrow => ?_, fun m row hm => ?_⟩
  · rw [happ.log] at hrow
    rcases List.mem_append.1 hrow with hrow | hrow
    · exact hr.logged row hrow
    · rw [List.mem_singleton.1 hrow]; exact hc
  · rw [happ.log]
    by_cases h : m = c.context.mutationID
    · subst h
      simp only [Relay.Store.afterAccept, AList.lookup_insert, Option.some.injEq] at hm
      subst hm
      exact ⟨c, hc, rfl, fun _ => ⟨_, rfl, by simp⟩⟩
    · simp only [Relay.Store.afterAccept, AList.lookup_insert_ne h] at hm
      obtain ⟨c', hc', hm', hacc⟩ := hr.recorded m row hm
      refine ⟨c', hc', hm', fun ha => ?_⟩
      obtain ⟨seq, hseq, hentry⟩ := hacc ha
      exact ⟨seq, hseq, List.mem_append_left _ hentry⟩

/-- **A submission, answered**: an acceptance, fresh or replayed, names the entry of
    the log; a rejection returns the head of the record. -/
theorem RelayOK.submitRecord (hu : Unique committed) (hseq : c.seq = 0) {s : Relay.Store.Sender}
    {res : Except Error PutResult} (h : r.submitRecord C s c now = (res, r')) :
    RelayOK C r' committed ∧ r.log <+: r'.log ∧ r'.membership = r.membership ∧
    (∀ seq digest, res = .ok (.accepted seq digest) → entry c seq ∈ r'.log) ∧
    ∀ head, res = .ok (.rejected head) → r'.head c.context.recordID = some head := by
  rcases Relay.Store.submitRecord_cases h with ⟨err, rfl, rfl⟩ | ⟨out, -, hput, rfl⟩
  · refine ⟨hr, List.prefix_rfl, rfl, ?_, ?_⟩
    · intro seq digest hres; cases hres
    · intro head hres; cases hres
  rw [Envelope.strip_eq_self hseq] at hput
  obtain ⟨hsub, ⟨row, hrow, -, rfl, rfl⟩ | ⟨-, -, rfl, rfl⟩ | ⟨-, hf, -, hrev, rfl, rfl⟩⟩ :=
    Relay.Store.putRecord_cases hput
  · refine ⟨hr, List.prefix_rfl, rfl, fun seq digest hres => ?_, fun head hres => ?_⟩
    · obtain ⟨hacc, hs⟩ := Relay.Store.putResult_accepted hres
      obtain ⟨c', hc', hm, hlog⟩ := hr.recorded _ row hrow
      obtain ⟨seq', hseq', hentry⟩ := hlog hacc
      rw [hu c' hc' c hc hm] at hentry
      have : seq' = seq := by simpa [Relay.Store.replay, hseq'] using hs
      exact this ▸ hentry
    · obtain ⟨hacc, hh⟩ := Relay.Store.putResult_rejected hres
      have hacc' : row.accepted = false := hacc
      simpa [Relay.Store.replay, hacc'] using hh
  · refine ⟨hr.reject hc, List.prefix_rfl, rfl, fun seq digest hres => ?_, fun head hres => ?_⟩
    · exact absurd (Relay.Store.putResult_accepted hres).1 Bool.false_ne_true
    · exact (Relay.Store.putResult_rejected hres).2
  · have happ : Relay.Store.Appends C r (r.afterAccept C c now) c :=
      Relay.Store.appends_afterAccept hsub.valid now
    refine ⟨hr.accept hc hsub.valid hf hrev, happ.log ▸ List.prefix_append .., rfl,
      fun seq digest hres => ?_, fun head hres => ?_⟩
    · rw [happ.log, ← (Relay.Store.putResult_accepted hres).2]
      exact List.mem_append_right _ List.mem_cons_self
    · exact absurd (Relay.Store.putResult_rejected hres).1 Bool.true_eq_false.mp

end

theorem Served.mono {r r' : Relay.Store} (h : r.log <+: r'.log) {e : Envelope} (he : Served r e) :
    Served r' e := by
  obtain ⟨row, hrow, rfl⟩ := he; exact ⟨row, h.subset hrow, rfl⟩

theorem InLog.mono {r r' : Relay.Store} (h : r.log <+: r'.log) {e : Envelope} (he : InLog r e) :
    InLog r' e := by
  obtain ⟨row, hrow, he⟩ := he; exact ⟨row, h.subset hrow, he⟩

/-! ## Requests -/

/-- What a request of the phase `p` leads to: the relay and the phase after it. -/
inductive Called (C : Suite) (r : Relay.Store) (s : Relay.Store.Sender) (now : String) :
    Phase → Relay.Store → Phase → Prop
  | membership {known : ℕ} (auth : r.authenticate C s = .ok ()) :
      Called C r s now (.fetchMembership known) r (.compareMembership known r.membership)
  | refused {known : ℕ} {err : Error} (auth : r.authenticate C s = .error err) :
      Called C r s now (.fetchMembership known) r (failMembership err)
  | latest {l : Locals} {since : ℕ} {latest : RecordsResponse} (auth : r.authenticate C s = .ok ())
      (h : r.records C 0 0 1 = .ok latest) :
      Called C r s now (.fetchLatest l since) r (.checkLatest l since latest)
  | page {l : Locals} {since through : ℕ} {page : RecordsResponse}
      (auth : r.authenticate C s = .ok ()) (h : r.records C since through pageLimit = .ok page) :
      Called C r s now (.fetchPage l since through) r (nextChange l page [] page.changes)
  | put {l : Locals} {c : Envelope} {rest : List Envelope} {res : PutResult} {r' : Relay.Store}
      (h : r.submitRecord C s c now = (.ok res, r')) :
      Called C r s now (.push l c rest) r' (onResult l c rest res)
  | putFailed {l : Locals} {c : Envelope} {rest : List Envelope} {err err' : Error}
      {r' : Relay.Store} (h : r.submitRecord C s c now = (.error err, r')) :
      Called C r s now (.push l c rest) r' (.failed err')
  | latestFailed {l : Locals} {since : ℕ} {err : Error}
      (h : (do r.authenticate C s; r.records C 0 0 1) = .error err) :
      Called C r s now (.fetchLatest l since) r (.failed err)
  | pageFailed {l : Locals} {since through : ℕ} {err : Error}
      (h : (do r.authenticate C s; r.records C since through pageLimit) = .error err) :
      Called C r s now (.fetchPage l since through) r (.failed err)

theorem called_of_receive {r r' : Relay.Store} {s : Relay.Store.Sender} {now : String} {p p' : Phase}
    {req : Request} {reply : Reply} (hreq : p.request = some req)
    (hans : r.answer C s now req = (reply, r')) (hp : p.receive reply = some p') :
    Called C r s now p r' p' := by
  cases p <;> cases hreq
  case fetchMembership known =>
    cases hans
    simp only [Phase.receive] at hp
    split at hp <;> cases hp
    next events hev =>
      obtain ⟨⟨⟩, hauth, hev⟩ := Except.bind_eq_ok.1 hev
      cases hev
      exact .membership hauth
    next err herr =>
      rcases hauth : r.authenticate C s with err' | ⟨⟨⟩⟩
      · rw [hauth] at herr; cases herr; exact .refused hauth
      · rw [hauth] at herr; cases herr
  case fetchLatest l since =>
    cases hans
    simp only [Phase.receive] at hp
    split at hp <;> cases hp
    next latest hl =>
      obtain ⟨⟨⟩, hauth, hl⟩ := Except.bind_eq_ok.1 hl
      exact .latest hauth hl
    next err herr => exact .latestFailed herr
  case push l c rest =>
    simp only [Relay.Store.answer] at hans
    rcases hs : r.submitRecord C s c now with ⟨res, r₁⟩
    rw [hs] at hans
    cases hans
    simp only [Phase.receive] at hp
    split at hp <;> cases hp
    · exact .put hs
    · exact .putFailed hs
  case fetchPage l since through =>
    cases hans
    simp only [Phase.receive] at hp
    split at hp <;> cases hp
    next page hpage =>
      obtain ⟨⟨⟩, hauth, hpage⟩ := Except.bind_eq_ok.1 hpage
      exact .page hauth hpage
    next err herr => exact .pageFailed herr

end Sshstate.Sync
