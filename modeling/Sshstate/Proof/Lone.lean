/-
  A vault with one writer.

  Only the device `d` edits (`WrittenBy`), and it revises a record only while no pending
  version of the record is above the stored head (`OnNewest`).  Then no two committed
  envelopes are versions of one revision (`Unforked`), a candidate is submitted after all
  older versions of its record (`Led`), and what has left the outbox is not above the
  stored head (`Settled`).  So every submission follows the relay's head or is in the log
  already, and no Sync meets a rejection (`no_self_conflict`).

  Without `OnNewest` this fails: `AcceptOutbox` makes an accepted version the stored head
  although newer ones are pending, and an edit that is made then starts a second branch.
-/
import Sshstate.Proof.Sync
import Sshstate.Proof.Track

namespace Sshstate.Sync

open Vault (Store Manager)
open Relay.Store (decodeEnvelope entry Chained Follows)

variable {C : Suite} {V : Setup}

/-! ## The conditions -/

/-- Only `d` edits. -/
def WrittenBy (d : ID) : Label → Prop
  | .edit d' _ => d' = d
  | _ => True

/-- A record is revised only while no pending version of it is above the stored head. -/
def OnNewest (F : Fleet) : Label → Prop
  | .edit d edits => ∀ n ∈ F.nodes d, ∀ e ∈ edits, ∀ r ∈ e.revised, ∀ h ∈ n.store.head r,
      ∀ c ∈ n.store.outbox, c.context.recordID = r → c.context.rev ≤ h.context.rev
  | _ => True

instance decidableWrittenBy (d : ID) : (l : Label) → Decidable (WrittenBy d l)
  | .edit d' _ => inferInstanceAs (Decidable (d' = d))
  | .start _ | .work _ _ | .call _ _ | .serve _ _ _ | .stop _ | .append _ | .snapshot _ | .archive _
  | .read _ | .join _ _ _ _ | .restore _ _ _ _ => isTrue trivial

instance decidableOnNewest (F : Fleet) : (l : Label) → Decidable (OnNewest F l)
  | .edit d edits => inferInstanceAs (Decidable (∀ n ∈ F.nodes d, ∀ e ∈ edits, ∀ r ∈ e.revised,
      ∀ h ∈ n.store.head r, ∀ c ∈ n.store.outbox,
        c.context.recordID = r → c.context.rev ≤ h.context.rev))
  | .start _ | .work _ _ | .call _ _ | .serve _ _ _ | .stop _ | .append _ | .snapshot _ | .archive _
  | .read _ | .join _ _ _ _ | .restore _ _ _ _ => isTrue trivial

/-! ## The invariant -/

/-- One version of each revision of a record, each built on the one before. -/
structure Unforked (C : Suite) (cs : List Envelope) : Prop where
  one : ∀ e ∈ cs, ∀ e' ∈ cs, e.context.recordID = e'.context.recordID →
    e.context.rev = e'.context.rev → e = e'
  parent : ∀ e ∈ cs, e.context.rev ≠ 1 → ∃ p ∈ cs, p.context.recordID = e.context.recordID ∧
    e.context.rev = p.context.rev + 1 ∧ e.context.parentDigest = some (p.digest C)

/-- The relay has rejected nothing, and it remembers the outcome of every entry. -/
structure Told (r : Relay.Store) : Prop where
  accepted : ∀ m row, r.mutations.lookup m = some row → row.accepted = true
  logged : ∀ row ∈ r.log, (r.mutations.lookup row.envelope.context.mutationID).isSome = true
  signed : ∀ row ∈ r.log, row.envelope.signature ≠ []

/-- The older versions of the record are in the log. -/
def Led (F : Fleet) (e : Envelope) : Prop :=
  ∀ x ∈ F.committed, x.context.recordID = e.context.recordID → x.context.rev < e.context.rev →
    InLog F.relay x

/-- Not above the stored head, and below every pending version. -/
structure Settled (st : Store) (e : Envelope) : Prop where
  head : ∃ h, st.head e.context.recordID = some h ∧ e.context.rev ≤ h.context.rev
  below : ∀ x ∈ st.outbox, x.context.recordID = e.context.recordID → e.context.rev < x.context.rev

/-- Candidates in the order of their revisions, with all older pending versions. -/
structure Lined (st : Store) (cs : List Envelope) : Prop where
  pending : cs ⊆ st.outbox
  sorted : cs.Pairwise fun a b => a.context.recordID = b.context.recordID →
    a.context.rev < b.context.rev
  full : ∀ c ∈ cs, ∀ x ∈ st.outbox, x.context.recordID = c.context.recordID →
    x.context.rev < c.context.rev → x ∈ cs

/-- Changes that are not below what has left the outbox. -/
def Past (F : Fleet) (st : Store) (envs : List Envelope) : Prop :=
  ∀ env ∈ envs, ∀ e ∈ F.committed, e ∉ st.outbox → e.context.recordID = env.context.recordID →
    e.context.rev ≤ env.context.rev

def Due (F : Fleet) (st : Store) : Phase → Prop
  | .push _ c rest => Lined st (c :: rest)
  | .accept _ c _ rest => Lined st (c :: rest)
  | .supersede _ _ _ _ | .preserve _ _ _ _ | .resolve _ _ _ _ _ => False
  | .verifyChange _ _ _ _ envs => Past F st envs
  | .compareHead _ _ _ _ envs => Past F st envs
  | .applyPage _ _ envs => Past F st envs
  | _ => True

/-- What holds of the device that writes. -/
structure Orderly (F : Fleet) (n : Node) : Prop where
  kept : ∀ e ∈ F.committed, e ∈ n.store.outbox ∨ InLog F.relay e
  settled : ∀ e ∈ F.committed, e ∉ n.store.outbox → Settled n.store e
  led : ∀ e ∈ n.sent, Led F e
  due : ∀ p, n.sync = some p → Due F n.store p

structure Alone (C : Suite) (d : ID) (F : Fleet) : Prop where
  writer : ∀ e ∈ F.committed, e.context.updatedBy = d
  unforked : Unforked C F.committed
  told : Told F.relay
  node : ∀ n, F.nodes d = some n → Orderly F n

theorem Due.of_idle {F : Fleet} {st : Store} {p : Phase} (h : p.idle = true) : Due F st p := by
  cases p <;> trivial

theorem due_nextCandidate {F : Fleet} {st : Store} (l : Locals) {rest : List Envelope}
    (h : Lined st rest) : Due F st (nextCandidate l rest) := by
  cases rest
  · trivial
  · exact h

theorem due_nextChange {F : Fleet} {st : Store} (l : Locals) (page : RecordsResponse)
    {envs todo : List Envelope} (h : Past F st envs) : Due F st (nextChange l page envs todo) := by
  cases todo
  · exact h
  · exact h

section
variable {F F' : Fleet} (hc : F'.committed ⊆ F.committed)
include hc

theorem Past.mono {st : Store} {envs : List Envelope} (h : Past F st envs) : Past F' st envs :=
  fun env henv e he => h env henv e (hc he)

theorem Due.mono {st : Store} {p : Phase} (h : Due F st p) : Due F' st p := by
  cases p with
  | verifyChange l page env todo envs => exact Past.mono hc h
  | compareHead l page env todo envs => exact Past.mono hc h
  | applyPage l page envs => exact Past.mono hc h
  | _ => exact h

/-- Nothing was committed, and the log may have grown. -/
theorem Orderly.mono (hl : F.relay.log <+: F'.relay.log) {n : Node} (h : Orderly F n) :
    Orderly F' n where
  kept := fun e he => (h.kept e (hc he)).imp_right (InLog.mono hl)
  settled := fun e he => h.settled e (hc he)
  led := fun e he x hx hid hlt => (h.led e he x (hc hx) hid hlt).mono hl
  due := fun p hp => (h.due p hp).mono hc

end

/-- The first of the candidates comes after the older versions of its record. -/
theorem Lined.led {F : Fleet} {st : Store} {c : Envelope} {rest : List Envelope}
    (h : Lined st (c :: rest)) (hkept : ∀ e ∈ F.committed, e ∈ st.outbox ∨ InLog F.relay e) :
    Led F c := by
  intro x hx hid hlt
  refine (hkept x hx).resolve_left fun hout => ?_
  rcases List.mem_cons.1 (h.full c List.mem_cons_self x hout hid hlt) with rfl | hrest
  · exact lt_irrefl _ hlt
  · exact lt_asymm hlt ((List.pairwise_cons.1 h.sorted).1 x hrest hid.symm)

/-- A Sync enters a phase. -/
theorem Orderly.enter {F : Fleet} {n : Node} (h : Orderly F n) {p : Phase}
    (hp : Due F n.store p) : Orderly F (n.enter p) where
  kept := h.kept
  settled := h.settled
  led := by
    intro e he
    rcases List.mem_append.1 he with he | he
    · cases p with
      | push l c rest => exact List.mem_singleton.1 he ▸ Lined.led hp h.kept
      | _ => exact absurd he List.not_mem_nil
    · exact h.led e he
  due := fun q hq => by cases hq; exact hp

/-! ## Submissions -/

section
variable {F : Fleet} (hb : Base C V F)
include hb

/-- A version of the record in the log, up to the revision of its head. -/
theorem Base.inLog_of_le (hu : Unforked C F.committed) {head c : Envelope}
    (hhead : F.relay.head c.context.recordID = some head) (hc : c ∈ F.committed)
    (hle : c.context.rev ≤ head.context.rev) : InLog F.relay c := by
  have hch := hb.relay.chained
  obtain ⟨⟨row, hrow, rfl⟩, hid, -⟩ := served_head hch hhead
  have hmem : row ∈ KeyedLog.ofKey Relay.LogRow.recordID c.context.recordID F.relay.log :=
    KeyedLog.mem_ofKey.2 ⟨hrow, (hch.filed row hrow).trans hid⟩
  obtain ⟨i, hi, hrowi⟩ := List.getElem_of_mem hmem
  have hrev := hch.rev_getElem _ i hi
  rw [hrowi] at hrev
  have hle' : c.context.rev ≤ i + 1 := hrev ▸ hle
  have hpos := (wrote_context (hb.wrote c (hb.committed hc))).2
  have hj : c.context.rev - 1 <
      (KeyedLog.ofKey Relay.LogRow.recordID c.context.recordID F.relay.log).length := by omega
  have hrevj := hch.rev_getElem _ _ hj
  have hmemj := List.getElem_mem hj
  generalize (KeyedLog.ofKey Relay.LogRow.recordID c.context.recordID
    F.relay.log)[c.context.rev - 1] = row' at hrevj hmemj
  obtain ⟨hlog, hid'⟩ := KeyedLog.mem_ofKey.1 hmemj
  have heq : row'.envelope = c := hu.one _ (hb.relay.logged row' hlog) c hc
    ((hch.filed row' hlog).symm.trans hid') (by omega)
  exact ⟨row', hlog, heq.trans (hb.strip hc).symm⟩

/-- A version whose older ones are in the log is there too, or it follows the head. -/
theorem Base.follows (hu : Unforked C F.committed) (ht : Told F.relay) {c : Envelope}
    (hc : c ∈ F.committed) (hrev : c.context.rev < 2 ^ 64) (hled : Led F c) :
    InLog F.relay c ∨ Follows C c (F.relay.head c.context.recordID) := by
  have hch := hb.relay.chained
  have hparent := hu.parent c hc
  rcases hhead : F.relay.head c.context.recordID with _ | head
  · refine Or.inr (by_contra fun hne => ?_)
    -- an older version would be in the log, and the record would have a head
    obtain ⟨p, hp, hid, hprev, -⟩ := hparent hne
    obtain ⟨row, hrow, heq⟩ := hled p hp hid (by omega)
    rw [hch.head_eq, Option.map_eq_none_iff, KeyedLog.last?_eq_none] at hhead
    refine hhead row hrow ?_
    rw [hch.filed row hrow, heq, Envelope.strip_context, hid]
  obtain ⟨⟨row, hrow, rfl⟩, hid, htop⟩ := served_head hch hhead
  by_cases hle : c.context.rev ≤ (decodeEnvelope row.envelope row.seq).context.rev
  · exact Or.inl (hb.inLog_of_le hu hhead hc hle)
  have hrow' := hb.relay.logged row hrow
  have hpos : 1 ≤ row.envelope.context.rev := (wrote_context (hb.wrote _ (hb.committed hrow'))).2
  have hgt : row.envelope.context.rev < c.context.rev := Nat.lt_of_not_le hle
  obtain ⟨p, hp, hpid, hprev, hdig⟩ := hparent (by omega)
  obtain ⟨row', hlog', heq'⟩ := hled p hp hpid (by omega)
  have hple : p.context.rev ≤ row.envelope.context.rev := by
    have := htop row' hlog' (by rw [hch.filed row' hlog', heq', Envelope.strip_context, hpid])
    rwa [heq', Envelope.strip_context] at this
  have heq : p = row.envelope := hu.one p hp _ hrow' (hpid.trans hid.symm) (by omega)
  refine Or.inr ⟨?_, ht.signed row hrow, ?_⟩
  · show c.context.rev = (row.envelope.context.rev + 1) % 2 ^ 64
    rw [hprev, heq] at hrev ⊢
    exact (Nat.mod_eq_of_lt hrev).symm
  · rw [hdig, heq]; exact (Envelope.digest_with_seq ..).symm

/-- **A submission that comes after the older versions of its record** is accepted, if it
    gets an answer. -/
theorem Base.told_submitRecord (hu : Unforked C F.committed) (ht : Told F.relay) {c : Envelope}
    (hc : c ∈ F.committed) (hrev : c.context.rev < 2 ^ 64) (hled : Led F c) {now : String}
    {s : Relay.Store.Sender} {res : Except Error PutResult} {r : Relay.Store}
    (h : F.relay.submitRecord C s c now = (res, r)) :
    Told r ∧ ∀ head, res ≠ .ok (.rejected head) := by
  rcases Relay.Store.submitRecord_cases h with ⟨err, rfl, rfl⟩ | ⟨out, -, hput, rfl⟩
  · exact ⟨ht, fun head hres => by cases hres⟩
  rw [hb.strip hc] at hput
  have hacc : out.accepted = true ∧ Told r := by
    obtain ⟨hsub, ⟨row, hrow, -, rfl, rfl⟩ | ⟨hnone, hno, -, -⟩ | ⟨-, -, -, -, rfl, rfl⟩⟩ :=
      Relay.Store.putRecord_cases hput
    · exact ⟨ht.accepted _ row hrow, ht⟩
    · rcases hb.follows hu ht hc hrev hled with ⟨row, hrow, heq⟩ | hf
      · have := ht.logged row hrow
        rw [heq, Envelope.strip_context, hnone] at this
        cases this
      · exact absurd hf hno
    · have happ : Relay.Store.Appends C F.relay (F.relay.afterAccept C c now) c :=
        Relay.Store.appends_afterAccept hsub.valid now
      have hlog : ∀ row ∈ (F.relay.afterAccept C c now).log, row ∈ F.relay.log ∨ row.envelope = c := by
        intro row hrow
        rw [happ.log] at hrow
        exact (List.mem_append.1 hrow).imp_right fun h => by rw [List.mem_singleton.1 h]; rfl
      refine ⟨rfl, ⟨fun m row hm => ?_, fun row hrow => ?_, fun row hrow => ?_⟩⟩
      · by_cases hmc : m = c.context.mutationID
        · subst hmc
          simp only [Relay.Store.afterAccept, AList.lookup_insert, Option.some.injEq] at hm
          exact hm ▸ rfl
        · simp only [Relay.Store.afterAccept, AList.lookup_insert_ne hmc] at hm
          exact ht.accepted m row hm
      · by_cases hmc : row.envelope.context.mutationID = c.context.mutationID
        · rw [hmc]; simp only [Relay.Store.afterAccept, AList.lookup_insert, Option.isSome_some]
        · simp only [Relay.Store.afterAccept, AList.lookup_insert_ne hmc]
          exact ht.logged row ((hlog row hrow).resolve_right fun h => hmc (by rw [h]))
      · rcases hlog row hrow with h | h
        · exact ht.signed row h
        · rw [h]; exact hsub.valid.signature
  exact ⟨hacc.2, fun head hres => by
    rw [(Relay.Store.putResult_rejected hres).1] at hacc; cases hacc.1⟩

end

/-! ## Edits -/

section
variable {F : Fleet} (ht : Tidy C V F) {d : ID} {n : Node} (hn : F.nodes d = some n)
  {edits : List Manager.Edit} {envs : List Envelope}
  (hs : List.Forall₂ (fun e env => (n.manager V d).sealEdit C n.store e = .ok env) edits envs)
  (hd : Distinct C V.genesis.vaultID (edits.flatMap Manager.Edit.draws ++ F.ids))
include ht hn hs hd

/-- An edit starts a record or revises the stored head of one. -/
theorem Tidy.version {env : Envelope} (henv : env ∈ envs) :
    ((∀ x ∈ F.committed, x.context.recordID ≠ env.context.recordID) ∧ env.context.rev = 1) ∨
    ∃ e ∈ edits, ∃ h, e.revised = some env.context.recordID ∧
      n.store.head env.context.recordID = some h ∧ env.context.rev = h.context.rev + 1 ∧
      env.context.parentDigest = some (h.digest C) := by
  obtain ⟨e, he, m, p, hw, -, hbuild⟩ := (edits_sealed hs).2 env henv
  have hheads := (ht.nodes d n hn).heads
  have hrev : env.context.rev = m.rev := by rw [hw.context]; rfl
  have hparent : env.context.parentDigest = m.parentDigest := by rw [hw.context]; rfl
  have hid : env.context.recordID = m.recordID := by rw [hw.context]; rfl
  have hnew : Novel C V.genesis.vaultID F.ids (edits.flatMap Manager.Edit.draws) m.recordID →
      ∀ x ∈ F.committed, x.context.recordID ≠ m.recordID := fun hnov x hx =>
    hd.novel hnov (ht.kinds x (ht.committed hx)).known
  rw [hid, hrev, hparent]
  cases hbuild with
  | create recordID recordType rev => exact Or.inl ⟨hnew (Or.inl (draws_subset he recordID)), rev⟩
  | @keep source head candidate head_eq host drawn recordID recordType version =>
    obtain ⟨hid', hc⟩ := hheads source head head_eq
    have hplain : Plain head.strip := by rw [Plain, Envelope.strip_context, host]; rfl
    have hsource : source ∈ F.ids := hid' ▸ (ht.kinds _ (ht.committed hc)).plain hplain
    have hnov := hnew (Or.inr ⟨source, hsource, candidate, draws_subset he drawn, recordID⟩)
    refine Or.inl ⟨hnov, ?_⟩
    have hnone : n.store.head m.recordID = none := by
      rcases hh : n.store.head m.recordID with _ | h
      · rfl
      · obtain ⟨hid'', hc'⟩ := hheads _ h hh
        exact absurd hid'' (hnov h.strip hc')
    rw [Manager.nextVersion, hnone] at version
    exact congrArg Prod.fst version
  | @revise head head_eq recordType rev parent kind =>
    have hlt := ht.revs head.strip (ht.committed (hheads _ head head_eq).2)
    rw [Envelope.strip_context] at hlt
    have hpos : 1 ≤ m.rev := hrev ▸ hw.valid.rev
    refine Or.inr ⟨e, he, head, kind, head_eq, ?_, parent⟩
    rw [rev] at hpos ⊢
    unfold counterSucc at hpos ⊢
    omega

end

/-- What the device commits with an edit: the envelopes are the next versions. -/
structure NextVersions (C : Suite) (cs envs : List Envelope) : Prop where
  above : ∀ env ∈ envs, ∀ x ∈ cs, x.context.recordID = env.context.recordID →
    x.context.rev < env.context.rev
  built : ∀ env ∈ envs, env.context.rev ≠ 1 → ∃ p ∈ cs,
    p.context.recordID = env.context.recordID ∧ env.context.rev = p.context.rev + 1 ∧
    env.context.parentDigest = some (p.digest C)
  one : ∀ env ∈ envs, ∀ env' ∈ envs, env.context.recordID = env'.context.recordID → env = env'

theorem Unforked.extend {cs cs' envs : List Envelope} (h : Unforked C cs) (he : NextVersions C cs envs)
    (hold : cs ⊆ cs') (hnew : ∀ e ∈ cs', e ∈ cs ∨ e ∈ envs) : Unforked C cs' := by
  refine ⟨fun e h₁ e' h₂ hid hrev => ?_, fun e h₁ hrev => ?_⟩
  · rcases hnew e h₁ with h₁ | h₁ <;> rcases hnew e' h₂ with h₂ | h₂
    · exact h.one e h₁ e' h₂ hid hrev
    · exact absurd (he.above e' h₂ e h₁ hid) (by omega)
    · exact absurd (he.above e h₁ e' h₂ hid.symm) (by omega)
    · exact he.one e h₁ e' h₂ hid
  · rcases hnew e h₁ with h₁ | h₁
    · obtain ⟨p, hp, h⟩ := h.parent e h₁ hrev
      exact ⟨p, hold hp, h⟩
    · obtain ⟨p, hp, h⟩ := he.built e h₁ hrev
      exact ⟨p, hold hp, h⟩

section
variable {F : Fleet} (ht : Tidy C V F) {d : ID} (ha : Alone C d F) {n : Node}
  (hn : F.nodes d = some n) {edits : List Manager.Edit} {envs : List Envelope}
  (hs : List.Forall₂ (fun e env => (n.manager V d).sealEdit C n.store e = .ok env) edits envs)
  (hd : Distinct C V.genesis.vaultID (edits.flatMap Manager.Edit.draws ++ F.ids))
  {st : Store} (hst : n.store.applyLocalBatch C envs = .ok st)
include ht ha hn hs hd hst

/-- The envelopes of a batch that revises the newest versions are the next ones. -/
theorem Alone.nextVersions (hok : OnNewest F (.edit d edits))
    (hfree : ∀ a ∈ envs, ∀ b ∈ envs, a.digest C = b.digest C → a = b) :
    NextVersions C F.committed envs := by
  have hheads := (ht.nodes d n hn).heads
  have hversion : ∀ env ∈ envs, _ := fun _ henv => ht.version hn hs hd henv
  refine ⟨fun env henv x hx hid => ?_, fun env henv hrev => ?_, fun env henv env' henv' hid => ?_⟩
  · rcases hversion env henv with ⟨hnew, -⟩ | ⟨e, he, h, hr, hh, hrev, -⟩
    · exact absurd hid (hnew x hx)
    · have hle : x.context.rev ≤ h.context.rev := by
        by_cases hout : x ∈ n.store.outbox
        · exact hok n hn e he _ hr h hh x hout hid
        · obtain ⟨h', hh', hle⟩ := ((ha.node n hn).settled x hx hout).head
          rw [hid, hh] at hh'
          cases hh'
          exact hle
      omega
  · rcases hversion env henv with ⟨-, hone⟩ | ⟨e, he, h, -, hh, hnext, hparent⟩
    · exact absurd hone hrev
    · obtain ⟨hid, hc⟩ := hheads _ h hh
      exact ⟨h.strip, hc, hid, hnext, by rw [Envelope.digest_strip]; exact hparent⟩
  · -- both are the next version of the record, and the batch has accepted both
    have hrevs : ∀ b ∈ envs, b.context.recordID = env.context.recordID →
        b.context.rev = env.context.rev := by
      intro b hb hb'
      rcases hversion env henv with ⟨hnew, hone⟩ | ⟨-, -, h, -, hh, hnext, -⟩ <;>
        rcases hversion b hb with ⟨hnew', hone'⟩ | ⟨-, -, h', -, hh', hnext', -⟩
      · rw [hone, hone']
      · obtain ⟨hid', hc⟩ := hheads _ h' hh'
        exact absurd (hid'.trans hb') (hnew h'.strip hc)
      · obtain ⟨hid', hc⟩ := hheads _ h hh
        exact absurd (hid'.trans hb'.symm) (hnew' h.strip hc)
      · rw [hb', hh] at hh'
        cases hh'
        rw [hnext, hnext']
    exact hfree env henv env' henv'
      (Store.applyLocalBatch_twin hst hrevs env henv env' henv' rfl hid.symm)

theorem Alone.edit (hok : OnNewest F (.edit d edits))
    (hfree : ∀ a ∈ envs, ∀ b ∈ envs, a.digest C = b.digest C → a = b) :
    Alone C d ((F.draw (edits.flatMap Manager.Edit.draws) envs).setNode d { n with store := st }) := by
  have hext := ha.nextVersions ht hn hs hd hst hok hfree
  obtain ⟨hinst, -, hsub, hmem, -⟩ := Store.applyLocalBatch_ok hst
  obtain ⟨hb', hupd⟩ := ht.toBase.drawEdits hn hs hd.nodup
  have ho := ha.node n hn
  have hnode := ht.nodes d n hn
  have hpend : ∀ e ∈ envs, e ∈ st.outbox := hb'.batch_outbox hst
    (fun e he => hb'.committed (hnode.outbox e he).1) fun e he => List.mem_append_left _ he
  have hout : ∀ x ∈ st.outbox, x ∈ n.store.outbox ∧ x ∈ F.committed ∨ x ∈ envs := fun x hx =>
    (hmem x hx).imp_left fun h => ⟨h, (hnode.outbox x h).1⟩
  have hold : ∀ e ∈ st.outbox ++ F.committed, e ∈ F.committed ∨ e ∈ envs := fun e he =>
    (List.mem_append.1 he).elim (fun h => (hout e h).imp_left And.right) Or.inl
  -- what has left the outbox had left it before the edit
  have hleft : ∀ e ∈ st.outbox ++ F.committed, e ∉ st.outbox → e ∈ F.committed ∧ e ∉ n.store.outbox :=
    fun e he hno => ⟨(hold e he).resolve_right fun h => hno (hpend e h), fun h => hno (hsub h)⟩
  have hlined : ∀ {cs}, (∀ c ∈ cs, c ∈ F.committed) → Lined n.store cs → Lined st cs := by
    intro cs hcs h
    refine ⟨fun c hc => hsub (h.pending hc), h.sorted, fun c hc x hx hid hlt => ?_⟩
    rcases hout x hx with ⟨hx, -⟩ | hx
    · exact h.full c hc x hx hid hlt
    · exact absurd (hext.above x hx c (hcs c hc) hid.symm) (by omega)
  refine ⟨fun e he => ?_, ha.unforked.extend hext (List.subset_append_right _ _) hold, ha.told,
    fun n' hn' => ?_⟩
  · rcases hold e he with he | he
    · exact ha.writer e he
    · exact (hupd e he).1
  obtain ⟨-, rfl⟩ | ⟨hne, -⟩ := mem_nodes_setNode hn'
  swap
  · exact absurd rfl hne
  refine ⟨fun e he => ?_, fun e he hno => ?_, fun e he x hx hid hlt => ?_, fun p hp => ?_⟩
  · rcases hold e he with he | he
    · exact (ho.kept e he).imp_left fun h => hsub h
    · exact Or.inl (hpend e he)
  · obtain ⟨hc, hno⟩ := hleft e he hno
    obtain ⟨⟨h, hh, hle⟩, hbelow⟩ := ho.settled e hc hno
    refine ⟨?_, fun x hx hid => ?_⟩
    · rcases hinst.head e.context.recordID with heq | ⟨x, hx, hid, -, heq⟩
      · exact ⟨h, heq.trans hh, hle⟩
      · exact ⟨x, heq, (hext.above x hx e hc hid.symm).le⟩
    · rcases hout x hx with ⟨hx, -⟩ | hx
      · exact hbelow x hx hid
      · exact hext.above x hx e hc hid.symm
  · rcases hold x hx with hx | hx
    · exact ho.led e he x hx hid hlt
    · exact absurd (hext.above x hx e (hnode.sent e he).1 hid.symm) (by omega)
  · have hdue := ho.due p hp
    have hphase := hnode.phase p hp
    have hpast : ∀ {es}, Past F n.store es → Past ((F.draw (edits.flatMap Manager.Edit.draws)
        envs).setNode d { n with store := st }) st es := fun h env henv e he hno =>
      h env henv e (hleft e he hno).1 (hleft e he hno).2
    cases p with
    | push l c rest => exact hlined (fun x hx => (hphase x hx).1) hdue
    | accept l c seq rest => exact hlined (fun x hx => (hphase.1 x hx).1) hdue
    | verifyChange l page env todo envs => exact hpast hdue
    | compareHead l page env todo envs => exact hpast hdue
    | applyPage l page envs => exact hpast hdue
    | _ => exact hdue

end

/-! ## Syncs -/

theorem notAfter_total (a b : Envelope) : Store.notAfter a b ∨ Store.notAfter b a := by
  unfold Store.notAfter
  by_cases h : a.context.recordID = b.context.recordID
  · rw [if_pos h, if_pos h.symm]; exact Nat.le_total ..
  · rw [if_neg h, if_neg (Ne.symm h)]; exact lt_or_gt_of_ne h

theorem notAfter_trans {a b c : Envelope} (hab : Store.notAfter a b) (hbc : Store.notAfter b c) :
    Store.notAfter a c := by
  unfold Store.notAfter at hab hbc ⊢
  by_cases h : a.context.recordID = b.context.recordID
  · rw [if_pos h] at hab
    by_cases h' : b.context.recordID = c.context.recordID
    · rw [if_pos h'] at hbc
      rw [if_pos (h.trans h')]; exact hab.trans hbc
    · rw [if_neg h'] at hbc
      rw [if_neg (h ▸ h'), h]; exact hbc
  · rw [if_neg h] at hab
    by_cases h' : b.context.recordID = c.context.recordID
    · rw [if_neg (h' ▸ h), ← h']; exact hab
    · rw [if_neg h'] at hbc
      rw [if_neg (hab.trans hbc).ne]; exact hab.trans hbc

/-- The outbox is submitted in the order of the revisions. -/
theorem lined_pending {st : Store} (hn : st.NodupOutbox) (hone : ∀ e ∈ st.outbox, ∀ e' ∈ st.outbox,
    e.context.recordID = e'.context.recordID → e.context.rev = e'.context.rev → e = e') :
    Lined st st.pending := by
  refine ⟨fun c hc => Store.mem_pending.1 hc, ?_, fun c _ x hx _ _ => Store.mem_pending.2 hx⟩
  have : Std.Total Store.notAfter := ⟨notAfter_total⟩
  have : IsTrans Envelope Store.notAfter := ⟨fun _ _ _ => notAfter_trans⟩
  have hsorted : st.pending.Pairwise Store.notAfter := List.pairwise_insertionSort _ _
  refine (hsorted.and hn.pending).imp_of_mem fun {a b} ha hb h hid => ?_
  obtain ⟨hle, hne⟩ := h
  rw [Store.notAfter, if_pos hid] at hle
  exact lt_of_le_of_ne hle fun heq =>
    hne (hone a (Store.mem_pending.1 ha) b (Store.mem_pending.1 hb) hid heq)

section
variable {F : Fleet} (ht : Tidy C V F) {d : ID} (ha : Alone C d F)
include ha

/-- The other devices have nothing to submit. -/
theorem Alone.mine_eq {d' : ID} {c : Envelope} {cs : List Envelope} (h : Mine F d' (c :: cs)) :
    d' = d := by
  obtain ⟨hc, hcd⟩ := h c List.mem_cons_self
  exact hcd.symm.trans (ha.writer c hc)

include ht
variable {n : Node} (hn : F.nodes d = some n)
include hn

theorem Alone.accept {l : Locals} {c : Envelope} {seq : ℕ} {rest : List Envelope} {st : Store}
    (hsync : n.sync = some (.accept l c seq rest)) (h : n.store.acceptOutbox C c seq = .ok st) :
    (∀ e ∈ F.committed, e ∈ st.outbox ∨ InLog F.relay e) ∧
    (∀ e ∈ F.committed, e ∉ st.outbox → Settled st e) ∧ Lined st rest := by
  have ho := ha.node n hn
  have hlined : Lined n.store (c :: rest) := ho.due _ hsync
  obtain ⟨hmine, hlog⟩ := (ht.nodes d n hn).phase _ hsync
  have hc := (hmine c List.mem_cons_self).1
  have hcout := hlined.pending List.mem_cons_self
  obtain ⟨hfirst, hsorted⟩ := List.pairwise_cons.1 hlined.sorted
  obtain ⟨-, rfl⟩ := Store.acceptOutbox_ok.1 h
  have hmem : ∀ {e}, e ∈ F.committed → (e ∈ ((n.store.writeHead { c with seq := seq }
      (c.digest C)).dequeue c.context.mutationID).outbox ↔ e ∈ n.store.outbox ∧ e ≠ c) := by
    intro e he
    rw [Store.mem_dequeue, Store.outbox_writeHead]
    refine and_congr_right fun _ => not_congr ⟨fun hm => ht.unique_committed e he c hc hm, ?_⟩
    rintro rfl; rfl
  have hold : ∀ {e}, e ∈ n.store.outbox → e ∈ F.committed :=
    fun he => ((ht.nodes d n hn).outbox _ he).1
  refine ⟨fun e he => ?_, fun e he hno => ⟨?_, fun x hx hid => ?_⟩, ?_, hsorted, ?_⟩
  · by_cases hec : e = c
    · exact Or.inr ⟨_, hlog, hec ▸ (ht.strip hc).symm⟩
    · exact (ho.kept e he).imp_left fun hout => (hmem he).2 ⟨hout, hec⟩
  · rw [Store.head_dequeue, Store.head_writeHead]
    by_cases hid : e.context.recordID = c.context.recordID
    · refine ⟨_, if_pos hid, ?_⟩
      by_cases hec : e = c
      · exact hec ▸ le_refl _
      · have hout : e ∉ n.store.outbox := fun hout => hno ((hmem he).2 ⟨hout, hec⟩)
        exact ((ho.settled e he hout).below c hcout hid.symm).le
    · have hout : e ∉ n.store.outbox := fun hout =>
        hno ((hmem he).2 ⟨hout, fun hec => hid (hec ▸ rfl)⟩)
      obtain ⟨h, hh, hle⟩ := (ho.settled e he hout).head
      exact ⟨h, (if_neg hid).trans hh, hle⟩
  · have hxout := (Store.mem_dequeue.1 hx).1
    rw [Store.outbox_writeHead] at hxout
    obtain ⟨-, hxc⟩ := (hmem (hold hxout)).1 hx
    by_cases hec : e = c
    · -- an older pending version would have come before `c`
      subst hec
      by_contra hle
      rcases Nat.lt_or_eq_of_le (Nat.le_of_not_lt hle) with hlt | heq
      · have hrest := (List.mem_cons.1 (hlined.full e List.mem_cons_self x hxout hid hlt)).resolve_left
          hxc
        exact lt_asymm hlt (hfirst x hrest hid.symm)
      · exact hxc (ha.unforked.one x (hold hxout) e he hid heq)
    · exact (ho.settled e he fun hout => hno ((hmem he).2 ⟨hout, hec⟩)).below x hxout hid
  · intro x hx
    have hxout := hlined.pending (List.mem_cons_of_mem _ hx)
    exact (hmem (hold hxout)).2 ⟨hxout, fun hxc => lt_irrefl _ (hxc ▸ hfirst x hx (hxc ▸ rfl))⟩
  · intro c' hc' x hx hid hlt
    have hxout := (Store.mem_dequeue.1 hx).1
    rw [Store.outbox_writeHead] at hxout
    exact (List.mem_cons.1 (hlined.full c' (List.mem_cons_of_mem _ hc') x hxout hid hlt)).resolve_left
      ((hmem (hold hxout)).1 hx).2

/-- An access of the writer's Sync to the store. -/
theorem Alone.orderlyWork {draw : Draw} {p p' : Phase} {st : Store} (hsync : n.sync = some p)
    (h : Sync.work C (n.engine V d) draw n.store p = some (st, p')) :
    Orderly F ({ n with store := st }.enter p') := by
  have ho := ha.node n hn
  have hdue := ho.due p hsync
  have hstore : (∀ e ∈ F.committed, e ∈ st.outbox ∨ InLog F.relay e) ∧
      ∀ e ∈ F.committed, e ∉ st.outbox → Settled st e := by
    cases work_effect h with
    | quiet records outbox cursor =>
      refine ⟨fun e he => outbox ▸ ho.kept e he, fun e he hno => ?_⟩
      obtain ⟨hh, hbelow⟩ := ho.settled e he (outbox ▸ hno)
      refine ⟨?_, outbox ▸ hbelow⟩
      rw [Store.head, records]; exact hh
    | accept h =>
      obtain ⟨hkept, hsettled, -⟩ := ha.accept ht hn hsync h
      exact ⟨hkept, hsettled⟩
    | supersede h => exact hdue.elim
    | resolve h => exact hdue.elim
    | apply h =>
      obtain ⟨hinst, hout, -⟩ := Store.applyRemoteBatch_ok h
      refine ⟨fun e he => hout ▸ ho.kept e he, fun e he hno => ?_⟩
      rw [hout] at hno
      obtain ⟨hh, hbelow⟩ := ho.settled e he hno
      refine ⟨?_, hout ▸ hbelow⟩
      rcases hinst.head e.context.recordID with heq | ⟨env, henv, hid, -, heq⟩
      · rw [heq]; exact hh
      · exact ⟨env, heq, hdue env henv e he hno hid.symm⟩
  have hdue' : Due F st p' := by
    cases work_advances h with
    | idle hi => exact .of_idle hi
    | readOutbox =>
      refine due_nextCandidate _ (lined_pending (ht.nodup d n hn) fun e he e' he' => ?_)
      have hnode := (ht.nodes d n hn).outbox
      exact ha.unforked.one e (hnode e he).1 e' (hnode e' he').1
    | accept hacc => exact due_nextCandidate _ (ha.accept ht hn hsync hacc).2.2
    | supersede _ => exact hdue.elim
    | preserve _ => exact hdue.elim
    | resolve _ => exact hdue.elim
    | verify _ => exact hdue
    | @compare l page env todo envs apply happly =>
      refine due_nextChange _ _ fun x hx e he hno hid => ?_
      cases apply with
      | false => exact hdue x hx e he hno hid
      | true =>
        rcases List.mem_append.1 hx with hx | hx
        · exact hdue x hx e he hno hid
        · obtain rfl := List.mem_singleton.1 hx
          obtain ⟨h', hh', hle⟩ := (ho.settled e he hno).head
          exact hle.trans (ahead_true happly h' (hid ▸ hh')).le
  have hmid : Orderly F { n with store := st, sync := none } :=
    ⟨hstore.1, hstore.2, ho.led, fun q hq => absurd hq.symm (Option.some_ne_none q)⟩
  exact hmid.enter hdue'

/-- An answer of the relay to the writer's Sync. -/
theorem Alone.orderlyCall {now : String} {p p' : Phase} {r : Relay.Store} (hsync : n.sync = some p)
    (h : Called C F.relay (n.sender C V d) now p r p') : Told r ∧ Orderly F (n.enter p') := by
  have ho := ha.node n hn
  have hdue := ho.due p hsync
  have hphase := (ht.nodes d n hn).phase p hsync
  have hsubmit : ∀ {l c rest res r'}, p = .push l c rest →
      F.relay.submitRecord C (n.sender C V d) c now = (res, r') →
      Told r' ∧ ∀ head, res ≠ .ok (.rejected head) := by
    rintro l c rest res r' rfl h
    have hc := (hphase c List.mem_cons_self).1
    exact ht.toBase.told_submitRecord ha.unforked ha.told hc (ht.revs c (ht.committed hc))
      (Lined.led hdue ho.kept) h
  cases h with
  | membership auth => exact ⟨ha.told, ho.enter trivial⟩
  | refused auth => exact ⟨ha.told, ho.enter (.of_idle (idle_failMembership _))⟩
  | latest auth h => exact ⟨ha.told, ho.enter trivial⟩
  | page auth h =>
    exact ⟨ha.told, ho.enter (due_nextChange _ _ fun x hx => absurd hx List.not_mem_nil)⟩
  | putFailed h => exact ⟨(hsubmit rfl h).1, ho.enter trivial⟩
  | @put l c rest res r' h =>
    obtain ⟨htold, hno⟩ := hsubmit rfl h
    refine ⟨htold, ho.enter ?_⟩
    cases res with
    | accepted seq digest => exact hdue
    | rejected head => exact absurd rfl (hno head)
  | latestFailed h => exact ⟨ha.told, ho.enter trivial⟩
  | pageFailed h => exact ⟨ha.told, ho.enter trivial⟩

end

/-! ## Runs -/

section
variable {F : Fleet} {d : ID} (ha : Alone C d F)
include ha

/-- Nothing was committed; the node of the writer is as it was, or orderly. -/
theorem Alone.frame {F' : Fleet} (hc : F'.committed ⊆ F.committed)
    (hc' : F.committed ⊆ F'.committed) (hlog : F.relay.log <+: F'.relay.log) (hr : Told F'.relay)
    (hn : ∀ n, F'.nodes d = some n → F.nodes d = some n ∨ Orderly F n) : Alone C d F' where
  writer := fun e he => ha.writer e (hc he)
  unforked :=
    { one := fun e he e' he' => ha.unforked.one e (hc he) e' (hc he')
      parent := fun e he hrev => by
        obtain ⟨p, hp, h⟩ := ha.unforked.parent e (hc he) hrev
        exact ⟨p, hc' hp, h⟩ }
  told := hr
  node := fun n hn' => ((hn n hn').elim (ha.node n) id).mono hc hlog

theorem Alone.setNode (G : Fleet) (hc : G.committed = F.committed) (hnodes : G.nodes = F.nodes)
    (hlog : F.relay.log <+: G.relay.log) (hr : Told G.relay) {d' : ID} {n' : Node}
    (hout : n'.store.outbox ⊆ F.committed) (ho : d' = d → Orderly F n') :
    Alone C d (G.setNode d' n') := by
  refine ha.frame (fun e he => ?_) (fun e he => ?_) hlog hr fun n hn => ?_
  · exact (List.mem_append.1 he).elim (fun h => hout h) fun h => hc ▸ h
  · exact List.mem_append_right _ (hc ▸ he)
  · rcases mem_nodes_setNode hn with ⟨rfl, rfl⟩ | ⟨-, hn⟩
    · exact Or.inr (ho rfl)
    · exact Or.inl (hnodes ▸ hn)

/-- Before the writer has joined, nothing is committed. -/
theorem Alone.install (hb : Base C V F) {d' : ID} (hnew : F.nodes d' = none) {signing : Bytes}
    {st : Store} (hout : st.outbox = []) : Alone C d (F.setNode d' (newNode signing st)) := by
  refine ha.setNode F rfl rfl List.prefix_rfl ha.told
    (fun e he => absurd (hout ▸ he : e ∈ []) List.not_mem_nil) ?_
  rintro rfl
  have hnil : ∀ e, e ∉ F.committed := by
    intro e he
    obtain ⟨n, _, _, hn, -⟩ := hb.wrote e (hb.committed he)
    rw [ha.writer e he, hnew] at hn
    cases hn
  exact ⟨fun e he => absurd he (hnil e), fun e he => absurd he (hnil e),
    fun e he => absurd he List.not_mem_nil, fun p hp => absurd hp.symm (Option.some_ne_none p)⟩

/-- **The step lemma.** -/
theorem Alone.step (ht : Tidy C V F) {F' : Fleet} {l : Label} (h : F.step C V l = some F')
    (hd : Distinct C V.genesis.vaultID F'.ids) (hw : WrittenBy d l) (hok : OnNewest F l)
    (hfree : ∀ a ∈ F'.sealed, ∀ b ∈ F'.sealed, a.digest C = b.digest C → a = b) : Alone C d F' := by
  have hm := moves_of_step h
  clear h
  have hout : ∀ {d' n}, F.nodes d' = some n → n.store.outbox ⊆ F.committed :=
    fun hn e he => ((ht.nodes _ _ hn).outbox e he).1
  cases hm with
  | @edit d' n edits envs st node sealing batch =>
    obtain rfl : d' = d := hw
    exact ha.edit ht node sealing hd batch hok fun a haenv b hbenv =>
      hfree a (List.mem_append_left _ haenv) b (List.mem_append_left _ hbenv)
  | @start d' n node idle =>
    refine ha.setNode F rfl rfl List.prefix_rfl ha.told (fun _ he => hout node he) ?_
    rintro rfl; exact (ha.node n node).enter trivial
  | @work d' n draw p p' st node sync h =>
    refine ha.setNode (F.draw _ _) rfl rfl List.prefix_rfl ha.told (fun e he => ?_) ?_
    · rcases (work_effect h).outbox he with he | ⟨l, c, head, rest, rfl⟩
      · exact hout node he
      · -- a Sync of the writer is not at this phase, and others hold no candidate
        obtain rfl := ha.mine_eq ((ht.nodes d' n node).phase _ sync).1
        exact ((ha.node n node).due _ sync).elim
    · rintro rfl; exact ha.orderlyWork ht node sync h
  | @call d' n now p p' r node sync h =>
    by_cases hdd : d' = d
    · subst hdd
      obtain ⟨htold, ho⟩ := ha.orderlyCall ht node sync h
      exact ha.setNode { F with relay := r } rfl rfl (ht.toBase.called node sync h).2.1 htold
        (fun _ he => hout node he) fun _ => ho
    · have hr : r = F.relay := by
        cases h with
        | put h => exact absurd (ha.mine_eq ((ht.nodes d' n node).phase _ sync)) hdd
        | putFailed h => exact absurd (ha.mine_eq ((ht.nodes d' n node).phase _ sync)) hdd
        | _ => rfl
      subst hr
      exact ha.setNode F rfl rfl List.prefix_rfl ha.told (fun _ he => hout node he)
        fun h => absurd h hdd
  | @serve d' n env now res r node sent h =>
    obtain ⟨hc, hcd⟩ := (ht.nodes d' n node).sent env sent
    obtain rfl : d' = d := hcd.symm.trans (ha.writer env hc)
    have htold := (ht.toBase.told_submitRecord ha.unforked ha.told hc (ht.revs env (ht.committed hc))
      ((ha.node n node).led env sent) h).1
    exact ha.frame (List.Subset.refl _) (List.Subset.refl _)
      (ht.relay.submitRecord hc ht.unique_committed (ht.seq hc) h).2.1 htold fun n hn => Or.inl hn
  | @stop d' n node =>
    refine ha.setNode F rfl rfl List.prefix_rfl ha.told (fun _ he => hout node he) ?_
    rintro rfl
    have ho := ha.node n node
    exact ⟨ho.kept, ho.settled, ho.led, fun p hp => absurd hp.symm (Option.some_ne_none p)⟩
  | append h =>
    obtain ⟨_, -, -, rfl⟩ := Relay.Store.appendMembership_ok h
    exact ha.frame (List.Subset.refl _) (List.Subset.refl _) List.prefix_rfl
      ⟨ha.told.accepted, ha.told.logged, ha.told.signed⟩ fun n hn => Or.inl hn
  | snapshot node =>
    exact ha.frame (List.Subset.refl _) (List.Subset.refl _) List.prefix_rfl ha.told
      fun n hn => Or.inl hn
  | archive node =>
    exact ha.frame (List.Subset.refl _) (List.Subset.refl _) List.prefix_rfl ha.told
      fun n hn => Or.inl hn
  | read copy node h =>
    exact ha.frame (List.Subset.refl _) (List.Subset.refl _) List.prefix_rfl ha.told
      fun n hn => Or.inl hn
  | join copy accepted complete new auth valid h =>
    exact ha.install ht.toBase new (Vault.install_ok h).2.2.1
  | restore copy archived complete new h =>
    exact ha.install ht.toBase new (Vault.install_ok h).2.2.1

end

theorem Founding.alone (A : Founding C) (d : ID) : Alone C d A.fleet where
  writer := fun _ he => absurd he List.not_mem_nil
  unforked := ⟨fun _ he => absurd he List.not_mem_nil, fun _ he => absurd he List.not_mem_nil⟩
  told := ⟨fun m row h => (by cases h), fun _ hrow => absurd hrow List.not_mem_nil,
    fun _ hrow => absurd hrow List.not_mem_nil⟩
  node := fun n hn => by
    rw [A.node_eq hn]
    exact ⟨fun _ he => absurd he List.not_mem_nil, fun _ he => absurd he List.not_mem_nil,
      fun _ he => absurd he List.not_mem_nil, fun p hp => absurd hp.symm (Option.some_ne_none p)⟩

/-- **A lone writer never conflicts with itself.**  Take any run of a fleet in which only
    the device `d` edits, with any interleaving of its edits and of Syncs, lost answers and
    interruptions, and in which a record is revised only while no pending version of it is
    above the stored head.  The relay has rejected no submission and will reject none of
    those sent, and no Sync preserves a candidate. -/
theorem no_self_conflict (A : Founding C) {d : ID} {F : Fleet}
    (h : Run.Reach (Fleet.step C A.setup) (fun F l => WrittenBy d l ∧ OnNewest F l) A.fleet F)
    (hd : Distinct C A.setup.genesis.vaultID F.ids)
    (hfree : ∀ a ∈ F.sealed, ∀ b ∈ F.sealed, a.digest C = b.digest C → a = b) :
    (∀ m row, F.relay.mutations.lookup m = some row → row.accepted = true) ∧
    ∀ d' n, F.nodes d' = some n →
      (∀ env ∈ n.sent, ∀ now res r,
        F.relay.submitRecord C (n.sender C A.setup d') env now = (res, r) →
          ∀ head, res ≠ .ok (.rejected head)) ∧
      ∀ p, n.sync = some p → ∀ l c k head rest, p ≠ .preserve l c head rest ∧
        p ≠ .resolve l c k head rest ∧ p ≠ .supersede l c head rest := by
  have ht := tidy_of_reach A h hd
  have ha : Alone C d F := h.induct_tail
    (P := fun F => Distinct C A.setup.genesis.vaultID F.ids →
      (∀ a ∈ F.sealed, ∀ b ∈ F.sealed, a.digest C = b.digest C → a = b) → Alone C d F)
    (fun _ _ => A.alone d)
    (fun s l s' hs ih hok hstep hd' hfree' => by
      have hd₀ := hd'.of_suffix (ids_suffix hstep)
      have ht₀ := tidy_of_reach A hs hd₀
      have hsub := (grows_step ht₀.toBase hstep).sealed
      exact (ih hd₀ fun a ha b hb => hfree' a (hsub ha) b (hsub hb)).step ht₀ hstep hd' hok.1 hok.2
        hfree') hd hfree
  refine ⟨ha.told.accepted, fun d' n hn => ⟨fun env henv now res r hres => ?_, fun p hp l c k head rest => ?_⟩⟩
  · obtain ⟨hc, hcd⟩ := (ht.nodes d' n hn).sent env henv
    obtain rfl : d' = d := hcd.symm.trans (ha.writer env hc)
    exact (ht.toBase.told_submitRecord ha.unforked ha.told hc (ht.revs env (ht.committed hc))
      ((ha.node n hn).led env henv) hres).2
  · have hphase := (ht.nodes d' n hn).phase p hp
    refine ⟨?_, ?_, ?_⟩ <;> rintro rfl
    all_goals
      obtain rfl := ha.mine_eq hphase.1
      exact ((ha.node n hn).due _ hp).elim

namespace Vault01

/-- The host `20` is created and edited on `0a`; the Sync that publishes the two versions is
    interrupted once the first of them was accepted. -/
def interrupted : List Label :=
  [.edit (Sample.id 0x0a) [create 0x20 0x30], .edit (Sample.id 0x0a) [revise 0x20 0x31]] ++
    untilOutbox true ++ [.call (Sample.id 0x0a) "t0", .work (Sample.id 0x0a) (draw 0xff),
    .stop (Sample.id 0x0a)]

/-- The host is edited again, and a second Sync runs to the end of `push`. -/
def resumed : List Label :=
  [.edit (Sample.id 0x0a) [revise 0x20 0x32]] ++ untilOutbox false ++
    [.call (Sample.id 0x0a) "t0", .work (Sample.id 0x0a) (draw 0xff), .call (Sample.id 0x0a) "t0",
    .work (Sample.id 0x0a) (draw 0x33), .work (Sample.id 0x0a) (draw 0xff)]

def halfway : Fleet :=
  (run (fun F l => WrittenBy (Sample.id 0x0a) l ∧ OnNewest F l) interrupted).get (by decide)

def forked : Fleet :=
  (run (fun _ l => WrittenBy (Sample.id 0x0a) l) (interrupted ++ resumed)).get (by decide)

end Vault01

open Vault01 in
/-- An interrupted Sync meets no rejection, and leaves none for the next one. -/
theorem no_self_conflict_interrupted : (∃ row ∈ halfway.relay.log, row.recordID = Sample.id 0x20) ∧
    (∀ m row, halfway.relay.mutations.lookup m = some row → row.accepted = true) ∧
    ∀ d' n, halfway.nodes d' = some n →
      (∀ env ∈ n.sent, ∀ now res r,
        halfway.relay.submitRecord sample (n.sender sample setup d') env now = (res, r) →
          ∀ head, res ≠ .ok (.rejected head)) ∧
      ∀ p, n.sync = some p → ∀ l c k head rest, p ≠ .preserve l c head rest ∧
        p ≠ .resolve l c k head rest ∧ p ≠ .supersede l c head rest := by
  have hreach : Run.Reach (Fleet.step sample setup)
      (fun F l => WrittenBy (Sample.id 0x0a) l ∧ OnNewest F l) founding.fleet halfway :=
    Run.reach_of_replay (Option.some_get _).symm
  have hd : Distinct sample setup.genesis.vaultID halfway.ids := by decide
  exact ⟨by decide, no_self_conflict founding hreach hd (by decide)⟩

open Vault01 in
/-- `AcceptOutbox` has made the accepted first version the stored head, below the pending
    second one.  The next edit is built on it, and the relay rejects it: the only writer of
    the vault gets a conflict record. -/
theorem self_conflict :
    Run.Reach (Fleet.step sample setup) (fun _ l => WrittenBy (Sample.id 0x0a) l) founding.fleet
      forked ∧
    Distinct sample setup.genesis.vaultID forked.ids ∧
    (∀ a ∈ forked.sealed, ∀ b ∈ forked.sealed, a.digest sample = b.digest sample → a = b) ∧
    (∃ row, forked.relay.mutations.lookup (Sample.id 0x32) = some row ∧
      row.code = some .parentMismatch) ∧
    ∃ n, forked.nodes (Sample.id 0x0a) = some n ∧
      ∃ k ∈ n.store.outbox, k.context.recordType.isConflict = true := by
  refine ⟨Run.reach_of_replay (Option.some_get _).symm, by decide, by decide, ?_, ?_⟩
  · have hrow := Option.eq_some_of_isSome
      (by decide : (forked.relay.mutations.lookup (Sample.id 0x32)).isSome = true)
    exact ⟨_, hrow, by decide⟩
  · have hn := Option.eq_some_of_isSome
      (by decide : (forked.nodes (Sample.id 0x0a)).isSome = true)
    exact ⟨_, hn, by decide⟩

end Sshstate.Sync
