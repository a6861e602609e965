/-
  Every stored head is backed: it is in the relay's log, or pending in the outbox of
  the device that stores it, so that an edit on top of it can be published.

  It is an invariant of local edits and Syncs (`Backed.edit`, `Backed.work`).  A new
  device starts from copied heads and with an empty outbox; what it holds is backed
  when no copied head was still pending (`AcceptedCopies`), and `heads_backed` is the
  result for the runs in which that is so.  `buildExport` copies pending heads
  (`heads_backed_exported`).
-/
import Sshstate.Proof.Preserve

namespace Sshstate.Sync

open Vault (Store Copy)
open Relay.Store (decodeEnvelope entry)

variable {C : Suite} {V : Setup}

/-- The head `e` is backed by the relay or by the outbox of `n`. -/
def BackedBy (r : Relay.Store) (n : Node) (e : Envelope) : Prop :=
  InLog r e ∨ e.strip ∈ n.store.outbox

structure Backed (F : Fleet) : Prop where
  heads : ∀ d n, F.nodes d = some n → ∀ id e, n.store.head id = some e → BackedBy F.relay n e
  copies : ∀ c ∈ F.copies, ∀ e ∈ c.heads, InLog F.relay e

/-- Every head that the next query of the copy `i` takes is in the relay's log. -/
def AcceptedRead (F : Fleet) (i : ℕ) : Prop :=
  ∀ c ∈ F.copies[i]?, ∀ n ∈ F.nodes c.device, ∀ c' ∈ c.read n.store, ∀ e ∈ c'.heads, InLog F.relay e

/-- The next query of a copy takes a head with the context of `e`. -/
def selects (c : Copy) (e : Envelope) : Bool :=
  match c.unpublished, c.todo with
  | some unpublished, t :: _ => e.context.recordType = t ∧ e.context.mutationID ∉ unpublished
  | _, _ => false

/-- No query of a copy takes a head that is pending in the outbox of the device it reads. -/
def AcceptedCopies (F : Fleet) : Label → Prop
  | .read i => ∀ c ∈ F.copies[i]?, ∀ n ∈ F.nodes c.device, ∀ e ∈ n.store.outbox,
      selects c e = true → (n.store.head e.context.recordID).map Envelope.strip ≠ some e
  | _ => True

instance (F : Fleet) : (l : Label) → Decidable (AcceptedCopies F l)
  | .read i => inferInstanceAs (Decidable (∀ c ∈ F.copies[i]?, ∀ n ∈ F.nodes c.device,
      ∀ e ∈ n.store.outbox, selects c e = true →
        (n.store.head e.context.recordID).map Envelope.strip ≠ some e))
  | .edit _ _ | .start _ | .work _ _ | .call _ _ | .serve _ _ _ | .stop _ | .append _ | .snapshot _
  | .archive _ | .join _ _ _ _ | .restore _ _ _ _ => isTrue trivial

theorem BackedBy.mono {r r' : Relay.Store} (hlog : r.log <+: r'.log) {n : Node} {e : Envelope}
    (h : BackedBy r n e) : BackedBy r' n e := h.imp_left fun h => h.mono hlog

namespace Backed

variable {F : Fleet} (hk : Backed F)
include hk

theorem setRelay {r : Relay.Store} (hlog : F.relay.log <+: r.log) : Backed { F with relay := r } :=
  ⟨fun d n hn id e he => (hk.heads d n hn id e he).mono hlog,
    fun c hc e he => (hk.copies c hc e he).mono hlog⟩

theorem setNode {d : ID} {n' : Node}
    (h : ∀ id e, n'.store.head id = some e → BackedBy F.relay n' e) : Backed (F.setNode d n') := by
  refine ⟨fun d' m hm id e he => ?_, hk.copies⟩
  by_cases hd : d' = d
  · subst hd
    obtain rfl : m = n' := by simpa [Fleet.setNode, eq_comm] using hm
    exact h id e he
  · exact hk.heads d' m (by simpa [Fleet.setNode, hd] using hm) id e he

/-- A local edit makes heads of what it enqueues. -/
theorem edit (hb : Base C V F) {d : ID} {n : Node} (hn : F.nodes d = some n)
    {edits : List Vault.Manager.Edit} {envs : List Envelope} {st : Store}
    (hs : List.Forall₂ (fun e env => (n.manager V d).sealEdit C n.store e = .ok env) edits envs)
    (hst : n.store.applyLocalBatch C envs = .ok st)
    (hnodup : (edits.flatMap Vault.Manager.Edit.draws ++ F.ids).Nodup) :
    Backed ((F.draw (edits.flatMap Vault.Manager.Edit.draws) envs).setNode d
      { n with store := st }) := by
  obtain ⟨hb₁, hnew⟩ := hb.drawEdits hn hs hnodup
  obtain ⟨hinst, -, hsub, -⟩ := Store.applyLocalBatch_ok hst
  have hpend := hb₁.batch_outbox hst
    (fun e he => List.mem_append_right _ (hb.committed ((hb.nodes d n hn).outbox e he).1))
    fun e he => List.mem_append_left _ he
  have hk₁ : Backed (F.draw (edits.flatMap Vault.Manager.Edit.draws) envs) := ⟨hk.heads, hk.copies⟩
  refine hk₁.setNode fun id e he => ?_
  rcases hinst.head id with heq | ⟨x, hx, -, -, heq⟩
  · exact (hk.heads d n hn id e (heq ▸ he)).imp_right fun h => hsub h
  · obtain rfl : e = x := Option.some.inj (he.symm.trans heq)
    exact Or.inr ((Envelope.strip_eq_self (hnew e hx).2).symm ▸ hpend e hx)

/-- A Sync makes heads of what is in the log, and of a conflict record it enqueues; a
    pending head that it takes out of the outbox is in the log or is replaced. -/
theorem work (hb : Base C V F) {d : ID} {n : Node} (hn : F.nodes d = some n) {p : Phase}
    (hp : PhaseOK F d p) {st : Store} (heff : Effect C n.store p st) {id : ID} {e : Envelope}
    (he : st.head id = some e) : InLog F.relay e ∨ e.strip ∈ st.outbox := by
  -- the head a candidate lost against takes the place of every version of its record
  have hserved : ∀ {head : Envelope}, Served F.relay head →
      st.head head.context.recordID = some head → id = head.context.recordID → InLog F.relay e := by
    rintro head hh hst rfl
    obtain rfl : e = head := Option.some.inj (he.symm.trans hst)
    exact (hb.served hh).2
  rcases heff.head id with heq | ⟨x, hx, hid, heq⟩
  · have hold : n.store.head id = some e := heq ▸ he
    rcases hk.heads d n hn id e hold with hlog | hout
    · exact Or.inl hlog
    by_cases hmem : e.strip ∈ st.outbox
    · exact Or.inr hmem
    left
    have hec := ((hb.nodes d n hn).outbox _ hout).1
    have heid := ((hb.nodes d n hn).heads id e hold).1
    obtain ⟨l, c, seq, rest, rfl, hm⟩ | ⟨l, c, head, rest, rfl, hid, hst⟩ |
      ⟨l, c, k, head, rest, rfl, hm, hst⟩ := heff.dropped hout hmem
    · have hcc := (hp.1 c List.mem_cons_self).1
      exact ⟨_, hp.2, (hb.unique_committed _ hec c hcc hm).symm⟩
    · exact hserved hp.2.1 hst (heid.symm.trans hid)
    · have hcc := (hp.1 c List.mem_cons_self).1
      have hec' := hb.unique_committed _ hec c hcc hm
      refine hserved hp.2.1.1 hst (heid.symm.trans ?_)
      rw [hp.2.1.2, ← hec', Envelope.strip_context]
  · obtain rfl : e = x := Option.some.inj (he.symm.trans heq)
    cases heff with
    | quiet records outbox cursor =>
      have hold : n.store.head id = some e := by rw [Store.head, ← records]; exact he
      exact (hk.heads d n hn id e hold).imp_right fun h => outbox ▸ h
    | accept h =>
      obtain rfl := List.mem_singleton.1 hx
      exact Or.inl ⟨_, hp.2, (hb.strip (hp.1 _ List.mem_cons_self).1).symm⟩
    | supersede h =>
      obtain rfl := List.mem_singleton.1 hx
      exact Or.inl (hb.served hp.2.1).2
    | apply h => exact Or.inl (hb.served (hp e hx)).2
    | @resolve l c k head rest _ h =>
      have hst : st.head head.context.recordID = some head := by
        obtain ⟨_, -, -, rfl⟩ := Store.resolveConflict_ok.1 h
        rw [Store.head_dequeue, Store.head_writeHead, if_pos rfl]
      obtain ⟨hmine, ⟨hh, hrec⟩, hks, -⟩ := hp
      rcases List.mem_cons.1 hx with rfl | hx
      · have hcc := (hmine c List.mem_cons_self).1
        rcases hb.resolve_outbox h (fun x hx => hb.committed ((hb.nodes d n hn).outbox x hx).1) hks
          (hb.committed hcc) with hmem | rfl
        · exact Or.inr ((Envelope.strip_eq_self (hb.wrote e hks).seq).symm ▸ hmem)
        · exact Or.inl (hserved hh hst (hid.symm.trans hrec.symm))
      · obtain rfl := List.mem_singleton.1 hx
        exact Or.inl (hb.served hh).2

/-- What is not pending is in the log, so a query that takes nothing pending takes what is
    in the log. -/
theorem read (hb : Base C V F) {i : ℕ} (hok : AcceptedCopies F (.read i)) : AcceptedRead F i := by
  intro c hc n hn c' h
  have hold := hk.copies c (List.mem_of_getElem? hc)
  obtain ⟨-, rfl⟩ | ⟨unpublished, t, todo, hu, ht, -, rfl⟩ | ⟨_, -, -, -, rfl⟩ := Copy.read_cases h
  · exact hold
  · intro e he
    rcases List.mem_append.1 he with he | he
    · exact hold e he
    obtain ⟨hall, hmut⟩ := List.mem_filter.1 he
    obtain ⟨⟨id, hhead⟩, htype⟩ := Store.mem_allRecords.1 hall
    refine (hk.heads _ n hn id e hhead).resolve_right fun hout => ?_
    have hid := ((hb.nodes _ n hn).heads id e hhead).1
    refine hok c hc n hn e.strip hout ?_ ?_
    · simp only [selects, hu, ht, Envelope.strip_context]
      simpa [htype] using hmut
    · rw [Envelope.strip_context, hid, hhead]; rfl
  · exact hold

theorem install {d : ID} {signing : Bytes} {chain : Membership.Chain} {c : Copy} {st : Store}
    (hc : c ∈ F.copies) (h : Vault.install C chain c.heads (c.cursor.getD 0) = .ok st) :
    Backed (F.setNode d (newNode signing st)) :=
  hk.setNode fun id e he => Or.inl (hk.copies c hc e ((Vault.install_ok h).1 id e he).1)

theorem step (hb : Base C V F) {F' : Fleet} {l : Label} (hok : ∀ i, l = .read i → AcceptedRead F i)
    (h : F.step C V l = some F') (hnodup : F'.ids.Nodup) : Backed F' := by
  have hm := moves_of_step h
  clear h
  have hsame : ∀ {G : Fleet} {d : ID} {n n' : Node}, Backed G → G.nodes d = some n →
      n'.store = n.store → Backed (G.setNode d n') := by
    intro G d n n' hG hn hst
    refine hG.setNode fun id e he => ?_
    rw [hst] at he
    exact (hG.heads d n hn id e he).imp_right fun h => hst ▸ h
  cases hm with
  | edit node sealing batch => exact hk.edit hb node sealing batch hnodup
  | start node idle => exact hsame hk node rfl
  | @work d n draw p p' st node sync h =>
    have hk₁ : Backed (F.draw (p.draws draw) (Fleet.sealedBy p p')) := ⟨hk.heads, hk.copies⟩
    exact hk₁.setNode fun id e he =>
      hk.work hb node ((hb.nodes d n node).phase p sync) (work_effect h) he
  | call node sync h => exact hsame (hk.setRelay (hb.called node sync h).2.1) node rfl
  | serve node sent h =>
    have hc := ((hb.nodes _ _ node).sent _ sent).1
    exact hk.setRelay (hb.relay.submitRecord hc hb.unique_committed (hb.seq hc) h).2.1
  | stop node => exact hsame hk node rfl
  | append h =>
    obtain ⟨_, -, -, rfl⟩ := Relay.Store.appendMembership_ok h
    exact hk.setRelay List.prefix_rfl
  | snapshot node =>
    refine ⟨hk.heads, fun c hc e he => ?_⟩
    rcases List.mem_append.1 hc with hc | hc
    · exact hk.copies c hc e he
    · rw [List.mem_singleton.1 hc] at he; cases he
  | archive node =>
    refine ⟨hk.heads, fun c hc e he => ?_⟩
    rcases List.mem_append.1 hc with hc | hc
    · exact hk.copies c hc e he
    · rw [List.mem_singleton.1 hc] at he; cases he
  | read copy node h =>
    refine ⟨hk.heads, fun c hc e he => ?_⟩
    rcases List.mem_or_eq_of_mem_set hc with hc | rfl
    · exact hk.copies c hc e he
    · exact hok _ rfl _ copy _ node _ h e he
  | join copy accepted complete new auth valid h =>
    exact hk.install (List.mem_of_getElem? copy) h
  | restore copy archived complete new h => exact hk.install (List.mem_of_getElem? copy) h

end Backed

theorem Founding.backed (A : Founding C) : Backed A.fleet := by
  refine ⟨fun d n hn id e he => ?_, fun c hc => absurd hc List.not_mem_nil⟩
  rw [A.node_eq hn] at he
  rw [show (newNode A.signing A.store).store.head id = none from
    (initStore_ok A.store_eq).1 id] at he
  cases he

/-- **Every head is backed** in the runs in which no copy takes a pending head: whatever
    device was set up, joined or was restored, and whatever edits and Syncs followed, a
    stored head is in the relay's log or in the outbox of the device. -/
theorem heads_backed (A : Founding C) {F : Fleet}
    (h : Run.Reach (Fleet.step C A.setup) AcceptedCopies A.fleet F) (hd : F.ids.Nodup) {d : ID}
    {n : Node} (hn : F.nodes d = some n) {id : ID} {e : Envelope} (he : n.store.head id = some e) :
    InLog F.relay e ∨ e.strip ∈ n.store.outbox := by
  have hinv : F.ids.Nodup → Base C A.setup F ∧ Backed F :=
    h.invariant (P := fun F => F.ids.Nodup → Base C A.setup F ∧ Backed F)
      (fun _ => ⟨A.base, A.backed⟩) fun s l s' ih hok hstep hd' => by
        obtain ⟨hb, hk⟩ := ih (hd'.sublist (ids_suffix hstep).sublist)
        exact ⟨hb.step hstep hd', hk.step hb (fun i hl => hk.read hb (hl ▸ hok)) hstep hd'⟩
  exact (hinv hd).2.heads d n hn id e he

namespace Vault01

/-- The device `0b`, which takes over from an archive of `0a`. -/
def replacement : Replacement :=
  { signing := [11], recipient := "B", recovery := [12], now := 0, eventID := Sample.id 0x08,
    entropy := [] }

def archived : List Label :=
  .archive (Sample.id 0x0a) :: List.replicate 6 (.read 0) ++
    [.restore (Sample.id 0x0b) 0 replacement [Sample.root (Sample.id 0x0a) [10] "A"]]

def published : List Label :=
  .edit (Sample.id 0x0a) [create 0x20 0x30] :: untilOutbox true ++
    [.call (Sample.id 0x0a) "t0", .work (Sample.id 0x0a) (draw 0xff)]

/-- The archive is built after the Sync has published the host. -/
def restored : Fleet := (run AcceptedCopies (published ++ archived)).get (by decide)

/-- The archive is built before. -/
def restoredEarly : Fleet :=
  (run (fun _ _ => True) (.edit (Sample.id 0x0a) [create 0x20 0x30] :: archived)).get
    (by decide)

/-- The restored device of the two runs. -/
def heir : Node := (restored.nodes (Sample.id 0x0b)).get (by decide)
def earlyHeir : Node := (restoredEarly.nodes (Sample.id 0x0b)).get (by decide)

end Vault01

open Vault01 in
/-- The restored device holds the published host, and its head is backed. -/
theorem heads_backed_restored : ∃ e, restored.nodes (Sample.id 0x0b) = some heir ∧
    heir.store.head (Sample.id 0x20) = some e ∧ BackedBy restored.relay heir e := by
  have hreach : Run.Reach (Fleet.step sample setup) AcceptedCopies founding.fleet restored :=
    Run.reach_of_replay (Option.some_get _).symm
  have hn : restored.nodes (Sample.id 0x0b) = some heir := (Option.some_get _).symm
  have he := Option.eq_some_of_isSome
    (by decide : (heir.store.head (Sample.id 0x20)).isSome = true)
  exact ⟨_, hn, he, heads_backed founding hreach (by decide) hn he⟩

open Vault01 in
/-- `buildExport` copies a head that is still pending: the restored device holds a head
    that is neither in the relay's log nor in its own outbox. -/
theorem heads_backed_exported : ∃ e,
    Run.Reach (Fleet.step sample setup) (fun _ _ => True) founding.fleet restoredEarly ∧
    restoredEarly.ids.Nodup ∧ restoredEarly.nodes (Sample.id 0x0b) = some earlyHeir ∧
    earlyHeir.store.head (Sample.id 0x20) = some e ∧
    ¬ (InLog restoredEarly.relay e ∨ e.strip ∈ earlyHeir.store.outbox) := by
  have hreach : Run.Reach (Fleet.step sample setup) (fun _ _ => True) founding.fleet
      restoredEarly := Run.reach_of_replay (Option.some_get _).symm
  have hn : restoredEarly.nodes (Sample.id 0x0b) = some earlyHeir := (Option.some_get _).symm
  have he := Option.eq_some_of_isSome
    (by decide : (earlyHeir.store.head (Sample.id 0x20)).isSome = true)
  have hlog : restoredEarly.relay.log = [] := by decide
  have hout : earlyHeir.store.outbox = [] := by decide
  refine ⟨_, hreach, by decide, hn, he, ?_⟩
  rintro (⟨row, hrow, -⟩ | hmem)
  · rw [hlog] at hrow; exact List.not_mem_nil hrow
  · rw [hout] at hmem; exact List.not_mem_nil hmem

end Sshstate.Sync
