/-
  No update is lost: an edit of a host, key or known host that was committed to a
  device's outbox is still there, or is in the relay's log, or is kept in a conflict
  record that is in the outbox or in the log (`no_lost_update`).

  The invariant is `Accounted`.  The steps that take an edit out of an outbox are the
  acceptance of the edit and its resolution; those that take a conflict record out
  are its acceptance and its supersession, and by then it is in the log, because the
  log has a version of its record and a record is created once.
-/
import Sshstate.Proof.Ledger

namespace Sshstate.Sync

open Vault (Store conflictIDFor)
open Relay.Store (decodeEnvelope entry)

variable {C : Suite} {V : Setup}

/-- `k` creates a conflict record that holds the plaintext of the candidate `c`, or its
    removal. -/
structure Preserves (C : Suite) (keys : Vault.Keys) (k c : Envelope) : Prop where
  conflict : k.context.recordType.isConflict = true
  creates : k.context.rev = 1
  content : ∃ payload : ConflictPayload,
    keys.plaintext C k = some (C.canonical (.conflictPayload payload)) ∧
    payload.sourceRecordID = c.context.recordID ∧
    payload.sourceMutationID = c.context.mutationID ∧
    payload.removal = c.context.deleted ∧
    (c.context.deleted = false → payload.candidate = keys.plaintext C c ∧ payload.candidate ≠ none)

theorem Keeping.conflict {keys : Vault.Keys} {k c : Envelope} (h : Keeping C keys k c) :
    k.context.recordType.isConflict = true := by
  rw [h.recordType]; exact RecordType.isConflict_conflictType _

theorem Keeping.preserves (hC : C.Correct) {keys : Vault.Keys} {k c : Envelope}
    (h : Keeping C keys k c) : Preserves C keys k c := by
  obtain ⟨w, m, payload, rfl, hs, hcontent⟩ := h.content
  exact ⟨h.conflict, h.rev, payload, hs.plaintext hC, hcontent⟩

/-- Where the candidate `c` of a device is. -/
def Accounted (C : Suite) (V : Setup) (F : Fleet) (n : Node) (c : Envelope) : Prop :=
  c ∈ n.store.outbox ∨ InLog F.relay c ∨
    ∃ k ∈ F.committed, Keeping C V.keys k c ∧ (k ∈ n.store.outbox ∨ InLog F.relay k)

def AllAccounted (C : Suite) (V : Setup) (F : Fleet) : Prop :=
  ∀ d n, F.nodes d = some n → ∀ c ∈ F.committed, c.context.updatedBy = d → Plain c →
    Accounted C V F n c

theorem Accounted.mono {F F' : Fleet} (hg : Grows F F') {n : Node} {c : Envelope}
    (h : Accounted C V F n c) : Accounted C V F' n c := by
  rcases h with h | h | ⟨k, hk, hkeep, h⟩
  · exact Or.inl h
  · exact Or.inr (Or.inl (h.mono hg.log))
  · exact Or.inr (Or.inr ⟨k, hg.committed hk, hkeep, h.imp_right fun h => h.mono hg.log⟩)

/-- A node changed: what was accounted for with the old node is so with the new one. -/
theorem AllAccounted.setNode {F : Fleet} {d : ID} {n' : Node} (ha : AllAccounted C V F)
    (hb : Base C V (F.setNode d n')) (hsign : ∀ n, F.nodes d = some n → n'.signing = n.signing)
    (hstep : ∀ c ∈ F.committed, c.context.updatedBy = d → Plain c →
      Accounted C V (F.setNode d n') n' c) : AllAccounted C V (F.setNode d n') := by
  intro d' m hm c hc hcd hp
  by_cases hd : d' = d
  · subst hd
    obtain rfl : m = n' := by simpa [Fleet.setNode, eq_comm] using hm
    rcases List.mem_append.1 hc with hc | hc
    · exact Or.inl hc
    · exact hstep c hc hcd hp
  · have hm' : F.nodes d' = some m := by simpa [Fleet.setNode, hd] using hm
    rcases List.mem_append.1 hc with hc | hc
    · have hself : (F.setNode d n').nodes d = some n' := by simp [Fleet.setNode]
      exact absurd (hcd.symm.trans ((hb.nodes d n' hself).outbox c hc).2) hd
    · exact (ha d' m hm' c hc hcd hp).mono (grows_setNode hsign)

namespace Tidy

variable {F : Fleet} (ht : Tidy C V F) {d : ID} {n : Node} (hn : F.nodes d = some n)
include ht hn

/-- A conflict record leaves the outbox only when it is in the log. -/
theorem dropped_keeping {p : Phase} (hsync : n.sync = some p) {st : Store}
    (heff : Effect C n.store p st) {k c : Envelope} (hk : k ∈ n.store.outbox)
    (hkeep : Keeping C V.keys k c) (hout : k ∉ st.outbox) : InLog F.relay k := by
  have hphase := (ht.nodes d n hn).phase p hsync
  have hheld := ht.held d n p hn hsync
  have hkc := ((ht.nodes d n hn).outbox k hk).1
  obtain ⟨l, x, seq, rest, rfl, hm⟩ | ⟨l, x, head, rest, rfl, hid, -⟩ |
    ⟨l, x, k', head, rest, rfl, hm, -⟩ := heff.dropped hk hout
  · obtain rfl := ht.unique_committed k hkc x (hphase.1 x List.mem_cons_self).1 hm
    exact ⟨_, hphase.2, (ht.strip hkc).symm⟩
  · obtain ⟨row, hrow, rfl⟩ := hphase.2.1
    exact ht.creation_inLog hkc hkeep.rev hrow
      ((ht.relay.chained.filed row hrow).trans hid.symm)
  · obtain rfl := ht.unique_committed k hkc x (hphase.1 x List.mem_cons_self).1 hm
    have hplain : k.context.recordType.isConflict = false := hheld.2.1
    rw [hkeep.conflict] at hplain
    cases hplain

theorem accountedWork {draw : Draw} {p p' : Phase} {st : Store} (hsync : n.sync = some p)
    (h : Sync.work C (n.engine V d) draw n.store p = some (st, p'))
    {c : Envelope} (hp : Plain c) (ha : Accounted C V F n c) :
    c ∈ st.outbox ∨ InLog F.relay c ∨
      ∃ k, (k ∈ F.committed ∨ k ∈ st.outbox) ∧ Keeping C V.keys k c ∧
        (k ∈ st.outbox ∨ InLog F.relay k) := by
  have heff := work_effect h
  rcases ha with hc | hlog | ⟨k, hk, hkeep, hko | hlog⟩
  · by_cases hout : c ∈ st.outbox
    · exact Or.inl hout
    have hcc := ((ht.nodes d n hn).outbox c hc).1
    rcases ht.dropped_plain hn hsync heff hc hp hout with ⟨l, seq, rest, rfl⟩ |
      ⟨l, k, head, rest, rfl⟩
    · have hphase := (ht.nodes d n hn).phase _ hsync
      exact Or.inr (Or.inl ⟨_, hphase.2, (ht.strip hcc).symm⟩)
    · -- the conflict record takes the place of its candidate
      obtain ⟨-, -, hkeep⟩ := ht.held d n _ hn hsync
      obtain ⟨-, -, hks, -⟩ := (ht.nodes d n hn).phase _ hsync
      rcases commit_eq (Option.some.inj h) with ⟨htx, -⟩ | ⟨rfl, -⟩
      · rcases ht.resolve_outbox htx (fun e he =>
          ht.committed ((ht.nodes d n hn).outbox e he).1) hks (ht.committed hcc) with hmem | rfl
        · exact Or.inr (Or.inr ⟨k, Or.inr hmem, hkeep, Or.inl hmem⟩)
        · rw [Plain, hkeep.conflict] at hp; cases hp
      · exact absurd hc hout
  · exact Or.inr (Or.inl hlog)
  · by_cases hout : k ∈ st.outbox
    · exact Or.inr (Or.inr ⟨k, Or.inl hk, hkeep, Or.inl hout⟩)
    · exact Or.inr (Or.inr ⟨k, Or.inl hk, hkeep, Or.inr (ht.dropped_keeping hn hsync heff hko hkeep hout)⟩)
  · exact Or.inr (Or.inr ⟨k, Or.inl hk, hkeep, Or.inr hlog⟩)

end Tidy

/-- The signing key of a node never changes. -/
theorem signing_eq {F : Fleet} {d : ID} {n n' : Node} (hn : F.nodes d = some n)
    (hs : n'.signing = n.signing) : ∀ m, F.nodes d = some m → n'.signing = m.signing := by
  intro m hm; rw [hn] at hm; cases hm; exact hs

theorem AllAccounted.step {F F' : Fleet} (ha : AllAccounted C V F) (ht : Tidy C V F) {l : Label}
    (h : F.step C V l = some F') (hd : Distinct C V.genesis.vaultID F'.ids) :
    AllAccounted C V F' := by
  have hb := (ht.step h hd).toBase
  have hm := moves_of_step h
  clear h
  have hrelay : ∀ {r : Relay.Store}, F.relay.log <+: r.log →
      AllAccounted C V { F with relay := r } := fun hlog d n hn c hc hcd hp =>
    (ha d n hn c hc hcd hp).mono (grows_relay hlog)
  -- a node that keeps its store
  have hsame : ∀ {G : Fleet} {d : ID} {n n' : Node}, AllAccounted C V G → G.nodes d = some n →
      n'.signing = n.signing → n'.store = n.store → Base C V (G.setNode d n') →
      AllAccounted C V (G.setNode d n') := by
    intro G d n n' haG hnG hs hst hbG
    refine haG.setNode hbG (signing_eq hnG hs) fun c hc hcd hp => ?_
    have hacc := (haG d n hnG c hc hcd hp).mono (grows_setNode (signing_eq hnG hs))
    unfold Accounted at hacc ⊢
    rwa [hst]
  have hfresh : ∀ {d : ID} {n' : Node}, F.nodes d = none → Base C V (F.setNode d n') →
      AllAccounted C V (F.setNode d n') := by
    intro d n' hnew hb'
    refine ha.setNode hb' (fun m hm => by rw [hnew] at hm; cases hm) fun c hc hcd hp => ?_
    obtain ⟨m, -, -, hm, -⟩ := ht.wrote c (ht.committed hc)
    rw [hcd, hnew] at hm; cases hm
  cases hm with
  | @edit d n edits envs st node sealing batch =>
    obtain ⟨-, -, hsub, -, -⟩ := Store.applyLocalBatch_ok batch
    have haG : AllAccounted C V (F.draw (edits.flatMap Vault.Manager.Edit.draws) envs) :=
      fun d n hn c hc hcd hp => (ha d n hn c hc hcd hp).mono (grows_draw ..)
    refine haG.setNode hb (signing_eq node rfl) fun c hc hcd hp => ?_
    rcases haG d n node c hc hcd hp with h | h | ⟨k, hk, hkeep, h⟩
    · exact Or.inl (hsub h)
    · exact Or.inr (Or.inl h)
    · exact Or.inr (Or.inr ⟨k, List.mem_append_right _ hk, hkeep, h.imp_left fun h => hsub h⟩)
  | start node idle => exact hsame ha node rfl rfl hb
  | @work d n draw p p' st node sync h =>
    have haG : AllAccounted C V (F.draw (p.draws draw) (Fleet.sealedBy p p')) :=
      fun d n hn c hc hcd hp => (ha d n hn c hc hcd hp).mono (grows_draw ..)
    refine haG.setNode hb (signing_eq node rfl) fun c hc hcd hp => ?_
    rcases ht.accountedWork node sync h hp (ha d n node c hc hcd hp) with h | h |
      ⟨k, hk, hkeep, h⟩
    · exact Or.inl h
    · exact Or.inr (Or.inl h)
    · refine Or.inr (Or.inr ⟨k, ?_, hkeep, h⟩)
      exact hk.elim (fun hk => List.mem_append_right _ hk) fun hk => List.mem_append_left _ hk
  | call node sync h =>
    exact hsame (hrelay (ht.toBase.called node sync h).2.1) node rfl rfl hb
  | serve node sent h =>
    have hc := ((ht.nodes _ _ node).sent _ sent).1
    exact hrelay (ht.relay.submitRecord hc ht.unique_committed (ht.seq hc) h).2.1
  | stop node => exact hsame ha node rfl rfl hb
  | append h =>
    obtain ⟨_, -, -, rfl⟩ := Relay.Store.appendMembership_ok h
    exact hrelay List.prefix_rfl
  | snapshot node => exact ha
  | archive node => exact ha
  | read copy node h => exact ha
  | join copy accepted complete new auth valid h => exact hfresh new hb
  | restore copy archived complete new h => exact hfresh new hb

/-- No step takes an envelope out of the ledger, or a device out of the fleet. -/
theorem grows_step {F F' : Fleet} (hb : Base C V F) {l : Label} (h : F.step C V l = some F') :
    Grows F F' := by
  have hm := moves_of_step h
  clear h
  cases hm with
  | edit node sealing batch =>
    exact (grows_draw ..).trans (grows_setNode (signing_eq node rfl))
  | start node idle => exact grows_setNode (signing_eq node rfl)
  | work node sync h => exact (grows_draw ..).trans (grows_setNode (signing_eq node rfl))
  | call node sync h =>
    exact (grows_relay (hb.called node sync h).2.1).trans (grows_setNode (signing_eq node rfl))
  | serve node sent h =>
    have hc := ((hb.nodes _ _ node).sent _ sent).1
    exact grows_relay (hb.relay.submitRecord hc hb.unique_committed (hb.seq hc) h).2.1
  | stop node => exact grows_setNode (signing_eq node rfl)
  | append h =>
    obtain ⟨_, -, -, rfl⟩ := Relay.Store.appendMembership_ok h
    exact grows_relay List.prefix_rfl
  | snapshot node => exact ⟨List.prefix_rfl, fun _ n h => ⟨n, h, rfl⟩, fun _ h => h, fun _ h => h⟩
  | archive node => exact ⟨List.prefix_rfl, fun _ n h => ⟨n, h, rfl⟩, fun _ h => h, fun _ h => h⟩
  | read copy node h =>
    exact ⟨List.prefix_rfl, fun _ n h => ⟨n, h, rfl⟩, fun _ h => h, fun _ h => h⟩
  | join copy accepted complete new auth valid h =>
    exact grows_setNode fun m hm => by rw [new] at hm; cases hm
  | restore copy archived complete new h =>
    exact grows_setNode fun m hm => by rw [new] at hm; cases hm

/-- **No lost update.**  Take any run of a fleet, with any interleaving of local edits,
    Syncs, lost answers and interruptions, in which drawn ids and conflict ids do not
    collide.  An edit that is in a device's outbox at some moment of it (and is no
    conflict record) is at every later moment still in that outbox, or in the relay's
    log, or its payload or removal is held by a conflict record whose creation is in that
    outbox or in the log. -/
theorem no_lost_update (hC : C.Correct) (A : Founding C) {F₁ F₂ : Fleet}
    (h₁ : Run.Reach (Fleet.step C A.setup) (fun _ _ => True) A.fleet F₁)
    (h₂ : Run.Reach (Fleet.step C A.setup) (fun _ _ => True) F₁ F₂)
    (hd : Distinct C A.setup.genesis.vaultID F₂.ids) {d : ID} {n₁ : Node}
    (hn : F₁.nodes d = some n₁) {c : Envelope} (hc : c ∈ n₁.store.outbox) (hp : Plain c) :
    ∃ n₂, F₂.nodes d = some n₂ ∧
      (c ∈ n₂.store.outbox ∨ InLog F₂.relay c ∨
        ∃ k, Preserves C A.setup.keys k c ∧ (k ∈ n₂.store.outbox ∨ InLog F₂.relay k)) := by
  have hinv : ∀ {F}, Run.Reach (Fleet.step C A.setup) (fun _ _ => True) A.fleet F →
      Distinct C A.setup.genesis.vaultID F.ids → AllAccounted C A.setup F := fun h hd' =>
    h.induct_tail (P := fun F => Distinct C A.setup.genesis.vaultID F.ids → AllAccounted C A.setup F)
      (fun _ _ _ _ c hc => absurd hc List.not_mem_nil)
      (fun s l s' hs ih _ hstep hd'' => by
        have hd₀ := hd''.of_suffix (ids_suffix hstep)
        exact (ih hd₀).step (tidy_of_reach A hs hd₀) hstep hd'') hd'
  -- from the first moment to the second, nothing leaves the ledger
  have hgrows : Distinct C A.setup.genesis.vaultID F₂.ids →
      Distinct C A.setup.genesis.vaultID F₁.ids ∧ Grows F₁ F₂ :=
    h₂.induct_tail (P := fun F => Distinct C A.setup.genesis.vaultID F.ids →
        Distinct C A.setup.genesis.vaultID F₁.ids ∧ Grows F₁ F)
      (fun hd' => ⟨hd', .refl _⟩)
      (fun s l s' hs ih _ hstep hd'' => by
        have hd₀ := hd''.of_suffix (ids_suffix hstep)
        exact ⟨(ih hd₀).1, (ih hd₀).2.trans
          (grows_step (tidy_of_reach A (h₁.trans hs) hd₀).toBase hstep)⟩)
  obtain ⟨hd₁, hg⟩ := hgrows hd
  have ht₁ := tidy_of_reach A h₁ hd₁
  obtain ⟨hc₁, hcd⟩ := (ht₁.nodes d n₁ hn).outbox c hc
  obtain ⟨n₂, hn₂, -⟩ := hg.nodes d n₁ hn
  refine ⟨n₂, hn₂, ?_⟩
  rcases hinv (h₁.trans h₂) hd d n₂ hn₂ c (hg.committed hc₁) hcd hp with h | h | ⟨k, -, hkeep, h⟩
  · exact Or.inl h
  · exact Or.inr (Or.inl h)
  · exact Or.inr (Or.inr ⟨k, hkeep.preserves hC, h⟩)

namespace Vault01

/-- The host `20` is created and edited on `0a`; while a Sync publishes the two, a third
    edit is made on the first version, which was accepted, and loses against the second. -/
def losingEdit : List Label :=
  [.edit (Sample.id 0x0a) [create 0x20 0x30], .edit (Sample.id 0x0a) [revise 0x20 0x31]] ++
    untilOutbox true ++ [.call (Sample.id 0x0a) "t0", .work (Sample.id 0x0a) (draw 0xff),
    .edit (Sample.id 0x0a) [revise 0x20 0x32], .call (Sample.id 0x0a) "t0",
    .work (Sample.id 0x0a) (draw 0xff), .stop (Sample.id 0x0a)]

/-- The next Sync, up to the end of `push`. -/
def rejectedEdit : List Label :=
  untilOutbox false ++ [.call (Sample.id 0x0a) "t0", .work (Sample.id 0x0a) (draw 0x33),
    .work (Sample.id 0x0a) (draw 0xff)]

def edited : Fleet := (run (fun _ _ => True) losingEdit).get (by decide)

def pushed : Fleet :=
  (Run.replay (Fleet.step sample setup) (fun _ _ => True) edited rejectedEdit).get
    (by decide)

/-- The device `0a` with its pending third edit. -/
def editor : Node := (edited.nodes (Sample.id 0x0a)).get (by decide)

def thirdEdit : Envelope := editor.store.outbox.head (by decide)

end Vault01

open Vault01 in
/-- The edit that lost has left the outbox and was not accepted; it is kept. -/
theorem no_lost_update_rejected : ¬ InLog pushed.relay thirdEdit ∧
    ∃ n₂, pushed.nodes (Sample.id 0x0a) = some n₂ ∧
      (thirdEdit ∈ n₂.store.outbox ∨ InLog pushed.relay thirdEdit ∨
        ∃ k, Preserves sample setup.keys k thirdEdit ∧
          (k ∈ n₂.store.outbox ∨ InLog pushed.relay k)) := by
  have h₁ : Run.Reach (Fleet.step sample setup) (fun _ _ => True) founding.fleet edited :=
    Run.reach_of_replay (Option.some_get _).symm
  have h₂ : Run.Reach (Fleet.step sample setup) (fun _ _ => True) edited pushed :=
    Run.reach_of_replay (Option.some_get _).symm
  have hd : Distinct sample setup.genesis.vaultID pushed.ids := by decide
  have hlog : ∀ row ∈ pushed.relay.log, row.envelope ≠ thirdEdit.strip := by decide
  refine ⟨fun ⟨row, hrow, heq⟩ => hlog row hrow heq, ?_⟩
  have hn : edited.nodes (Sample.id 0x0a) = some editor := (Option.some_get _).symm
  have hc : thirdEdit ∈ editor.store.outbox := List.head_mem _
  have hp : thirdEdit.context.recordType.isConflict = false := by decide
  exact no_lost_update sample_correct founding h₁ h₂ hd hn hc hp

end Sshstate.Sync
