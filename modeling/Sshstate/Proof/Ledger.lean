/-
  The ledger of a fleet: which records the envelopes of a run are about.

  A record that is no conflict record has a drawn id; the id of a conflict record is
  computed from a record and a mutation, and `Distinct` says that such ids meet
  neither each other nor a drawn id.  `Tidy` is what follows for every run: the
  envelopes of a record agree on its type and there is one creation among them
  (`siblings`); a conflict record for a candidate exists only once the candidate has
  left the outbox (`released`); and what a Sync still has to submit is in the outbox
  (`Held`).
-/
import Sshstate.Lib.Run
import Sshstate.Proof.Fleet

namespace Sshstate.Sync

open Vault (Store Manager Copy Written SealedBy conflictIDFor)
open Relay.Store (decodeEnvelope entry Chained)

variable {C : Suite} {V : Setup}

/-! ## Ids -/

/-- No id is drawn twice, and conflict ids do not collide, with one another or with a
    drawn id. -/
structure Distinct (C : Suite) (v : ID) (ids : List ID) : Prop where
  nodup : ids.Nodup
  fresh : ∀ r ∈ ids, ∀ m ∈ ids, conflictIDOf C v r m ∉ ids
  inj : ∀ r ∈ ids, ∀ m ∈ ids, ∀ r' ∈ ids, ∀ m' ∈ ids,
    conflictIDOf C v r m = conflictIDOf C v r' m' → m = m'

instance (v : ID) (ids : List ID) : Decidable (Distinct C v ids) :=
  decidable_of_iff (ids.Nodup ∧ (∀ r ∈ ids, ∀ m ∈ ids, conflictIDOf C v r m ∉ ids) ∧
      ∀ r ∈ ids, ∀ m ∈ ids, ∀ r' ∈ ids, ∀ m' ∈ ids,
        conflictIDOf C v r m = conflictIDOf C v r' m' → m = m')
    ⟨fun ⟨h1, h2, h3⟩ => ⟨h1, h2, h3⟩, fun ⟨h1, h2, h3⟩ => ⟨h1, h2, h3⟩⟩

theorem Distinct.of_suffix {v : ID} {ids ids' : List ID} (h : Distinct C v ids') (hs : ids <:+ ids') :
    Distinct C v ids where
  nodup := h.nodup.sublist hs.sublist
  fresh := fun r hr m hm hid => h.fresh r (hs.subset hr) m (hs.subset hm) (hs.subset hid)
  inj := fun r hr m hm r' hr' m' hm' =>
    h.inj r (hs.subset hr) m (hs.subset hm) r' (hs.subset hr') m' (hs.subset hm')

/-- Not a version of a conflict record. -/
def Plain (e : Envelope) : Prop := e.context.recordType.isConflict = false

/-- The record of an envelope: a drawn id, or the id of a conflict. -/
def KindOK (C : Suite) (v : ID) (ids : List ID) (e : Envelope) : Prop :=
  (Plain e ∧ e.context.recordID ∈ ids) ∨
  (e.context.recordType.isConflict = true ∧
    ∃ r ∈ ids, ∃ m ∈ ids, e.context.recordID = conflictIDOf C v r m)

theorem KindOK.mono {v : ID} {ids ids' : List ID} {e : Envelope} (h : KindOK C v ids e)
    (hs : ids ⊆ ids') : KindOK C v ids' e := by
  rcases h with ⟨hp, hid⟩ | ⟨hc, r, hr, m, hm, hid⟩
  · exact Or.inl ⟨hp, hs hid⟩
  · exact Or.inr ⟨hc, r, hs hr, m, hs hm, hid⟩

theorem KindOK.plain {v : ID} {ids : List ID} {e : Envelope} (h : KindOK C v ids e) (hp : Plain e) :
    e.context.recordID ∈ ids := by
  rcases h with ⟨-, hid⟩ | ⟨hc, -⟩
  · exact hid
  · rw [Plain, hc] at hp; cases hp

/-- The id of a record of the run so far. -/
def Known (C : Suite) (v : ID) (ids : List ID) (id : ID) : Prop :=
  id ∈ ids ∨ ∃ r ∈ ids, ∃ m ∈ ids, id = conflictIDOf C v r m

theorem KindOK.known {v : ID} {ids : List ID} {e : Envelope} (h : KindOK C v ids e) :
    Known C v ids e.context.recordID := h.imp And.right And.right

/-- The id of a record that a batch with the draws `draws` may start. -/
def Novel (C : Suite) (v : ID) (ids draws : List ID) (id : ID) : Prop :=
  id ∈ draws ∨ ∃ r ∈ ids, ∃ m ∈ draws, id = conflictIDOf C v r m

section
variable {v : ID} {ids draws : List ID} (hd : Distinct C v (draws ++ ids))
include hd

theorem Distinct.ne_of_mem {x y : ID} (hx : x ∈ draws) (hy : y ∈ ids) : x ≠ y :=
  fun h => List.disjoint_of_nodup_append hd.nodup hx (h ▸ hy)

/-- A novel record is none of the old ones. -/
theorem Distinct.novel {id id' : ID} (hn : Novel C v ids draws id) (hk : Known C v ids id') :
    id' ≠ id := by
  have hold : ∀ {x}, x ∈ ids → x ∈ draws ++ ids := fun h => List.mem_append_right _ h
  have hnew : ∀ {x}, x ∈ draws → x ∈ draws ++ ids := fun h => List.mem_append_left _ h
  rintro rfl
  rcases hn with hid | ⟨r, hr, m, hm, hid⟩ <;> rcases hk with hid' | ⟨r', hr', m', hm', hid'⟩
  · exact hd.ne_of_mem hid hid' rfl
  · exact hd.fresh r' (hold hr') m' (hold hm') (hid' ▸ hnew hid)
  · exact hd.fresh r (hold hr) m (hnew hm) (hid ▸ hold hid')
  · exact hd.ne_of_mem hm hm'
      (hd.inj r (hold hr) m (hnew hm) r' (hold hr') m' (hold hm') (hid.symm.trans hid'))

end

/-! ## The invariant -/

/-- Two envelopes of one record agree on its type, and there is one creation. -/
def Siblings (e e' : Envelope) : Prop :=
  e.context.recordID = e'.context.recordID → e.context.recordType = e'.context.recordType ∧
    (e.context.rev = 1 → e'.context.rev = 1 → e = e')

theorem Siblings.symm {e e' : Envelope} (h : Siblings e e') : Siblings e' e :=
  fun hid => ⟨(h hid.symm).1.symm, fun h1 h1' => ((h hid.symm).2 h1' h1).symm⟩

/-- `k` creates the conflict record that keeps the candidate `c`. -/
structure Keeping (C : Suite) (keys : Vault.Keys) (k c : Envelope) : Prop where
  recordID : k.context.recordID = conflictIDFor C c
  recordType : k.context.recordType = c.context.recordType.conflictType
  rev : k.context.rev = 1
  content : ∃ w m payload, w.keys = keys ∧
    SealedBy C w m (C.canonical (.conflictPayload payload)) k ∧
    payload.sourceRecordID = c.context.recordID ∧
    payload.sourceMutationID = c.context.mutationID ∧ payload.removal = c.context.deleted ∧
    (c.context.deleted = false → payload.candidate = keys.plaintext C c ∧ payload.candidate ≠ none)

/-- The candidates that a Sync still has to submit: those of no conflict record are pending. -/
def Pending (st : Store) (cs : List Envelope) : Prop :=
  cs.Nodup ∧ ∀ c ∈ cs, Plain c → c ∈ st.outbox

def Held (C : Suite) (V : Setup) (st : Store) : Phase → Prop
  | .push _ c rest => Pending st (c :: rest)
  | .accept _ c _ rest => Pending st (c :: rest)
  | .supersede _ c _ rest => Pending st (c :: rest) ∧ ¬ Plain c
  | .preserve _ c _ rest => Pending st (c :: rest) ∧ Plain c
  | .resolve _ c k _ rest => Pending st (c :: rest) ∧ Plain c ∧ Keeping C V.keys k c
  | _ => True

structure Tidy (C : Suite) (V : Setup) (F : Fleet) : Prop extends Base C V F where
  kinds : ∀ e ∈ F.sealed, KindOK C V.genesis.vaultID F.ids e
  revs : ∀ e ∈ F.sealed, e.context.rev < 2 ^ 64
  siblings : ∀ e ∈ F.committed, ∀ e' ∈ F.committed, Siblings e e'
  released : ∀ d n, F.nodes d = some n → ∀ c ∈ n.store.outbox, Plain c → ∀ k ∈ F.committed,
    k.context.recordID ≠ conflictIDFor C c
  nodup : ∀ d n, F.nodes d = some n → n.store.NodupOutbox
  held : ∀ d n p, F.nodes d = some n → n.sync = some p → Held C V n.store p

theorem Pending.mono {st st' : Store} (hs : st.outbox ⊆ st'.outbox) {cs : List Envelope}
    (h : Pending st cs) : Pending st' cs := ⟨h.1, fun c hc hp => hs (h.2 c hc hp)⟩

theorem Held.mono {st st' : Store} (hs : st.outbox ⊆ st'.outbox) {p : Phase} (h : Held C V st p) :
    Held C V st' p := by
  cases p with
  | push l c rest => exact Pending.mono hs h
  | accept l c seq rest => exact Pending.mono hs h
  | supersede l c head rest => exact ⟨Pending.mono hs h.1, h.2⟩
  | preserve l c head rest => exact ⟨Pending.mono hs h.1, h.2⟩
  | resolve l c k head rest => exact ⟨Pending.mono hs h.1, h.2⟩
  | _ => trivial

theorem wrote_context {F : Fleet} {e : Envelope} (h : Wrote C V F e) :
    e.context.vaultID = V.genesis.vaultID ∧ 1 ≤ e.context.rev := by
  obtain ⟨n, m, p, -, hw⟩ := h
  refine ⟨?_, hw.valid.rev⟩
  rw [hw.context]; rfl

namespace Tidy

variable {F : Fleet} (ht : Tidy C V F)
include ht

theorem vaultID {e : Envelope} (he : e ∈ F.sealed) : e.context.vaultID = V.genesis.vaultID :=
  (wrote_context (ht.wrote e he)).1

theorem conflictIDFor_eq {c : Envelope} (hc : c ∈ F.sealed) :
    conflictIDFor C c = conflictIDOf C V.genesis.vaultID c.context.recordID c.context.mutationID := by
  rw [conflictIDFor, ht.vaultID hc]

/-- Candidates with one conflict id are one candidate. -/
theorem conflictIDFor_inj (hd : Distinct C V.genesis.vaultID F.ids) {c c' : Envelope}
    (hc : c ∈ F.sealed) (hp : Plain c) (hc' : c' ∈ F.sealed) (hp' : Plain c')
    (h : conflictIDFor C c = conflictIDFor C c') : c = c' := by
  rw [ht.conflictIDFor_eq hc, ht.conflictIDFor_eq hc'] at h
  exact ht.unique c hc c' hc' (hd.inj _ ((ht.kinds c hc).plain hp) _ (ht.drawn c hc) _
    ((ht.kinds c' hc').plain hp') _ (ht.drawn c' hc') h)

/-- A record in the log was created there. -/
theorem creation_inLog {k : Envelope} (hk : k ∈ F.committed) (hrev : k.context.rev = 1)
    {row : Relay.LogRow} (hrow : row ∈ F.relay.log) (hid : row.recordID = k.context.recordID) :
    InLog F.relay k := by
  have hch := ht.relay.chained
  have hmem : row ∈ KeyedLog.ofKey Relay.LogRow.recordID k.context.recordID F.relay.log :=
    KeyedLog.mem_ofKey.2 ⟨hrow, hid⟩
  have hpos : 0 < (KeyedLog.ofKey Relay.LogRow.recordID k.context.recordID F.relay.log).length :=
    List.length_pos_of_mem hmem
  have hrev₁ := hch.rev_getElem _ 0 hpos
  have hmem₁ := List.getElem_mem hpos
  generalize (KeyedLog.ofKey Relay.LogRow.recordID k.context.recordID F.relay.log)[0] = row₁
    at hrev₁ hmem₁
  obtain ⟨hlog, hid₁⟩ := KeyedLog.mem_ofKey.1 hmem₁
  have hid' : row₁.envelope.context.recordID = k.context.recordID :=
    (hch.filed row₁ hlog).symm.trans hid₁
  have heq := (ht.siblings _ (ht.relay.logged row₁ hlog) k hk hid').2 hrev₁ hrev
  exact ⟨row₁, hlog, heq.trans (ht.strip hk).symm⟩

end Tidy

/-! ## Local edits -/

/-- What an edit started or continued. -/
inductive Origin (C : Suite) (V : Setup) (F : Fleet) (e : Manager.Edit) (env : Envelope) : Prop
  | create (recordID : env.context.recordID ∈ e.draws) (plain : Plain env)
  | keep {r m : ID} (source : r ∈ F.ids) (drawn : m ∈ e.draws)
      (recordID : env.context.recordID = conflictIDOf C V.genesis.vaultID r m)
      (conflict : env.context.recordType.isConflict = true)
  | revise {h : Envelope} (head : h ∈ F.committed) (recordID : h.context.recordID = env.context.recordID)
      (recordType : h.context.recordType = env.context.recordType) (rev : env.context.rev ≠ 1)

theorem counterSucc_lt (c : ℕ) : counterSucc c < 2 ^ 64 := Nat.mod_lt _ (by decide)

theorem counterSucc_ne_one {c : ℕ} (h : 1 ≤ c) (h' : c < 2 ^ 64) : counterSucc c ≠ 1 := by
  unfold counterSucc; omega

theorem Origin.kind {F : Fleet} {e : Manager.Edit} {env : Envelope} {draws : List ID}
    (h : Origin C V F e env) (he : e.draws ⊆ draws)
    (hkinds : ∀ e ∈ F.committed, KindOK C V.genesis.vaultID F.ids e) :
    KindOK C V.genesis.vaultID (draws ++ F.ids) env := by
  cases h with
  | create recordID plain => exact Or.inl ⟨plain, List.mem_append_left _ (he recordID)⟩
  | keep source drawn recordID conflict =>
    exact Or.inr ⟨conflict, _, List.mem_append_right _ source, _, List.mem_append_left _ (he drawn),
      recordID⟩
  | revise head recordID recordType rev =>
    have hk := (hkinds _ head).mono (List.subset_append_right draws F.ids)
    unfold KindOK Plain at hk ⊢
    rwa [← recordID, ← recordType]

theorem Origin.novel {F : Fleet} {e : Manager.Edit} {env : Envelope} {draws : List ID}
    (h : Origin C V F e env) (he : e.draws ⊆ draws) :
    Novel C V.genesis.vaultID F.ids draws env.context.recordID ∨
      ∃ h ∈ F.committed, h.context.recordID = env.context.recordID ∧
        h.context.recordType = env.context.recordType ∧ env.context.rev ≠ 1 := by
  cases h with
  | create recordID plain => exact Or.inl (Or.inl (he recordID))
  | keep source drawn recordID conflict => exact Or.inl (Or.inr ⟨_, source, _, he drawn, recordID⟩)
  | revise head recordID recordType rev => exact Or.inr ⟨_, head, recordID, recordType, rev⟩

/-- An id is drawn by one edit of a batch. -/
theorem draws_inj {edits : List Manager.Edit} (h : (edits.flatMap Manager.Edit.draws).Nodup)
    {a b : Manager.Edit} (ha : a ∈ edits) (hb : b ∈ edits) {x : ID} (hxa : x ∈ a.draws)
    (hxb : x ∈ b.draws) : a = b := by
  by_contra hne
  have hp := (List.nodup_flatMap.1 h).2
  have : Std.Symm (Function.onFun List.Disjoint Manager.Edit.draws) :=
    ⟨fun _ _ h _ hx hy => h hy hx⟩
  exact List.Pairwise.forall hp ha hb hne hxa hxb

section
variable {F : Fleet} (ht : Tidy C V F) {d : ID} {n : Node} (hn : F.nodes d = some n)
  {edits : List Manager.Edit} {envs : List Envelope}
  (hs : List.Forall₂ (fun e env => (n.manager V d).sealEdit C n.store e = .ok env) edits envs)
include ht hn hs

/-- Where the envelopes of a batch come from. -/
theorem Tidy.origin {env : Envelope} (henv : env ∈ envs) :
    ∃ e ∈ edits, env.context.mutationID = e.mutationID.id ∧ env.context.rev < 2 ^ 64 ∧
      Origin C V F e env := by
  obtain ⟨e, he, m, p, hw, hm, hbuild⟩ := (edits_sealed hs).2 env henv
  have hctx := hw.context
  have hheads := (ht.nodes d n hn).heads
  -- the stored head that an edit is built on
  have hhead : ∀ {id h}, n.store.head id = some h → h.context.recordID = id ∧ h.strip ∈ F.committed ∧
      1 ≤ h.context.rev ∧ h.context.rev < 2 ^ 64 := by
    intro id h hh
    obtain ⟨hid, hc⟩ := hheads id h hh
    exact ⟨hid, hc, (wrote_context (ht.wrote _ (ht.committed hc))).2,
      ht.revs h.strip (ht.committed hc)⟩
  refine ⟨e, he, by rw [hctx]; exact hm, ?_, ?_⟩
  · rw [hctx]
    show m.rev < 2 ^ 64
    cases hbuild with
    | create recordID recordType rev => rw [rev]; decide
    | keep head_eq host drawn recordID recordType version =>
      have hv := congrArg Prod.fst version
      rw [show m.rev = (Manager.nextVersion C n.store m.recordID).1 from hv]
      unfold Manager.nextVersion
      split
      · exact Nat.one_lt_two_pow (by decide)
      · exact counterSucc_lt _
    | revise head_eq recordType rev parent => rw [rev]; exact counterSucc_lt _
  · cases hbuild with
    | create recordID recordType rev =>
      refine .create ?_ ?_
      · rw [hctx]; exact recordID
      · rw [Plain, hctx]; exact recordType
    | @keep source head candidate head_eq host drawn recordID recordType version =>
      obtain ⟨hid, hc, -⟩ := hhead head_eq
      have hplain : Plain head.strip := by rw [Plain, Envelope.strip_context, host]; rfl
      have hsource := (ht.kinds _ (ht.committed hc)).plain hplain
      refine .keep (hid ▸ hsource) drawn ?_ ?_
      · rw [hctx]; exact recordID
      · rw [hctx]; show m.recordType.isConflict = true; rw [recordType]; rfl
    | revise head_eq recordType rev parent =>
      obtain ⟨hid, hc, hpos, hlt⟩ := hhead head_eq
      refine .revise hc ?_ ?_ ?_
      · rw [hctx]; exact hid
      · rw [hctx]; exact recordType.symm
      · rw [hctx]; show m.rev ≠ 1; rw [rev]; exact counterSucc_ne_one hpos hlt

end

namespace Tidy

variable {F : Fleet} (ht : Tidy C V F)
include ht

/-- Ids are drawn and envelopes sealed with them; nothing is committed yet. -/
theorem draw {ids : List ID} {es : List Envelope} (hb : Base C V (F.draw ids es))
    (hk : ∀ e ∈ es, KindOK C V.genesis.vaultID (ids ++ F.ids) e)
    (hrev : ∀ e ∈ es, e.context.rev < 2 ^ 64) : Tidy C V (F.draw ids es) where
  toBase := hb
  kinds := fun e he => (List.mem_append.1 he).elim (hk e) fun he =>
    (ht.kinds e he).mono (List.subset_append_right _ _)
  revs := fun e he => (List.mem_append.1 he).elim (hrev e) (ht.revs e)
  siblings := ht.siblings
  released := ht.released
  nodup := ht.nodup
  held := ht.held

theorem setRelay {r : Relay.Store} (hb : Base C V { F with relay := r }) :
    Tidy C V { F with relay := r } :=
  ⟨hb, ht.kinds, ht.revs, ht.siblings, ht.released, ht.nodup, ht.held⟩

theorem setCopies {copies : List Copy} (hb : Base C V { F with copies := copies }) :
    Tidy C V { F with copies := copies } :=
  ⟨hb, ht.kinds, ht.revs, ht.siblings, ht.released, ht.nodup, ht.held⟩

/-- A node changed: what is new in its outbox starts or continues a record of its own. -/
theorem setNode {d : ID} {n' : Node} (hb : Base C V (F.setNode d n'))
    (hsib : ∀ e ∈ n'.store.outbox, ∀ e' ∈ n'.store.outbox ++ F.committed, Siblings e e')
    (hrel : ∀ c ∈ n'.store.outbox, Plain c → ∀ k ∈ n'.store.outbox ++ F.committed,
      k.context.recordID ≠ conflictIDFor C c)
    (hothers : ∀ k ∈ n'.store.outbox, ∀ d' n, F.nodes d' = some n → d' ≠ d → ∀ c ∈ n.store.outbox,
      Plain c → k.context.recordID ≠ conflictIDFor C c)
    (hnodup : n'.store.NodupOutbox) (hheld : ∀ p, n'.sync = some p → Held C V n'.store p) :
    Tidy C V (F.setNode d n') := by
  have hnodes : ∀ {d' m}, (F.setNode d n').nodes d' = some m →
      (d' = d ∧ m = n') ∨ (d' ≠ d ∧ F.nodes d' = some m) := by
    intro d' m hm
    by_cases hd : d' = d
    · subst hd; exact Or.inl ⟨rfl, by simpa [Fleet.setNode, eq_comm] using hm⟩
    · exact Or.inr ⟨hd, by simpa [Fleet.setNode, hd] using hm⟩
  refine ⟨hb, ht.kinds, ht.revs, fun e he e' he' => ?_, fun d' m hm c hc hp k hk => ?_,
    fun d' m hm => ?_, fun d' m p hm hp => ?_⟩
  · rcases List.mem_append.1 he with he | he
    · exact hsib e he e' he'
    · rcases List.mem_append.1 he' with he' | he'
      · exact (hsib e' he' e (List.mem_append_right _ he)).symm
      · exact ht.siblings e he e' he'
  · rcases hnodes hm with ⟨-, rfl⟩ | ⟨hd, hm⟩
    · exact hrel c hc hp k hk
    · rcases List.mem_append.1 hk with hk | hk
      · exact hothers k hk d' m hm hd c hc hp
      · exact ht.released d' m hm c hc hp k hk
  · rcases hnodes hm with ⟨-, rfl⟩ | ⟨-, hm⟩
    · exact hnodup
    · exact ht.nodup d' m hm
  · rcases hnodes hm with ⟨-, rfl⟩ | ⟨-, hm⟩
    · exact hheld p hp
    · exact ht.held d' m p hm hp

/-- A node changed, and nothing entered its outbox. -/
theorem setNode_shrink {d : ID} {n n' : Node} (hn : F.nodes d = some n)
    (hb : Base C V (F.setNode d n')) (hsub : n'.store.outbox ⊆ n.store.outbox)
    (hnodup : n'.store.NodupOutbox) (hheld : ∀ p, n'.sync = some p → Held C V n'.store p) :
    Tidy C V (F.setNode d n') := by
  have hold : ∀ e ∈ n'.store.outbox, e ∈ F.committed :=
    fun e he => ((ht.nodes d n hn).outbox e (hsub he)).1
  have hall : ∀ e ∈ n'.store.outbox ++ F.committed, e ∈ F.committed :=
    fun e he => (List.mem_append.1 he).elim (hold e) id
  exact ht.setNode hb (fun e he e' he' => ht.siblings e (hold e he) e' (hall e' he'))
    (fun c hc hp k hk => ht.released d n hn c (hsub hc) hp k (hall k hk))
    (fun k hk d' m hm _ c hc hp => ht.released d' m hm c hc hp k (hold k hk)) hnodup hheld

/-- A new device has nothing pending. -/
theorem install {d : ID} {signing : Bytes} {chain : Membership.Chain} {c : Copy} {st : Store}
    (hb : Base C V (F.setNode d (newNode signing st)))
    (h : Vault.install C chain c.heads (c.cursor.getD 0) = .ok st) :
    Tidy C V (F.setNode d (newNode signing st)) := by
  have hnil : (newNode signing st).store.outbox = [] := (Vault.install_ok h).2.2.1
  have hout : ∀ e ∈ (newNode signing st).store.outbox, False := fun e he => by
    rw [hnil] at he; exact List.not_mem_nil he
  refine ht.setNode hb (fun e he => (hout e he).elim) (fun e he => (hout e he).elim)
    (fun e he => (hout e he).elim) ?_ fun p hp => absurd hp.symm (Option.some_ne_none p)
  rw [Store.NodupOutbox, hnil]; exact List.nodup_nil

section Edit
variable {d : ID} {n : Node} (hn : F.nodes d = some n) {edits : List Manager.Edit}
  {envs : List Envelope}
  (hs : List.Forall₂ (fun e env => (n.manager V d).sealEdit C n.store e = .ok env) edits envs)
  (hd : Distinct C V.genesis.vaultID (edits.flatMap Manager.Edit.draws ++ F.ids))
include hn hs hd

omit ht hn hs hd in
theorem draws_subset {e : Manager.Edit} (he : e ∈ edits) :
    e.draws ⊆ edits.flatMap Manager.Edit.draws :=
  fun _ hx => List.mem_flatMap.2 ⟨e, he, hx⟩

/-- Envelopes of one edit are one envelope. -/
theorem edit_unique {env env' : Envelope} (h : env ∈ envs) (h' : env' ∈ envs)
    (hm : env.context.mutationID = env'.context.mutationID) : env = env' :=
  (ht.toBase.drawEdits hn hs hd.nodup).1.unique env (List.mem_append_left _ h) env'
    (List.mem_append_left _ h') hm

/-- A new envelope against an old one. -/
theorem edit_siblings_old {env e' : Envelope} (henv : env ∈ envs) (he' : e' ∈ F.committed) :
    Siblings env e' := by
  obtain ⟨e, he, -, -, ho⟩ := ht.origin hn hs henv
  intro hid
  rcases ho.novel (draws_subset he) with hnov | ⟨h, hh, hid', htype, hrev⟩
  · exact absurd hid.symm (hd.novel hnov (ht.kinds e' (ht.committed he')).known)
  · exact ⟨htype.symm.trans (ht.siblings h hh e' he' (hid'.trans hid)).1, fun h1 => absurd h1 hrev⟩

/-- Two new envelopes of one batch. -/
theorem edit_siblings_new {env env' : Envelope} (henv : env ∈ envs) (henv' : env' ∈ envs) :
    Siblings env env' := by
  obtain ⟨e, he, hm, -, ho⟩ := ht.origin hn hs henv
  obtain ⟨e', he', hm', -, ho'⟩ := ht.origin hn hs henv'
  intro hid
  have hnodup := List.Nodup.of_append_left hd.nodup
  have hsame : e = e' → env.context.recordType = env'.context.recordType ∧
      (env.context.rev = 1 → env'.context.rev = 1 → env = env') := by
    rintro rfl
    have := ht.edit_unique hn hs hd henv henv' (hm.trans hm'.symm)
    exact ⟨by rw [this], fun _ _ => this⟩
  have hkind : ∀ {h}, h ∈ F.committed → Known C V.genesis.vaultID F.ids h.context.recordID :=
    fun hh => (ht.kinds _ (ht.committed hh)).known
  have hin : ∀ {e : Manager.Edit} {x}, e ∈ edits → x ∈ e.draws →
      x ∈ edits.flatMap Manager.Edit.draws ++ F.ids :=
    fun he hx => List.mem_append_left _ (draws_subset he hx)
  cases ho with
  | create rid plain =>
    cases ho' with
    | create rid' plain' => exact hsame (draws_inj hnodup he he' rid (hid ▸ rid'))
    | keep source drawn rid' conflict =>
      exact absurd (rid' ▸ hid ▸ hin he rid)
        (hd.fresh _ (List.mem_append_right _ source) _ (hin he' drawn))
    | revise head rid' recordType rev =>
      exact absurd (rid'.trans hid.symm) (hd.novel (Or.inl (draws_subset he rid)) (hkind head))
  | keep source drawn rid conflict =>
    cases ho' with
    | create rid' plain' =>
      exact absurd (rid ▸ hid.symm ▸ hin he' rid')
        (hd.fresh _ (List.mem_append_right _ source) _ (hin he drawn))
    | keep source' drawn' rid' conflict' =>
      have hmm := hd.inj _ (List.mem_append_right _ source) _ (hin he drawn) _
        (List.mem_append_right _ source') _ (hin he' drawn') (rid.symm.trans (hid.trans rid'))
      exact hsame (draws_inj hnodup he he' drawn (hmm ▸ drawn'))
    | revise head rid' recordType rev =>
      exact absurd (rid'.trans (hid.symm.trans rid))
        (hd.novel (Or.inr ⟨_, source, _, draws_subset he drawn, rfl⟩) (hkind head))
  | revise head rid recordType rev =>
    cases ho' with
    | create rid' plain' =>
      exact absurd (rid.trans hid) (hd.novel (Or.inl (draws_subset he' rid')) (hkind head))
    | keep source' drawn' rid' conflict' =>
      exact absurd (rid.trans (hid.trans rid'))
        (hd.novel (Or.inr ⟨_, source', _, draws_subset he' drawn', rfl⟩) (hkind head))
    | revise head' rid' recordType' rev' =>
      have htypes := (ht.siblings _ head _ head' (rid.trans (hid.trans rid'.symm))).1
      exact ⟨recordType.symm.trans (htypes.trans recordType'), fun h1 => absurd h1 rev⟩

/-- A new envelope is no version of the conflict record of an older candidate. -/
theorem edit_released_old {d' : ID} {m : Node} (hm : F.nodes d' = some m) {c k : Envelope}
    (hc : c ∈ m.store.outbox) (hp : Plain c) (hk : k ∈ envs) :
    k.context.recordID ≠ conflictIDFor C c := by
  obtain ⟨e, he, -, -, ho⟩ := ht.origin hn hs hk
  have hcs := ht.committed ((ht.nodes d' m hm).outbox c hc).1
  rcases ho.novel (draws_subset he) with hnov | ⟨h, hh, hid, -⟩
  · refine (hd.novel hnov (Or.inr ⟨_, (ht.kinds c hcs).plain hp, _, ht.drawn c hcs, ?_⟩)).symm
    exact ht.conflictIDFor_eq hcs
  · exact hid ▸ ht.released d' m hm c hc hp h hh

/-- A new candidate has no conflict record yet. -/
theorem edit_released_new {c : Envelope} (hc : c ∈ envs) (hp : Plain c) {k : Envelope}
    (hk : k ∈ envs ∨ k ∈ F.committed) : k.context.recordID ≠ conflictIDFor C c := by
  obtain ⟨e, he, hm, -, ho⟩ := ht.origin hn hs hc
  have hkinds : ∀ h ∈ F.committed, KindOK C V.genesis.vaultID F.ids h :=
    fun h hh => ht.kinds h (ht.committed hh)
  have hmut : c.context.mutationID ∈ edits.flatMap Manager.Edit.draws :=
    hm ▸ draws_subset he e.mutationID_mem_draws
  have hrec := (ho.kind (draws_subset he) hkinds).plain hp
  have hvault : c.context.vaultID = V.genesis.vaultID :=
    (wrote_context ((ht.toBase.drawEdits hn hs hd.nodup).1.wrote c (List.mem_append_left _ hc))).1
  have hcid : conflictIDFor C c =
      conflictIDOf C V.genesis.vaultID c.context.recordID c.context.mutationID := by
    rw [conflictIDFor, hvault]
  have hmut' := List.mem_append_left F.ids hmut
  -- an old record is not the conflict record of a mutation that was just drawn
  have hold : ∀ h ∈ F.committed, h.context.recordID ≠ conflictIDFor C c := by
    intro h hh hid
    rw [hcid] at hid
    rcases (hkinds h hh).known with hmem | ⟨r, hr, m, hm', heq⟩
    · exact hd.fresh _ hrec _ hmut' (hid ▸ List.mem_append_right _ hmem)
    · have := hd.inj r (List.mem_append_right _ hr) m (List.mem_append_right _ hm') _ hrec _ hmut'
        (heq.symm.trans hid)
      exact hd.ne_of_mem hmut hm' this.symm
  rcases hk with hk | hk
  · obtain ⟨e', he', hm', -, ho'⟩ := ht.origin hn hs hk
    intro hid
    cases ho' with
    | create rid plain =>
      rw [hcid] at hid
      exact hd.fresh _ hrec _ hmut' (hid ▸ List.mem_append_left _ (draws_subset he' rid))
    | keep source drawn rid conflict =>
      have heq := hd.inj _ (List.mem_append_right _ source) _
        (List.mem_append_left _ (draws_subset he' drawn)) _ hrec _ hmut' (rid.symm.trans (hid.trans hcid))
      have hee := draws_inj (List.Nodup.of_append_left hd.nodup) he' he drawn
        (heq ▸ hm ▸ e.mutationID_mem_draws)
      have hkc := ht.edit_unique hn hs hd hk hc (hm'.trans (hee ▸ hm.symm))
      rw [hkc, hp] at conflict
      cases conflict
    | revise head rid recordType rev => exact hold _ head (rid.trans hid)
  · exact hold k hk

theorem edit {st : Store} (hst : n.store.applyLocalBatch C envs = .ok st) :
    Tidy C V ((F.draw (edits.flatMap Manager.Edit.draws) envs).setNode d { n with store := st }) := by
  have hb := ht.toBase.edit hn hs hst hd.nodup
  have hb₁ := (ht.toBase.drawEdits hn hs hd.nodup).1
  obtain ⟨-, -, hsub, hmem, -⟩ := Store.applyLocalBatch_ok hst
  have hkinds : ∀ h ∈ F.committed, KindOK C V.genesis.vaultID F.ids h :=
    fun h hh => ht.kinds h (ht.committed hh)
  have ht₁ : Tidy C V (F.draw (edits.flatMap Manager.Edit.draws) envs) := by
    refine ht.draw hb₁ (fun env henv => ?_) fun env henv => ?_
    · obtain ⟨e, he, -, -, ho⟩ := ht.origin hn hs henv
      exact ho.kind (draws_subset he) hkinds
    · obtain ⟨_, -, -, hrev, -⟩ := ht.origin hn hs henv
      exact hrev
  have hout : ∀ e ∈ st.outbox, e ∈ n.store.outbox ∧ e ∈ F.committed ∨ e ∈ envs := fun e he =>
    (hmem e he).imp_left fun h => ⟨h, ((ht.nodes d n hn).outbox e h).1⟩
  have hall : ∀ e ∈ st.outbox ++ F.committed, e ∈ envs ∨ e ∈ F.committed := by
    intro e he
    rcases List.mem_append.1 he with he | he
    · rcases hout e he with ⟨-, he⟩ | he
      · exact Or.inr he
      · exact Or.inl he
    · exact Or.inr he
  refine ht₁.setNode hb (fun e he e' he' => ?_) (fun c hc hp k hk => ?_)
    (fun k hk d' m hm hne c hc hp => ?_) ((ht.nodup d n hn).applyLocalBatch hst)
    fun p hp => (ht.held d n p hn hp).mono hsub
  · rcases hout e he with ⟨-, he⟩ | he <;> rcases hall e' he' with he' | he'
    · exact (ht.edit_siblings_old hn hs hd he' he).symm
    · exact ht.siblings e he e' he'
    · exact ht.edit_siblings_new hn hs hd he he'
    · exact ht.edit_siblings_old hn hs hd he he'
  · rcases hout c hc with ⟨hc, -⟩ | hc
    · rcases hall k hk with hk | hk
      · exact ht.edit_released_old hn hs hd hn hc hp hk
      · exact ht.released d n hn c hc hp k hk
    · exact ht.edit_released_new hn hs hd hc hp (hall k hk)
  · rcases hout k hk with ⟨-, hk⟩ | hk
    · exact ht.released d' m hm c hc hp k hk
    · exact ht.edit_released_old hn hs hd hm hc hp hk

end Edit

end Tidy

/-! ## Syncs -/

theorem Pending.tail {st st' : Store} {c : Envelope} {rest : List Envelope}
    (h : Pending st (c :: rest))
    (hkeep : ∀ x ∈ st.outbox, Plain x → x ≠ c → x ∈ st'.outbox) : Pending st' rest := by
  obtain ⟨hc, hrest⟩ := List.nodup_cons.1 h.1
  exact ⟨hrest, fun x hx hp =>
    hkeep x (h.2 x (List.mem_cons_of_mem _ hx) hp) hp fun hxc => hc (hxc ▸ hx)⟩

theorem held_nextCandidate {st : Store} (l : Locals) {rest : List Envelope} (h : Pending st rest) :
    Held C V st (nextCandidate l rest) := by
  cases rest
  · trivial
  · exact h

theorem Held.of_idle {st : Store} {p : Phase} (h : p.idle = true) : Held C V st p := by
  cases p <;> trivial

theorem held_nextChange {st : Store} (l : Locals) (page : RecordsResponse)
    (envs todo : List Envelope) : Held C V st (nextChange l page envs todo) := by
  cases todo <;> trivial

theorem held_onResult {st : Store} (l : Locals) {c : Envelope} {rest : List Envelope}
    (h : Pending st (c :: rest)) (res : PutResult) : Held C V st (onResult l c rest res) := by
  cases res with
  | accepted seq digest => exact h
  | rejected head =>
    unfold onResult
    split_ifs with hc
    · exact ⟨h, fun hp => by rw [Plain, hc] at hp; cases hp⟩
    · exact ⟨h, by simpa [Plain] using hc⟩

namespace Tidy

variable {F : Fleet} (ht : Tidy C V F) {d : ID} {n : Node} (hn : F.nodes d = some n)
include ht hn

/-- A candidate of no conflict record leaves the outbox when it was accepted, or when its
    conflict record enters it. -/
theorem dropped_plain {p : Phase} (hsync : n.sync = some p) {st : Store}
    (heff : Effect C n.store p st) {x : Envelope} (hx : x ∈ n.store.outbox) (hp : Plain x)
    (hout : x ∉ st.outbox) :
    (∃ l seq rest, p = .accept l x seq rest) ∨ ∃ l k head rest, p = .resolve l x k head rest := by
  have hphase := (ht.nodes d n hn).phase p hsync
  have hheld := ht.held d n p hn hsync
  have hxc := ((ht.nodes d n hn).outbox x hx).1
  have hsame : ∀ {c rest}, Mine F d (c :: rest) → x.context.mutationID = c.context.mutationID →
      x = c := fun hmine hm =>
    ht.unique_committed x hxc _ (hmine _ List.mem_cons_self).1 hm
  obtain ⟨l, c, seq, rest, rfl, hm⟩ | ⟨l, c, head, rest, rfl, hid, -⟩ |
    ⟨l, c, k, head, rest, rfl, hm, -⟩ := heff.dropped hx hout
  · exact Or.inl ⟨l, seq, rest, by rw [hsame hphase.1 hm]⟩
  · -- the record of a superseded candidate is a conflict record
    have hcc := (hphase.1 c List.mem_cons_self).1
    have htype := (ht.siblings x hxc c hcc (hid.trans hphase.2.2)).1
    exact absurd (by rw [Plain, ← htype]; exact hp) hheld.2
  · exact Or.inr ⟨l, k, head, rest, by rw [hsame hphase.1 hm]⟩

/-- The conflict record of a candidate that is still pending is new. -/
theorem keeping {c head k : Envelope} {now : String} {id : Vault.NewID} {r : Vault.Entropy}
    (hc : c ∈ n.store.outbox) (hp : Plain c)
    (hk : (n.manager V d).preserveCandidate C n.store c head now id r = .ok k) :
    Keeping C V.keys k c := by
  obtain ⟨plaintext, headDigest, hopen, hs⟩ := Manager.preserveCandidate_ok hk
  have hnone : n.store.head (conflictIDFor C c) = none := by
    rcases hh : n.store.head (conflictIDFor C c) with _ | h
    · rfl
    · obtain ⟨hid, hmem⟩ := (ht.nodes d n hn).heads _ h hh
      exact absurd hid (ht.released d n hn c hc hp h.strip hmem)
  obtain ⟨text, htext, hplain⟩ := Vault.openRecord_plaintext hopen
  refine ⟨by rw [hs.context]; rfl, by rw [hs.context]; rfl, ?_, _, _, _, rfl, hs, rfl, rfl, rfl, ?_⟩
  · rw [hs.context]
    show (Manager.nextVersion C n.store (conflictIDFor C c)).1 = 1
    rw [Manager.nextVersion, hnone]
  · intro hdel
    rw [hdel, if_neg Bool.false_ne_true] at hplain
    have hkeys : V.keys.plaintext C c = some text := htext
    rw [hkeys]
    exact ⟨hplain, by rw [show (Manager.preservedPayload c plaintext headDigest now).candidate =
      plaintext from rfl, hplain]; exact Option.some_ne_none _⟩

theorem heldWork {draw : Draw} {p p' : Phase} {st : Store} (hsync : n.sync = some p)
    (h : Sync.work C (n.engine V d) draw n.store p = some (st, p')) : Held C V st p' := by
  have hheld := ht.held d n p hn hsync
  have hkeep := fun x => ht.dropped_plain (x := x) hn hsync (work_effect h)
  cases work_advances h with
  | idle hi => exact .of_idle hi
  | readOutbox =>
    exact held_nextCandidate _ ⟨(ht.nodup d n hn).pending, fun c hc _ => Store.mem_pending.1 hc⟩
  | accept _ =>
    refine held_nextCandidate _ (hheld.tail fun x hx hp hne => ?_)
    by_contra hout
    rcases hkeep x hx hp hout with ⟨_, _, _, heq⟩ | ⟨_, _, _, _, heq⟩ <;> cases heq
    exact hne rfl
  | supersede _ =>
    refine held_nextCandidate _ (hheld.1.tail fun x hx hp hne => ?_)
    by_contra hout
    rcases hkeep x hx hp hout with ⟨_, _, _, heq⟩ | ⟨_, _, _, _, heq⟩ <;> cases heq
  | preserve hk =>
    exact ⟨hheld.1, hheld.2, ht.keeping hn (hheld.1.2 _ List.mem_cons_self hheld.2) hheld.2 hk⟩
  | resolve _ =>
    refine held_nextCandidate _ (hheld.1.tail fun x hx hp hne => ?_)
    by_contra hout
    rcases hkeep x hx hp hout with ⟨_, _, _, heq⟩ | ⟨_, _, _, _, heq⟩ <;> cases heq
    exact hne rfl
  | verify _ => trivial
  | compare _ => exact held_nextChange ..

end Tidy

namespace Tidy

variable {F : Fleet} (ht : Tidy C V F) {d : ID} {n : Node} (hn : F.nodes d = some n)
include ht hn

theorem drawWork {draw : Draw} {p p' : Phase} {st : Store} (hsync : n.sync = some p)
    (h : Sync.work C (n.engine V d) draw n.store p = some (st, p'))
    (hnodup : (p.draws draw ++ F.ids).Nodup) :
    Tidy C V (F.draw (p.draws draw) (Fleet.sealedBy p p')) := by
  have hb := ht.toBase.drawWork hn h hnodup
  obtain hnil | ⟨l, c, head, rest, k, rfl, rfl, hk⟩ := sealedBy_cases h
  · rw [hnil] at hb ⊢
    exact ht.draw hb (fun e he => absurd he List.not_mem_nil) fun e he => absurd he List.not_mem_nil
  · have hheld := ht.held d n _ hn hsync
    have hc := ((ht.nodes d n hn).phase _ hsync).1 c List.mem_cons_self
    have hkeep := ht.keeping hn (hheld.1.2 c List.mem_cons_self hheld.2) hheld.2 hk
    have hcs := ht.committed hc.1
    refine ht.draw hb (fun e he => ?_) fun e he => ?_ <;> obtain rfl := List.mem_singleton.1 he
    · refine Or.inr ⟨by rw [hkeep.recordType]; exact RecordType.isConflict_conflictType _, _,
        List.mem_append_right _ ((ht.kinds c hcs).plain hheld.2), _,
        List.mem_append_right _ (ht.drawn c hcs), ?_⟩
      rw [hkeep.recordID, ht.conflictIDFor_eq hcs]
    · rw [hkeep.rev]; exact Nat.one_lt_two_pow (by decide)

/-- The conflict record of a candidate enters the outbox as the candidate leaves it. -/
theorem resolve {l : Locals} {c k head : Envelope} {rest : List Envelope} {st : Store} {p' : Phase}
    (hd : Distinct C V.genesis.vaultID F.ids) (hsync : n.sync = some (.resolve l c k head rest))
    (h : n.store.resolveConflict C c.context.mutationID k head = .ok st)
    (hb : Base C V (F.setNode d ({ n with store := st }.enter p'))) (hheld' : Held C V st p') :
    Tidy C V (F.setNode d ({ n with store := st }.enter p')) := by
  obtain ⟨hpend, hplain, hkeep⟩ := ht.held d n _ hn hsync
  obtain ⟨hmine, -, hk, hkd⟩ := (ht.nodes d n hn).phase _ hsync
  have heff : Effect C n.store (.resolve l c k head rest) st := .resolve h
  have hcout := hpend.2 c List.mem_cons_self hplain
  have hcc := (hmine c List.mem_cons_self).1
  have hnotc : c ∉ st.outbox := by
    obtain ⟨_, -, -, rfl⟩ := Store.resolveConflict_ok.1 h
    exact fun hmem => (Store.mem_dequeue.1 hmem).2 rfl
  have hconf : ¬ Plain k := by
    rw [Plain, hkeep.recordType, RecordType.isConflict_conflictType]; exact Bool.noConfusion
  have hout : ∀ e ∈ st.outbox, e ∈ n.store.outbox ∧ e ∈ F.committed ∨ e = k := by
    intro e he
    rcases heff.outbox he with he | ⟨_, _, _, _, heq⟩
    · exact Or.inl ⟨he, ((ht.nodes d n hn).outbox e he).1⟩
    · cases heq; exact Or.inr rfl
  -- no version of the conflict record exists yet
  have hnew : ∀ e ∈ F.committed, e.context.recordID ≠ k.context.recordID := fun e he hid =>
    ht.released d n hn c hcout hplain e he (hid.trans hkeep.recordID)
  have hother : ∀ d' m, F.nodes d' = some m → ∀ c' ∈ m.store.outbox, Plain c' → c' ≠ c →
      k.context.recordID ≠ conflictIDFor C c' := by
    intro d' m hm c' hc' hp' hne hid
    have hc's := ht.committed ((ht.nodes d' m hm).outbox c' hc').1
    exact hne (ht.conflictIDFor_inj hd hc's hp' (ht.committed hcc) hplain
      (hid.symm.trans hkeep.recordID))
  refine ht.setNode hb (fun e he e' he' => ?_) (fun c' hc' hp' k' hk' => ?_)
    (fun k' hk' d' m hm hne c' hc' hp' => ?_) (heff.nodupOutbox (ht.nodup d n hn))
    fun q hq => by cases hq; exact hheld'
  · have he' : e' ∈ F.committed ∨ e' = k := by
      rcases List.mem_append.1 he' with he' | he'
      · exact (hout e' he').imp_left And.right
      · exact Or.inl he'
    rcases hout e he with ⟨-, he⟩ | rfl <;> rcases he' with he' | rfl
    · exact ht.siblings e he e' he'
    · exact fun hid => absurd hid (hnew e he)
    · exact fun hid => absurd hid.symm (hnew e' he')
    · exact fun _ => ⟨rfl, fun _ _ => rfl⟩
  · rcases hout c' hc' with ⟨hc'', -⟩ | rfl
    · have hk' : k' ∈ F.committed ∨ k' = k := by
        rcases List.mem_append.1 hk' with hk' | hk'
        · exact (hout k' hk').imp_left And.right
        · exact Or.inl hk'
      rcases hk' with hk' | rfl
      · exact ht.released d n hn c' hc'' hp' k' hk'
      · exact hother d n hn c' hc'' hp' fun heq => hnotc (heq ▸ hc')
    · exact absurd hp' hconf
  · rcases hout k' hk' with ⟨-, hk'⟩ | rfl
    · exact ht.released d' m hm c' hc' hp' k' hk'
    · refine hother d' m hm c' hc' hp' fun heq => hne ?_
      rw [← ((ht.nodes d' m hm).outbox c' hc').2, heq]
      exact (hmine c List.mem_cons_self).2

theorem work {draw : Draw} {p p' : Phase} {st : Store}
    (hd : Distinct C V.genesis.vaultID (p.draws draw ++ F.ids)) (hsync : n.sync = some p)
    (h : Sync.work C (n.engine V d) draw n.store p = some (st, p')) :
    Tidy C V ((F.draw (p.draws draw) (Fleet.sealedBy p p')).setNode d
      ({ n with store := st }.enter p')) := by
  have ht₁ := ht.drawWork hn hsync h hd.nodup
  have hb := ht.toBase.work hn hsync h hd.nodup
  have hheld := ht.heldWork hn hsync h
  have heff := work_effect h
  have hshrink : st.outbox ⊆ n.store.outbox → Tidy C V ((F.draw (p.draws draw)
      (Fleet.sealedBy p p')).setNode d ({ n with store := st }.enter p')) := fun hsub =>
    ht₁.setNode_shrink hn hb hsub (heff.nodupOutbox (ht.nodup d n hn))
      fun q hq => by cases hq; exact hheld
  by_cases hr : ∃ l c k head rest, p = .resolve l c k head rest
  · obtain ⟨l, c, k, head, rest, rfl⟩ := hr
    rcases commit_eq (Option.some.inj h) with ⟨htx, -⟩ | ⟨rfl, -⟩
    · exact ht₁.resolve hn hd hsync htx hb hheld
    · exact hshrink (List.Subset.refl _)
  · exact hshrink fun e he => (heff.outbox he).resolve_right
      fun ⟨l, c, head, rest, heq⟩ => hr ⟨l, c, e, head, rest, heq⟩

end Tidy

/-- **The step lemma**, with ids that do not collide. -/
theorem Tidy.step {F F' : Fleet} (ht : Tidy C V F) {l : Label} (h : F.step C V l = some F')
    (hd : Distinct C V.genesis.vaultID F'.ids) : Tidy C V F' := by
  have hb := ht.toBase.step h hd.nodup
  have hm := moves_of_step h
  clear h
  cases hm with
  | edit node sealing batch => exact ht.edit node sealing hd batch
  | @start d n node idle =>
    exact ht.setNode_shrink node hb (List.Subset.refl _) (ht.nodup d n node)
      fun q hq => by cases hq; trivial
  | work node sync h => exact ht.work node hd sync h
  | @call d n now p p' r node sync h =>
    have hb₁ := ht.toBase.called node sync h
    have ht₁ := ht.setRelay (ht.toBase.setRelay hb₁.1 hb₁.2.1)
    refine ht₁.setNode_shrink node hb (List.Subset.refl _) (ht.nodup d n node) fun q hq => ?_
    cases hq
    have hheld := ht.held d n p node sync
    cases h with
    | refused auth => exact .of_idle (idle_failMembership _)
    | page auth h => exact held_nextChange ..
    | put h => exact held_onResult _ hheld _
    | _ => trivial
  | serve node sent h => exact ht.setRelay hb
  | @stop d n node =>
    exact ht.setNode_shrink node hb (List.Subset.refl _) (ht.nodup d n node)
      fun q hq => absurd hq.symm (Option.some_ne_none q)
  | append h => exact ht.setRelay hb
  | snapshot node => exact ht.setCopies hb
  | archive node => exact ht.setCopies hb
  | read copy node h => exact ht.setCopies hb
  | join copy accepted complete new auth valid h => exact ht.install hb h
  | restore copy archived complete new h => exact ht.install hb h

theorem Founding.tidy (A : Founding C) : Tidy C A.setup A.fleet where
  toBase := A.base
  kinds := nofun
  revs := nofun
  siblings := nofun
  released := fun _ _ _ _ _ _ _ hk => absurd hk List.not_mem_nil
  nodup := fun d n hn => by
    rw [A.node_eq hn, Store.NodupOutbox, show (newNode A.signing A.store).store.outbox = [] from
      (initStore_ok A.store_eq).2.1]
    exact List.nodup_nil
  held := fun d n p hn hp => by
    rw [A.node_eq hn] at hp
    exact absurd hp.symm (Option.some_ne_none p)

/-- **The run lemma**: every fleet reached with ids that do not collide is tidy. -/
theorem tidy_of_reach (A : Founding C) {ok : Fleet → Label → Prop} {F : Fleet}
    (h : Run.Reach (Fleet.step C A.setup) ok A.fleet F)
    (hd : Distinct C A.setup.genesis.vaultID F.ids) : Tidy C A.setup F := by
  refine h.invariant (P := fun F => Distinct C A.setup.genesis.vaultID F.ids → Tidy C A.setup F)
    (fun _ => A.tidy) (fun s l s' ih _ hs hd' => ?_) hd
  exact (ih (hd'.of_suffix (ids_suffix hs))).step hs hd'

end Sshstate.Sync
