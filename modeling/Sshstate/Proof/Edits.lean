/-
  Edits of one record keep the vault sane (`Sane.addKey`, `Sane.addHost`, `Sane.editHost`,
  `Sane.remove`).

  The hosts that the live records hold are a directory (`HostAt`), and an edit puts or removes
  one of its hosts.  What an edit has checked is what keeps the directory tidy.
-/
import Sshstate.Proof.Directory
import Sshstate.Proof.Manager
import Sshstate.Proof.Plan

namespace Sshstate.Vault

open Relation (TransGen Acyclic)

variable {C : Suite} {J : Coding} {G : KeyPayload → Prop} {m : Manager}

/-! ## What a write does to the records of a type -/

section

variable {α : Type} {t : RecordType} {f : Form α} {validate : α → Except Error Unit}
  {env : Envelope} {st st' : Store}

/-- The rows stay, or the row of `id`, if there is one, is of another type. -/
def Foreign (st st' : Store) (t : RecordType) (id : ID) : Prop :=
  (∀ i, st'.head i = st.head i) ∨ ∀ e, st.head id = some e → e.context.recordType ≠ t

/-- A new record takes the place of no other. -/
theorem Put.foreign_of_create (h : Put env st st') (hparent : env.context.parentDigest = none)
    (t : RecordType) : Foreign st st' t env.context.recordID := by
  rcases h.head with hhead | ⟨hnone | hnone, -⟩
  · exact .inl hhead
  · exact .inr fun e he => by simp [hnone] at he
  · exact absurd hparent hnone

/-- A write of a record of another type. -/
theorem Put.holds_foreign (h : Put env st st') (htype : env.context.recordType ≠ t)
    (hforeign : Foreign st st' t env.context.recordID) {id : ID} {p : α} {e : Envelope} :
    Holds C m st' t f validate id p e ↔ Holds C m st t f validate id p e := by
  rcases hforeign with hsame | hforeign
  · exact h.holds_same hsame
  by_cases hid : id = env.context.recordID
  · subst hid
    refine iff_of_false (fun hp => ?_) fun hp => hforeign e hp.head hp.recordType
    rcases h.head with hhead | ⟨-, hhead⟩
    · exact hforeign e (hhead _ ▸ hp.head) hp.recordType
    · have hrow := hp.head
      rw [hhead, if_pos rfl] at hrow
      exact htype (Option.some.inj hrow ▸ hp.recordType)
  · exact h.holds_other hid

theorem Put.allHold_foreign (h : Put env st st') (htype : env.context.recordType ≠ t)
    (hforeign : Foreign st st' t env.context.recordID) (hall : AllHold C m st t f validate) :
    AllHold C m st' t f validate := by
  intro id e he het hlive
  rcases hforeign with hsame | hforeign
  · obtain ⟨p, hp⟩ := hall id e (hsame id ▸ he) het hlive
    exact ⟨p, (h.holds_same hsame).2 hp⟩
  by_cases hid : id = env.context.recordID
  · subst hid
    rcases h.head with hhead | ⟨-, hhead⟩
    · exact absurd het (hforeign e (hhead _ ▸ he))
    · rw [hhead, if_pos rfl] at he
      exact absurd (Option.some.inj he ▸ het) htype
  · have hst : st.head id = some e := by
      rcases h.head with hhead | ⟨-, hhead⟩
      · rwa [hhead] at he
      · rwa [hhead, if_neg hid] at he
    obtain ⟨p, hp⟩ := hall id e hst het hlive
    exact ⟨p, (h.holds_other hid).2 hp⟩

/-- A write of a record of the type: all hold something if it does. -/
theorem Put.allHold (h : Put env st st') (hall : AllHold C m st t f validate)
    (henv : st'.head env.context.recordID = some env → env.context.deleted = false →
      ∃ p, Holds C m st' t f validate env.context.recordID p env) :
    AllHold C m st' t f validate := by
  intro id e he het hlive
  rcases h.head with hhead | ⟨-, hhead⟩
  · obtain ⟨p, hp⟩ := hall id e (hhead id ▸ he) het hlive
    exact ⟨p, (h.holds_same hhead).2 hp⟩
  · by_cases hid : id = env.context.recordID
    · subst hid
      have hrow : st'.head env.context.recordID = some env := by rw [hhead, if_pos rfl]
      cases he.symm.trans hrow
      exact henv hrow hlive
    · obtain ⟨p, hp⟩ := hall id e (by rwa [hhead, if_neg hid] at he) het hlive
      exact ⟨p, (h.holds_other hid).2 hp⟩

end

/-! ## States -/

/-- A row, and what it holds, is not too long to be decoded. -/
def ShortRow (C : Suite) (m : Manager) (env : Envelope) : Prop :=
  env.body.length ≤ maxObjectBytes ∧
    ∀ text, m.keys.plaintext C env = some text → text.length ≤ maxObjectBytes

/-- No row is too long. -/
def Short (C : Suite) (m : Manager) (st : Store) : Prop :=
  ∀ id env, st.head id = some env → ShortRow C m env

/-- The vault can be read, its keys are good ones, and its hosts are in order. -/
structure Sane (C : Suite) (J : Coding) (G : KeyPayload → Prop) (m : Manager) (st : Store) :
    Prop where
  filed : st.Filed
  enrolled : Enrolled C m st
  hosts : AllHold C m st .host J.host HostPayload.validate
  keys : AllHold C m st .key J.key KeyPayload.validate
  good : ∀ k p, KeyAt C J m st k p → G p
  tidy : Tidy (HostAt C J m st) fun k => ∃ p, KeyAt C J m st k p

theorem HostAt.unique {st : Store} {id : ID} {p q : HostPayload} (hp : HostAt C J m st id p)
    (hq : HostAt C J m st id q) : p = q := by
  obtain ⟨e, he⟩ := hp
  obtain ⟨e', he'⟩ := hq
  exact he.unique he'

section

variable {env : Envelope} {st st' : Store} (hC : C.Correct) (hJ : J.Lawful C) (hs : Sane C J G m st)
  (hput : Put env st st') (hshort : Short C m st')
include hC hJ hs hput hshort

/-- A host is written: nothing changes, or it is put into the directory. -/
theorem Sane.putHost {w : Mutation} {p : HostPayload}
    (hseal : SealedBy C m.writerFor w (J.host.canonical p) env) (htype : w.recordType = .host)
    (hlive : w.deleted = false) (hvalid : p.validate = .ok ())
    (hforeign : Foreign st st' .key env.context.recordID)
    (htidy : st.head env.context.recordID = none ∨ env.context.parentDigest ≠ none →
      Tidy.PutAt (HostAt C J m st) (HostAt C J m st') env.context.recordID p →
        Tidy (HostAt C J m st') fun k => ∃ p, KeyAt C J m st k p) : Sane C J G m st' := by
  have hrecordType : env.context.recordType = .host := by rw [hseal.context]; exact htype
  have hkeys : ∀ k q, KeyAt C J m st' k q ↔ KeyAt C J m st k q := fun k q =>
    exists_congr fun e => hput.holds_foreign (by rw [hrecordType]; decide) hforeign
  have henrolled := hs.enrolled.congr hput.same.devices
  have hholds : st'.head env.context.recordID = some env →
      Holds C m st' .host J.host HostPayload.validate env.context.recordID p env := fun hrow =>
    htype ▸ hseal.holds hC henrolled hJ.host hlive hvalid hrow (hshort _ _ hrow).1
      ((hshort _ _ hrow).2 _ (hseal.plaintext hC))
  refine ⟨hput.filed hs.filed, henrolled, hput.allHold hs.hosts fun hrow _ => ⟨p, hholds hrow⟩,
    hput.allHold_foreign (by rw [hrecordType]; decide) hforeign hs.keys,
    fun k q hq => hs.good k q ((hkeys k q).1 hq), ?_⟩
  have hK : ∀ k, (∃ p, KeyAt C J m st k p) → ∃ p, KeyAt C J m st' k p :=
    fun k ⟨q, hq⟩ => ⟨q, (hkeys k q).2 hq⟩
  rcases hput.head with hhead | ⟨hnew, hhead⟩
  · exact hs.tidy.congr (fun i q => exists_congr fun e => hput.holds_same hhead) hK
  · refine (htidy hnew fun i q => ?_).congr (fun _ _ => Iff.rfl) hK
    have hrow : st'.head env.context.recordID = some env := by rw [hhead, if_pos rfl]
    by_cases hi : i = env.context.recordID
    · subst hi
      simp only [true_and, ne_eq, not_true_eq_false, false_and, or_false]
      exact ⟨fun hq => hq.unique ⟨env, hholds hrow⟩, fun hq => hq ▸ ⟨env, hholds hrow⟩⟩
    · simp only [hi, false_and, ne_eq, not_false_eq_true, true_and, false_or]
      exact exists_congr fun e => hput.holds_other hi

omit hJ hshort hC in
/-- A host is removed. -/
theorem Sane.removeHost (htype : env.context.recordType = .host)
    (hdeleted : env.context.deleted = true) (hforeign : Foreign st st' .key env.context.recordID)
    (hunused : ∀ q, HostAt C J m st env.context.recordID q → ∀ j q', HostAt C J m st j q' →
      j ≠ env.context.recordID → q'.proxyJump ≠ some q.hostAlias) : Sane C J G m st' := by
  have hkeys : ∀ k q, KeyAt C J m st' k q ↔ KeyAt C J m st k q := fun k q =>
    exists_congr fun e => hput.holds_foreign (by rw [htype]; decide) hforeign
  have hK : ∀ k, (∃ p, KeyAt C J m st k p) → ∃ p, KeyAt C J m st' k p :=
    fun k ⟨q, hq⟩ => ⟨q, (hkeys k q).2 hq⟩
  refine ⟨hput.filed hs.filed, hs.enrolled.congr hput.same.devices,
    hput.allHold hs.hosts fun _ hlive => by simp [hdeleted] at hlive,
    hput.allHold_foreign (by rw [htype]; decide) hforeign hs.keys,
    fun k q hq => hs.good k q ((hkeys k q).1 hq), ?_⟩
  rcases hput.head with hhead | ⟨-, hhead⟩
  · exact hs.tidy.congr (fun i q => exists_congr fun e => hput.holds_same hhead) hK
  · refine Tidy.congr (?_ : Tidy (HostAt C J m st') fun k => ∃ p, KeyAt C J m st k p)
      (fun _ _ => Iff.rfl) hK
    refine hs.tidy.remove (fun i q => ?_) hunused
    by_cases hi : i = env.context.recordID
    · subst hi
      refine iff_of_false ?_ (by simp)
      rintro ⟨e, he⟩
      have hrow := he.head
      rw [hhead, if_pos rfl] at hrow
      cases hrow
      simp [he.live] at hdeleted
    · simp only [ne_eq, hi, not_false_eq_true, true_and]
      exact exists_congr fun e => hput.holds_other hi

/-- A key is written. -/
theorem Sane.putKey {w : Mutation} {p : KeyPayload}
    (hseal : SealedBy C m.writerFor w (J.key.canonical p) env) (htype : w.recordType = .key)
    (hlive : w.deleted = false) (hvalid : p.validate = .ok ()) (hgood : G p)
    (hforeign : Foreign st st' .host env.context.recordID) : Sane C J G m st' := by
  have hrecordType : env.context.recordType = .key := by rw [hseal.context]; exact htype
  have henrolled := hs.enrolled.congr hput.same.devices
  have hholds : st'.head env.context.recordID = some env →
      Holds C m st' .key J.key KeyPayload.validate env.context.recordID p env := fun hrow =>
    htype ▸ hseal.holds hC henrolled hJ.key hlive hvalid hrow (hshort _ _ hrow).1
      ((hshort _ _ hrow).2 _ (hseal.plaintext hC))
  refine ⟨hput.filed hs.filed, henrolled,
    hput.allHold_foreign (by rw [hrecordType]; decide) hforeign hs.hosts,
    hput.allHold hs.keys fun hrow _ => ⟨p, hholds hrow⟩, ?_, ?_⟩
  · rintro k q ⟨e, he⟩
    rcases hput.head with hhead | ⟨-, hhead⟩
    · exact hs.good k q ⟨e, (hput.holds_same hhead).1 he⟩
    · by_cases hk : k = env.context.recordID
      · subst hk
        rw [he.unique (hholds (by rw [hhead, if_pos rfl]))]
        exact hgood
      · exact hs.good k q ⟨e, (hput.holds_other hk).1 he⟩
  refine hs.tidy.congr (fun i q => exists_congr fun e =>
    hput.holds_foreign (by rw [hrecordType]; decide) hforeign) ?_
  rintro k ⟨q, e, he⟩
  rcases hput.head with hhead | ⟨-, hhead⟩
  · exact ⟨q, e, (hput.holds_same hhead).2 he⟩
  · by_cases hk : k = env.context.recordID
    · subst hk
      exact ⟨p, env, hholds (by rw [hhead, if_pos rfl])⟩
    · exact ⟨q, e, (hput.holds_other hk).2 he⟩

omit hJ hshort hC in
/-- A key is removed. -/
theorem Sane.removeKey (htype : env.context.recordType = .key)
    (hdeleted : env.context.deleted = true) (hforeign : Foreign st st' .host env.context.recordID)
    (hunused : ∀ i q, HostAt C J m st i q → env.context.recordID ∉ q.keyIDs) : Sane C J G m st' := by
  refine ⟨hput.filed hs.filed, hs.enrolled.congr hput.same.devices,
    hput.allHold_foreign (by rw [htype]; decide) hforeign hs.hosts,
    hput.allHold hs.keys fun _ hlive => by simp [hdeleted] at hlive, ?_, ?_⟩
  · rintro k q ⟨e, he⟩
    by_cases hk : k = env.context.recordID
    · subst hk
      rcases hput.head with hhead | ⟨-, hhead⟩
      · exact hs.good _ q ⟨e, (hput.holds_same hhead).1 he⟩
      · have hrow := he.head
        rw [hhead, if_pos rfl] at hrow
        cases hrow
        simp [he.live] at hdeleted
    · exact hs.good k q ⟨e, (hput.holds_other hk).1 he⟩
  have htidy : Tidy (HostAt C J m st) fun k => ∃ p, KeyAt C J m st' k p := by
    refine hs.tidy.removeKey hunused ?_
    rintro k hk ⟨q, e, he⟩
    exact ⟨q, e, (hput.holds_other hk).2 he⟩
  exact htidy.congr
    (fun i q => exists_congr fun e => hput.holds_foreign (by rw [htype]; decide) hforeign) fun _ => id

end

/-! ## The checks of jumps -/

theorem HostAt.valid_id {st : Store} (hfiled : st.Filed) {id : ID} {p : HostPayload}
    (h : HostAt C J m st id p) : ID.valid id = true := by
  obtain ⟨env, he⟩ := h
  have hopened := he.opened
  simp only [Reader.openInto, Reader.openRecord, Except.bind_eq_ok, Except.mapError_eq_ok,
    Envelope.validate_eq_ok] at hopened
  obtain ⟨_, ⟨-, hvalid, -⟩, -⟩ := hopened
  rw [← hfiled id env he.head]
  exact hvalid.context.recordID

theorem checkJump_eq_ok {hosts : List HostView} {self : ID} {hostAlias : List Char}
    {jump : Option (List Char)} {u : Unit} :
    Manager.checkJump hosts self hostAlias jump = .ok u ↔ ∀ a, jump = some a →
      (∃ h ∈ hosts, h.recordID ≠ self ∧ h.hostAlias = a) ∧ jumpReturns hostAlias a self hosts = false := by
  cases jump with
  | none => simp [Manager.checkJump]
  | some jump =>
    simp only [Manager.checkJump, Except.require_bind_eq_ok, Except.require_eq_ok, List.mem_map,
      List.mem_filter, decide_eq_true_eq, Option.some.injEq, forall_eq', and_assoc]

section

variable {H H' : Directory} {K : ID → Prop} {hosts : List HostView}
  (hlist : ∀ v, v ∈ hosts ↔ ∃ p, H v.recordID p ∧ v = p.view v.recordID)
include hlist

theorem mem_hosts {i : ID} {p : HostPayload} (hp : H i p) : p.view i ∈ hosts :=
  (hlist _).2 ⟨p, hp, rfl⟩

/-- If a name is that of one host, the aliases are different. -/
theorem nodup_alias (hid : (hosts.map HostView.recordID).Nodup)
    (hname : ∀ {i p j q}, H i p → H j q → p.hostAlias = q.hostAlias → i = j) :
    (hosts.map HostView.hostAlias).Nodup := by
  refine (List.nodup_map_iff_inj_on hid.of_map).2 fun v hv v' hv' heq => ?_
  obtain ⟨p, hp, hview⟩ := (hlist v).1 hv
  obtain ⟨q, hq, hview'⟩ := (hlist v').1 hv'
  have hsame : p.hostAlias = q.hostAlias := by
    have hp' : v.hostAlias = p.hostAlias := by rw [hview]; rfl
    have hq' : v'.hostAlias = q.hostAlias := by rw [hview']; rfl
    rw [← hp', ← hq', heq]
  exact List.inj_on_of_nodup_map hid hv hv' (hname hp hq hsame)

/-- The aliases of hosts that are in order are different. -/
theorem Tidy.nodup_alias (h : Tidy H K) (hid : (hosts.map HostView.recordID).Nodup) :
    (hosts.map HostView.hostAlias).Nodup :=
  Vault.nodup_alias hlist hid h.hostAlias

/-- The check finds whether the jumps come back to a host that is put. -/
theorem Tidy.not_returns_of_check (h : Tidy H K) (hid : (hosts.map HostView.recordID).Nodup)
    {r self : ID} {p : HostPayload} (hput : Tidy.PutAt H H' r p)
    (hself : ∀ i q, H i q → (i ≠ self ↔ i ≠ r))
    (hfresh : ∀ j q, H j q → j ≠ r → q.hostAlias ≠ p.hostAlias) {jump : List Char}
    (hjump : p.proxyJump = some jump)
    (hcheck : jumpReturns p.hostAlias jump self hosts = false) :
    ¬ TransGen (JumpsIn H') p.hostAlias p.hostAlias := by
  have halias : ((hosts.filter fun h => h.recordID ≠ self).map HostView.hostAlias).Nodup :=
    (h.nodup_alias hlist hid).sublist (List.filter_sublist.map _)
  rw [jumpReturns, ← Bool.not_eq_true, jumpCycle_iff] at hcheck
  refine mt ?_ hcheck
  refine TransGen.mono ?_ _ _
  rintro a b ⟨i, q, hq, rfl, hb⟩
  rw [Jumps, List.lookup_cons]
  rcases (hput i q).1 hq with ⟨rfl, rfl⟩ | ⟨hi, hq⟩
  · simp only [beq_self_eq_true]
    rw [← hjump, hb]
  · rw [beq_false_of_ne (hfresh i q hq hi)]
    have hmem : q.view i ∈ hosts.filter fun h => h.recordID ≠ self :=
      List.mem_filter.2 ⟨mem_hosts hlist hq, decide_eq_true ((hself i q hq).2 hi)⟩
    exact (Daemon.jumps_jumpsOf halias).2 ⟨_, hmem, rfl, hb⟩

end

/-! ## The edits -/

/-- What `createRecord` seals. -/
theorem createRecord_ok {recordID : NewID} {t : RecordType} {payload : Bytes} {d : Manager.Draw}
    {env : Envelope} (h : m.createRecord C recordID t payload d = .ok env) :
    SealedBy C m.writerFor
      { recordID := recordID.id, recordType := t, rev := 1, parentDigest := none,
        mutationID := d.mutationID.id, deleted := false } payload env := by
  obtain ⟨p, hp, hseal⟩ := sealRecord_ok h
  cases hp
  exact hseal

/-- What `reviseRecord` seals. -/
theorem reviseRecord_ok {recordID : ID} {head : Envelope} {headDigest : Bytes}
    {payload : Option Bytes} {d : Manager.Draw} {env : Envelope}
    (h : m.reviseRecord C recordID head headDigest payload d = .ok env) :
    SealedBy C m.writerFor
      { recordID := recordID, recordType := head.context.recordType,
        rev := counterSucc head.context.rev, parentDigest := some headDigest,
        mutationID := d.mutationID.id, deleted := payload.isNone } (payload.getD tombstone) env := by
  obtain ⟨p, hp, hseal⟩ := sealRecord_ok h
  cases payload with
  | none => cases hp; exact hseal
  | some payload => cases hp; exact hseal

section

variable (hC : C.Correct) (hJ : J.Lawful C) {st st' : Store} (hs : Sane C J G m st)
include hC hJ hs

theorem Sane.addKey {k : Manager.Key} {recordID : NewID} {d : Manager.Draw} {id : ID}
    (h : m.addKey C J st k recordID d = .ok (st', id)) (hgood : G k.payload)
    (hshort : Short C m st') :
    Sane C J G m st' := by
  simp only [Manager.addKey, Except.bind_eq_ok, Except.require_eq_ok, Except.pure_eq_ok,
    Except.ok.injEq, Prod.mk.injEq] at h
  obtain ⟨keys, -, -, -, _, hvalid, env, henv, _, happly, rfl, -⟩ := h
  have hput := put_of_applyLocal happly
  have hseal := createRecord_ok henv
  exact hs.putKey hC hJ hput hshort hseal rfl rfl hvalid hgood
    (hput.foreign_of_create (by rw [hseal.context]; rfl) _)

theorem Sane.addHost {spec : Manager.HostSpec} {recordID : NewID} {d : Manager.Draw} {id : ID}
    (h : m.addHost C J st spec recordID d = .ok (st', id)) (hshort : Short C m st') :
    Sane C J G m st' := by
  simp only [Manager.addHost, Except.bind_eq_ok, Except.require_eq_ok, Except.pure_eq_ok,
    Except.ok.injEq, Prod.mk.injEq, checkJump_eq_ok, Manager.checkKeys] at h
  obtain ⟨hosts, hhosts, -, hnames, keys, hkeys, -, hids, _, hvalid, -, hjump, env, henv, _, happly,
    rfl, -⟩ := h
  obtain ⟨hlist, hid, -⟩ := hostsLocked_ok hs.filed hhosts
  have hput := put_of_applyLocal happly
  have hseal := createRecord_ok henv
  have hparent : env.context.parentDigest = none := by rw [hseal.context]; rfl
  refine hs.putHost hC hJ hput hshort hseal rfl rfl hvalid (hput.foreign_of_create hparent _)
    fun hnew hat => ?_
  -- the record is new, so all hosts are others
  have hne : ∀ i q, HostAt C J m st i q → i ≠ env.context.recordID := by
    rintro i q ⟨e, he⟩ rfl
    rcases hnew with hnone | hsome
    · simp [he.head] at hnone
    · exact hsome hparent
  have hfresh : ∀ j q, HostAt C J m st j q → j ≠ env.context.recordID →
      q.hostAlias ≠ spec.payload.hostAlias := fun j q hq _ => hnames _ (mem_hosts hlist hq)
  refine hs.tidy.put hat hfresh (fun a ha => ?_) (fun q hq => absurd rfl (hne _ q hq)) ?_
    fun k hk => (mem_keyIDs hs.filed hkeys).1 (hids k hk)
  · obtain ⟨⟨v, hv, -, rfl⟩, -⟩ := hjump a ha
    obtain ⟨q, hq, hview⟩ := (hlist v).1 hv
    exact ⟨_, q, hq, hne _ q hq, by rw [hview]; rfl⟩
  · cases hproxy : spec.payload.proxyJump with
    | none => exact Tidy.not_returns_of_none hat hfresh hproxy
    | some jump =>
      refine hs.tidy.not_returns_of_check hlist hid hat (fun i q hq => ?_) hfresh hproxy
        (hjump jump hproxy).2
      refine iff_of_true ?_ (hne i q hq)
      rintro rfl
      exact absurd (hq.valid_id hs.filed) (by decide)

theorem Sane.editHost {recordID : ID} {edit : Manager.HostEdit} {d : Manager.Draw}
    (h : m.editHost C J st recordID edit d = .ok st') (hshort : Short C m st') :
    Sane C J G m st' := by
  simp only [Manager.editHost, Except.bind_eq_ok, Except.require_eq_ok, Except.mapError_eq_ok,
    Prod.exists, Store.headRow_eq_ok, checkJump_eq_ok, Manager.checkKeys] at h
  obtain ⟨head, _, ⟨hhead, hbody, rfl⟩, -, htype, -, hlive, old, hold, _, hvalid, hosts, hhosts, -,
    hjumped, -, hrenamed, -, hjump, keys, hkeys, -, hids, env, henv, happly⟩ := h
  obtain ⟨hlist, hid, hall⟩ := hostsLocked_ok hs.filed hhosts
  have hput := put_of_applyLocal happly
  have hseal := reviseRecord_ok henv
  have hrecordID : env.context.recordID = recordID := by rw [hseal.context]; rfl
  have hat : HostAt C J m st recordID old := by
    obtain ⟨p, hp⟩ := hall recordID head hhead htype hlive
    cases hp.opened.symm.trans hold
    exact ⟨head, hp⟩
  have hother : ∀ {j q}, HostAt C J m st j q → j ≠ recordID →
      q.view j ∈ hosts.filter fun h => h.recordID ≠ recordID := fun hq hj =>
    List.mem_filter.2 ⟨mem_hosts hlist hq, decide_eq_true hj⟩
  have hfresh : ∀ j q, HostAt C J m st j q → j ≠ recordID →
      q.hostAlias ≠ (edit.apply old).hostAlias := by
    intro j q hq hj heq
    rcases hrenamed with hsame | hnew
    · exact hj (hs.tidy.hostAlias hq hat (heq.trans hsame))
    · exact hnew (List.mem_map.2 ⟨_, hother hq hj, heq⟩)
  have hforeign : Foreign st st' .key env.context.recordID := by
    refine .inr fun e he => ?_
    rw [hrecordID, hhead] at he
    cases he
    rw [htype]
    decide
  refine hs.putHost hC hJ hput hshort hseal htype rfl hvalid hforeign fun _ hput' => ?_
  rw [hrecordID] at hput'
  -- the jump as it was
  have hkept : edit.proxyJump = none → (edit.apply old).proxyJump = old.proxyJump := fun hnone => by
    simp [Manager.HostEdit.apply, hnone]
  refine hs.tidy.put hput' hfresh (fun a ha => ?_) (fun q hq => ?_) ?_ fun k hk => ?_
  · cases hedit : edit.proxyJump with
    | none => exact (hs.tidy.jump_other hat (hkept hedit ▸ ha)).2
    | some x =>
      obtain ⟨⟨v, hv, hne, rfl⟩, -⟩ := hjump a (by rw [hedit]; exact ha)
      obtain ⟨q, hq, hview⟩ := (hlist v).1 hv
      exact ⟨_, q, hq, hne, by rw [hview]; rfl⟩
  · rw [hq.unique hat]
    exact hjumped.imp Eq.symm fun hnone j q' hq' hj => hnone _ (hother hq' hj)
  · cases hedit : edit.proxyJump with
    | none =>
      by_cases hname : (edit.apply old).hostAlias = old.hostAlias
      · exact hs.tidy.not_returns_of_same hput' hat hname (hkept hedit)
      · refine hs.tidy.not_returns_of_renamed hput' (fun j q hq => ?_) fun hself => ?_
        · by_cases hj : j = recordID
          · subst hj
            rw [hq.unique hat]
            exact Ne.symm hname
          · exact hfresh j q hq hj
        · obtain ⟨-, j, q, hq, hj, heq⟩ := hs.tidy.jump_other hat (hkept hedit ▸ hself)
          exact hfresh j q hq hj heq
    | some x =>
      cases hproxy : (edit.apply old).proxyJump with
      | none => exact Tidy.not_returns_of_none hput' hfresh hproxy
      | some jump =>
        exact hs.tidy.not_returns_of_check hlist hid hput' (fun _ _ _ => Iff.rfl) hfresh hproxy
          (hjump jump (by rw [hedit]; exact hproxy)).2
  · cases hedit : edit.keyIDs with
    | none => exact hs.tidy.keys hat (by simpa [Manager.HostEdit.apply, hedit] using hk)
    | some ids => exact (mem_keyIDs hs.filed hkeys).1 (hids k (by rw [hedit]; exact hk))

omit hC hJ in
theorem Sane.remove {recordID : ID} {want : RecordType} {d : Manager.Draw}
    (h : m.remove C J st recordID want d = .ok st') : Sane C J G m st' := by
  simp only [Manager.remove, Except.bind_eq_ok] at h
  obtain ⟨found, hremoval, h⟩ := h
  cases found with
  | none => cases h; exact hs
  | some env =>
    have hput := put_of_applyLocal h
    rw [Manager.removal] at hremoval
    cases hnoun : Manager.removable want with
    | none => simp [hnoun] at hremoval
    | some noun =>
      simp only [hnoun, Except.bind_eq_ok, Except.mapError_eq_ok, Prod.exists, Store.headRow_eq_ok,
        Except.require_eq_ok] at hremoval
      obtain ⟨head, _, ⟨hhead, hbody, rfl⟩, -, htype, hremoval⟩ := hremoval
      rcases Bool.eq_false_or_eq_true head.context.deleted with hdeleted | hdeleted
      · simp [hdeleted] at hremoval
      simp only [hdeleted, Bool.false_eq_true, if_false, Except.bind_eq_ok, Except.pure_eq_ok,
        Except.ok.injEq, Option.some.injEq] at hremoval
      obtain ⟨hosts, hhosts, _, hunused, sealed, henv, heq⟩ := hremoval
      rw [heq] at henv
      obtain ⟨hlist, -, hall⟩ := hostsLocked_ok hs.filed hhosts
      have hseal := reviseRecord_ok henv
      have hrecordID : env.context.recordID = recordID := by rw [hseal.context]; rfl
      have hrecordType : env.context.recordType = want := by rw [hseal.context]; exact htype
      have htombstone : env.context.deleted = true := by rw [hseal.context]; rfl
      have hforeign : ∀ t, t ≠ want → Foreign st st' t env.context.recordID := fun t ht => by
        refine .inr fun e he => ?_
        rw [hrecordID, hhead] at he
        cases he
        rw [htype]
        exact ht.symm
      cases want with
      | host =>
        simp only [Manager.checkUnused, Except.bind_eq_ok, Except.require_eq_ok] at hunused
        obtain ⟨old, hold, hnone⟩ := hunused
        refine hs.removeHost hput hrecordType htombstone (hforeign _ (by decide)) ?_
        rw [hrecordID]
        intro q hq j q' hq' hj hjump
        obtain ⟨e, he⟩ := hq
        cases hhead.symm.trans he.head
        cases hold.symm.trans he.opened
        have hmem : q'.view j ∈ Manager.jumpers hosts recordID old.hostAlias :=
          List.mem_filter.2 ⟨mem_hosts hlist hq', decide_eq_true ⟨hj, hjump⟩⟩
        simp [hnone] at hmem
      | key =>
        simp only [Manager.checkUnused, Except.require_eq_ok] at hunused
        refine hs.removeKey hput hrecordType htombstone (hforeign _ (by decide)) ?_
        rw [hrecordID]
        intro i q hq hk
        have hmem : q.view i ∈ Manager.users hosts recordID :=
          List.mem_filter.2 ⟨mem_hosts hlist hq, decide_eq_true hk⟩
        simp [hunused] at hmem
      | _ => simp [Manager.removable] at hnoun

end

end Sshstate.Vault
