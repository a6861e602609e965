/-
  What a manager reads is what it has written (`SealedBy.opens`), and what its lists hold
  (`hostsLocked_ok`, `keysLocked_ok`).

  `Holds` says what a live record holds.  The list of the hosts or keys can be read exactly if
  every live record of the type holds something (`readAll_ok`).  A write installs one record and
  leaves what the others hold (`Put`).
-/
import Sshstate.Proof.Vault
import Sshstate.Vault.Import

namespace Sshstate.Vault

variable {C : Suite} {J : Coding}

/-! ## Rows -/

/-- Every row is filed under the id of its record. -/
def Store.Filed (st : Store) : Prop := ∀ id env, st.head id = some env → env.context.recordID = id

theorem Store.mem_heads {st : Store} {env : Envelope} : env ∈ st.heads ↔ ∃ id, st.head id = some env := by
  rw [heads, List.mem_insertionSort, List.mem_map]
  constructor
  · rintro ⟨⟨id, env⟩, hmem, rfl⟩
    exact ⟨id, AList.mem_lookup_iff.2 hmem⟩
  · rintro ⟨id, hhead⟩
    exact ⟨⟨id, env⟩, AList.mem_lookup_iff.1 hhead, rfl⟩

theorem Store.Filed.nodup_heads {st : Store} (h : st.Filed) :
    (st.heads.map (·.context.recordID)).Nodup := by
  have hkeys : (st.records.entries.map Sigma.snd).map (·.context.recordID) = st.records.keys := by
    rw [List.map_map]
    refine List.map_congr_left fun x hx => ?_
    exact h x.1 x.2 (AList.mem_lookup_iff.2 hx)
  rw [heads, ((List.perm_insertionSort _ _).map _).nodup_iff, hkeys]
  exact st.records.nodupKeys

theorem Store.decodeRow_eq_ok {env env' : Envelope} :
    Store.decodeRow env = .ok env' ↔ env.body.length ≤ maxObjectBytes ∧ env' = env := by
  simp only [decodeRow, Except.require_bind_eq_ok, Except.pure_eq_ok, Except.ok.injEq]
  exact and_congr_right fun _ => eq_comm

theorem Store.headRow_eq_ok {st : Store} {id : ID} {env : Envelope} {digest : Bytes} :
    st.headRow C id = .ok (env, digest) ↔
      st.head id = some env ∧ env.body.length ≤ maxObjectBytes ∧ digest = env.digest C := by
  rw [headRow]
  cases hhead : st.head id with
  | none => simp
  | some env₀ =>
    simp only [Except.bind_eq_ok, decodeRow_eq_ok, Except.pure_eq_ok, Except.ok.injEq,
      Prod.mk.injEq, Option.some.injEq]
    constructor
    · rintro ⟨_, ⟨hle, rfl⟩, rfl, rfl⟩
      exact ⟨rfl, hle, rfl⟩
    · rintro ⟨rfl, hle, rfl⟩
      exact ⟨_, ⟨hle, rfl⟩, rfl, rfl⟩

/-- The live rows of a type can be read if they are not too long. -/
theorem Store.liveRecords_ok {st : Store} (hfiled : st.Filed) {t : RecordType} {rows : List Envelope}
    (h : st.liveRecords t = .ok rows) :
    (∀ env, env ∈ rows ↔ st.head env.context.recordID = some env ∧ env.context.recordType = t ∧
      env.context.deleted = false) ∧
    (∀ env ∈ rows, env.body.length ≤ maxObjectBytes) ∧
    (rows.map (·.context.recordID)).Nodup := by
  rw [liveRecords] at h
  have hrow : ∀ env, env ∈ rows ↔ (st.head env.context.recordID = some env ∧
      env.context.recordType = t ∧ env.context.deleted = false) ∧
        env.body.length ≤ maxObjectBytes := by
    intro env
    rw [Except.mem_mapM h]
    simp only [decodeRow_eq_ok, List.mem_filter, mem_heads, decide_eq_true_eq]
    constructor
    · rintro ⟨_, ⟨⟨id, hhead⟩, hlive⟩, hle, rfl⟩
      have hid := hfiled id _ hhead
      exact ⟨⟨by rwa [hid], hlive⟩, hle⟩
    · rintro ⟨⟨hhead, hlive⟩, hle⟩
      exact ⟨env, ⟨⟨_, hhead⟩, hlive⟩, hle, rfl⟩
  have hall : ∀ env, st.head env.context.recordID = some env ∧ env.context.recordType = t ∧
      env.context.deleted = false → env ∈ rows := by
    rintro env ⟨hhead, hlive⟩
    have hmem : env ∈ st.heads.filter fun e => e.context.recordType = t ∧ e.context.deleted = false := by
      simpa [mem_heads] using ⟨⟨_, hhead⟩, hlive⟩
    obtain ⟨env', henv'⟩ := Except.exists_mapM_ok.1 ⟨rows, h⟩ env hmem
    exact (hrow env).2 ⟨⟨hhead, hlive⟩, (decodeRow_eq_ok.1 henv').1⟩
  refine ⟨fun env => ⟨fun henv => ((hrow env).1 henv).1, hall env⟩,
    fun env henv => ((hrow env).1 henv).2, ?_⟩
  have hmap : rows.map (·.context.recordID) = (st.heads.filter fun e => e.context.recordType = t ∧
      e.context.deleted = false).map (·.context.recordID) :=
    Except.map_mapM (fun a b hab => by rw [(decodeRow_eq_ok.1 hab).2]) h
  rw [hmap]
  exact hfiled.nodup_heads.sublist (List.filter_sublist.map _)

theorem Store.exists_liveRecords {st : Store} {t : RecordType}
    (h : ∀ id env, st.head id = some env → env.context.recordType = t →
      env.context.deleted = false → env.body.length ≤ maxObjectBytes) :
    ∃ rows, st.liveRecords t = .ok rows := by
  rw [liveRecords, Except.exists_mapM_ok]
  intro env henv
  simp only [List.mem_filter, mem_heads, decide_eq_true_eq] at henv
  obtain ⟨⟨id, hhead⟩, htype, hlive⟩ := henv
  exact ⟨env, decodeRow_eq_ok.2 ⟨h id env hhead htype hlive, rfl⟩⟩

/-! ## What a record holds -/

/-- The live record `id` of type `t` holds `p`; `env` is its row. -/
structure Holds {α : Type} (C : Suite) (m : Manager) (st : Store) (t : RecordType) (f : Form α)
    (validate : α → Except Error Unit) (id : ID) (p : α) (env : Envelope) : Prop where
  head : st.head id = some env
  recordType : env.context.recordType = t
  live : env.context.deleted = false
  short : env.body.length ≤ maxObjectBytes
  opened : (m.readerFor C st).openInto C f.read f.zero env = .ok p
  valid : validate p = .ok ()

section

variable {α : Type} {m : Manager} {st : Store} {t : RecordType} {f : Form α}
  {validate : α → Except Error Unit}

theorem Manager.readerFor_congr {st' : Store} (h : st'.devices = st.devices) :
    m.readerFor C st' = m.readerFor C st := by
  have hverifier : Manager.verifier C st' = Manager.verifier C st := by
    funext device
    rw [verifier, verifier, h]
  rw [readerFor, readerFor, hverifier]

/-- Only the row and the devices matter. -/
theorem Holds.congr {st' : Store} (hdevices : st'.devices = st.devices) {id : ID}
    (hhead : st'.head id = st.head id) {p : α} {env : Envelope}
    (h : Holds C m st t f validate id p env) : Holds C m st' t f validate id p env :=
  ⟨hhead.trans h.head, h.recordType, h.live, h.short,
    by rw [Manager.readerFor_congr hdevices]; exact h.opened, h.valid⟩

theorem Holds.unique {id : ID} {p p' : α} {env env' : Envelope}
    (h : Holds C m st t f validate id p env) (h' : Holds C m st t f validate id p' env') :
    p = p' := by
  cases h.head.symm.trans h'.head
  exact Except.ok.inj (h.opened.symm.trans h'.opened)

theorem readRecord_eq_ok {wrap : String} {env : Envelope} {x : ID × α} :
    m.readRecord C st f validate wrap env = .ok x ↔
      (m.readerFor C st).openInto C f.read f.zero env = .ok x.2 ∧ validate x.2 = .ok () ∧
        x.1 = env.context.recordID := by
  obtain ⟨id, p⟩ := x
  simp only [Manager.readRecord, Except.bind_eq_ok, Except.mapError_eq_ok, Except.pure_eq_ok,
    Except.ok.injEq, Prod.mk.injEq]
  constructor
  · rintro ⟨_, hopen, _, hvalid, rfl, rfl⟩
    exact ⟨hopen, hvalid, rfl⟩
  · rintro ⟨hopen, hvalid, rfl⟩
    exact ⟨p, hopen, (), hvalid, rfl, rfl⟩

/-- Every live record of the type holds something. -/
def AllHold (C : Suite) (m : Manager) (st : Store) (t : RecordType) (f : Form α)
    (validate : α → Except Error Unit) : Prop :=
  ∀ id env, st.head id = some env → env.context.recordType = t → env.context.deleted = false →
    ∃ p, Holds C m st t f validate id p env

/-- What the list of the records of a type consists of. -/
theorem readAll_ok (hfiled : st.Filed) {wrap : String} {rows : List Envelope}
    (hrows : st.liveRecords t = .ok rows) {out : List (ID × α)}
    (hout : rows.mapM (m.readRecord C st f validate wrap) = .ok out) :
    (∀ id p, (id, p) ∈ out ↔ ∃ env, Holds C m st t f validate id p env) ∧
      (out.map Prod.fst).Nodup ∧ AllHold C m st t f validate := by
  obtain ⟨hmem, hshort, hnodup⟩ := Store.liveRecords_ok hfiled hrows
  refine ⟨fun id p => ?_, ?_, fun id env hhead htype hlive => ?_⟩
  · rw [Except.mem_mapM hout]
    constructor
    · rintro ⟨env, henv, hread⟩
      obtain ⟨hopen, hvalid, rfl⟩ := readRecord_eq_ok.1 hread
      obtain ⟨hhead, htype, hlive⟩ := (hmem env).1 henv
      exact ⟨env, hhead, htype, hlive, hshort env henv, hopen, hvalid⟩
    · rintro ⟨env, h⟩
      have hid := hfiled id env h.head
      refine ⟨env, (hmem env).2 ⟨by rw [hid]; exact h.head, h.recordType, h.live⟩, ?_⟩
      exact readRecord_eq_ok.2 ⟨h.opened, h.valid, hid.symm⟩
  · rw [Except.map_mapM (fun a b hab => (readRecord_eq_ok.1 hab).2.2) hout]
    exact hnodup
  · have hid := hfiled id env hhead
    have henv := (hmem env).2 ⟨by rwa [hid], htype, hlive⟩
    obtain ⟨⟨id', p⟩, hread⟩ := Except.exists_mapM_ok.1 ⟨out, hout⟩ env henv
    obtain ⟨hopen, hvalid, -⟩ := readRecord_eq_ok.1 hread
    exact ⟨p, hhead, htype, hlive, hshort env henv, hopen, hvalid⟩

theorem exists_readAll (hfiled : st.Filed) (wrap : String) (h : AllHold C m st t f validate) :
    ∃ rows out, st.liveRecords t = .ok rows ∧
      rows.mapM (m.readRecord C st f validate wrap) = .ok out := by
  obtain ⟨rows, hrows⟩ := Store.exists_liveRecords fun id env hhead htype hlive => by
    obtain ⟨p, hp⟩ := h id env hhead htype hlive
    exact hp.short
  refine ⟨rows, ?_⟩
  obtain ⟨hmem, -, -⟩ := Store.liveRecords_ok hfiled hrows
  obtain ⟨out, hout⟩ := (Except.exists_mapM_ok (f := m.readRecord C st f validate wrap)).2
    fun env henv => by
      obtain ⟨hhead, htype, hlive⟩ := (hmem env).1 henv
      obtain ⟨p, hp⟩ := h _ env hhead htype hlive
      exact ⟨(_, p), readRecord_eq_ok.2 ⟨hp.opened, hp.valid, rfl⟩⟩
  exact ⟨out, hrows, hout⟩

end

/-! ## Hosts and keys -/

/-- The live host record `id` holds `p`. -/
def HostAt (C : Suite) (J : Coding) (m : Manager) (st : Store) (id : ID) (p : HostPayload) : Prop :=
  ∃ env, Holds C m st .host J.host HostPayload.validate id p env

/-- The live key record `id` holds `p`. -/
def KeyAt (C : Suite) (J : Coding) (m : Manager) (st : Store) (id : ID) (p : KeyPayload) : Prop :=
  ∃ env, Holds C m st .key J.key KeyPayload.validate id p env

section

variable {m : Manager} {st : Store} (hfiled : st.Filed)
include hfiled

theorem hostsLocked_ok {hosts : List HostView} (h : m.hostsLocked C J st = .ok hosts) :
    (∀ v, v ∈ hosts ↔ ∃ p, HostAt C J m st v.recordID p ∧ v = p.view v.recordID) ∧
      (hosts.map HostView.recordID).Nodup ∧
      AllHold C m st .host J.host HostPayload.validate := by
  simp only [Manager.hostsLocked, Except.bind_eq_ok, Except.pure_eq_ok, Except.ok.injEq] at h
  obtain ⟨rows, hrows, out, hout, rfl⟩ := h
  obtain ⟨hmem, hnodup, hall⟩ := readAll_ok hfiled hrows hout
  refine ⟨fun v => ?_, ?_, hall⟩
  · rw [List.mem_insertionSort, List.mem_map]
    constructor
    · rintro ⟨⟨id, p⟩, hx, rfl⟩
      exact ⟨p, (hmem id p).1 hx, rfl⟩
    · rintro ⟨p, hp, hv⟩
      exact ⟨(v.recordID, p), (hmem _ p).2 hp, hv.symm⟩
  · rw [((List.perm_insertionSort _ _).map _).nodup_iff, List.map_map]
    exact hnodup

theorem keysLocked_ok {keys : List KeyView} (h : m.keysLocked C J st = .ok keys) :
    (∀ v, v ∈ keys ↔ ∃ p, KeyAt C J m st v.recordID p ∧ v = p.view v.recordID) ∧
      AllHold C m st .key J.key KeyPayload.validate := by
  simp only [Manager.keysLocked, Except.bind_eq_ok, Except.pure_eq_ok, Except.ok.injEq] at h
  obtain ⟨rows, hrows, out, hout, rfl⟩ := h
  obtain ⟨hmem, -, hall⟩ := readAll_ok hfiled hrows hout
  refine ⟨fun v => ?_, hall⟩
  rw [List.mem_insertionSort, List.mem_map]
  constructor
  · rintro ⟨⟨id, p⟩, hx, rfl⟩
    exact ⟨p, (hmem id p).1 hx, rfl⟩
  · rintro ⟨p, hp, hv⟩
    exact ⟨(v.recordID, p), (hmem _ p).2 hp, hv.symm⟩

theorem exists_hostsLocked (h : AllHold C m st .host J.host HostPayload.validate) :
    ∃ hosts, m.hostsLocked C J st = .ok hosts := by
  obtain ⟨rows, out, hrows, hout⟩ := exists_readAll hfiled "host record %s: %w" h
  simp only [Manager.hostsLocked, hrows, hout, Except.bind_ok', Except.pure_eq_ok]
  exact ⟨_, rfl⟩

theorem exists_keysLocked (h : AllHold C m st .key J.key KeyPayload.validate) :
    ∃ keys, m.keysLocked C J st = .ok keys := by
  obtain ⟨rows, out, hrows, hout⟩ := exists_readAll hfiled "key record %s: %w" h
  simp only [Manager.keysLocked, hrows, hout, Except.bind_ok', Except.pure_eq_ok]
  exact ⟨_, rfl⟩

/-- The ids of the keys. -/
theorem mem_keyIDs {keys : List KeyView} (h : m.keysLocked C J st = .ok keys) {id : ID} :
    id ∈ keys.map KeyView.recordID ↔ ∃ p, KeyAt C J m st id p := by
  obtain ⟨hmem, -⟩ := keysLocked_ok hfiled h
  rw [List.mem_map]
  constructor
  · rintro ⟨v, hv, rfl⟩
    obtain ⟨p, hp, -⟩ := (hmem v).1 hv
    exact ⟨p, hp⟩
  · rintro ⟨p, hp⟩
    exact ⟨p.view id, (hmem _).2 ⟨p, hp, rfl⟩, rfl⟩

end

/-! ## Writing -/

/-- The device of the manager is enrolled with its key. -/
structure Enrolled (C : Suite) (m : Manager) (st : Store) : Prop where
  device : ∃ d, st.devices.lookup m.deviceID = some d ∧ d.verifyKey = C.verifier m.signing
  keyOK : C.verifyKeyOK (C.verifier m.signing) = true

theorem Enrolled.congr {m : Manager} {st st' : Store} (h : Enrolled C m st)
    (hdevices : st'.devices = st.devices) : Enrolled C m st' :=
  ⟨by rw [hdevices]; exact h.device, h.keyOK⟩

theorem SealedBy.envelope_valid (hC : C.Correct) {w : Writer} {m : Mutation} {p : Bytes}
    {env : Envelope} (h : SealedBy C w m p env) : env.Valid := by
  obtain ⟨r, hsignature⟩ := h.signature
  exact ⟨h.valid, h.nonce, by rw [h.ciphertext]; exact hC.seal_ne_nil _ _ _ _,
    by rw [hsignature]; exact hC.sign_ne_nil _ _ _ _⟩

/-- What a manager has sealed it can open. -/
theorem SealedBy.opens (hC : C.Correct) {m : Manager} {st : Store} (he : Enrolled C m st)
    {w : Mutation} {p : Bytes} {env : Envelope} (h : SealedBy C m.writerFor w p env)
    (htombstone : w.deleted = true → p = tombstone) :
    (m.readerFor C st).openRecord C env = .ok (if w.deleted then none else some p) := by
  obtain ⟨d, hd, hkey⟩ := he.device
  obtain ⟨r, hsignature⟩ := h.signature
  have hcontext := h.context
  have hvalidate : env.validate = .ok () := Envelope.validate_eq_ok.2 (h.envelope_valid hC)
  have hvault : env.context.vaultID = m.vaultID := by rw [hcontext]; rfl
  have hepoch : env.context.keyEpoch = m.keys.epoch := by rw [hcontext]; rfl
  have hdeleted : env.context.deleted = w.deleted := by rw [hcontext]; rfl
  have hverifier : Manager.verifier C st env.context.updatedBy = .ok (C.verifier m.signing) := by
    have hdevice : env.context.updatedBy = m.deviceID := by rw [hcontext]; rfl
    rw [hdevice, Manager.verifier, hd]
    exact (C.verifyKeyFromBytes_eq_ok).2 ⟨hkey ▸ he.keyOK, hkey.symm⟩
  have hverify : C.verifySignature (C.verifier m.signing) recordSignatureDomain
      (env.signingInput C) env.signature = .ok () := by
    rw [Suite.verifySignature_eq_ok, hsignature]
    exact hC.verify_sign ..
  have hplaintext : C.openAEAD (m.keys.keyFor env.context.recordType) env.nonce env.ciphertext
      (env.context.aad C) = some p := h.plaintext hC
  simp only [Reader.openRecord, Manager.readerFor, hvalidate, hvault, hepoch, hverifier, hverify,
    hplaintext, hdeleted, Except.mapError, Except.bind_ok', Except.require, if_true]
  by_cases hd : w.deleted = true
  · simp [hd, htombstone hd]
  · simp [hd]

theorem SealedBy.openInto (hC : C.Correct) {m : Manager} {st : Store} (he : Enrolled C m st)
    {w : Mutation} {p : Bytes} {env : Envelope} (h : SealedBy C m.writerFor w p env)
    (hlive : w.deleted = false) {α : Type} {read : Bytes → Except Error α} {zero a : α}
    (hread : read p = .ok a) : (m.readerFor C st).openInto C read zero env = .ok a := by
  have hopen := h.opens hC he (by simp [hlive])
  rw [if_neg (by simp [hlive])] at hopen
  simp only [Reader.openInto, hopen, Except.bind_ok', Except.mapError_eq_ok, hread]

/-- A write of one record: its row is installed, or it was there. -/
structure Put (env : Envelope) (st st' : Store) : Prop where
  same : Store.SameElse st st'
  head : (∀ id, st'.head id = st.head id) ∨
    ((st.head env.context.recordID = none ∨ env.context.parentDigest ≠ none) ∧
      ∀ id, st'.head id = if id = env.context.recordID then some env else st.head id)

theorem put_of_applyLocal {st st' : Store} {env : Envelope}
    (h : st.applyLocalBatch C [env] = .ok st') : Put env st st' := by
  simp only [Store.applyLocalBatch, List.foldlM_cons, List.foldlM_nil, Except.bind_eq_ok,
    Except.pure_eq_ok, Except.ok.injEq] at h
  obtain ⟨_, h, rfl⟩ := h
  have hsame := Store.sameElse_enqueueOutbox st env
  obtain ⟨-, ⟨_, -, -, -, rfl⟩ | ⟨hnone, -, rfl⟩ | ⟨stored, -, -, -, hparent, rfl⟩⟩ :=
    Store.putRecord_ok.1 h
  · exact ⟨hsame, .inl fun id => Store.head_enqueueOutbox ..⟩
  · rw [Store.head_enqueueOutbox] at hnone
    refine ⟨hsame.trans (Store.sameElse_writeHead ..), .inr ⟨.inl hnone, fun id => ?_⟩⟩
    rw [Store.head_writeHead, Store.head_enqueueOutbox]
  · refine ⟨hsame.trans (Store.sameElse_writeHead ..), .inr ⟨.inr (by simp [hparent]), fun id => ?_⟩⟩
    rw [Store.head_writeHead, Store.head_enqueueOutbox]

namespace Put

variable {env : Envelope} {st st' : Store} (h : Put env st st')
include h

theorem filed (hfiled : st.Filed) : st'.Filed := by
  intro id e he
  rcases h.head with hhead | ⟨-, hhead⟩
  · exact hfiled id e (hhead id ▸ he)
  · rw [hhead] at he
    split_ifs at he with hid
    · rw [← Option.some.inj he, hid]
    · exact hfiled id e he

variable {α : Type} {m : Manager} {t : RecordType} {f : Form α} {validate : α → Except Error Unit}

/-- What the other records hold stays. -/
theorem holds_other {id : ID} (hid : id ≠ env.context.recordID) {p : α} {e : Envelope} :
    Holds C m st' t f validate id p e ↔ Holds C m st t f validate id p e := by
  have hhead : st'.head id = st.head id := by
    rcases h.head with hhead | ⟨-, hhead⟩
    · exact hhead id
    · rw [hhead, if_neg hid]
  exact ⟨fun hp => hp.congr h.same.devices.symm hhead.symm, fun hp => hp.congr h.same.devices hhead⟩

/-- If nothing changes, neither does what a record holds. -/
theorem holds_same (hsame : ∀ id, st'.head id = st.head id) {id : ID} {p : α} {e : Envelope} :
    Holds C m st' t f validate id p e ↔ Holds C m st t f validate id p e :=
  ⟨fun hp => hp.congr h.same.devices.symm (hsame id).symm, fun hp => hp.congr h.same.devices (hsame id)⟩

end Put

/-- A record that was sealed with a valid payload and is not too long holds it. -/
theorem SealedBy.holds (hC : C.Correct) {m : Manager} {st : Store} (he : Enrolled C m st)
    {w : Mutation} {α : Type} {f : Form α} (hf : f.Lawful id) {p : α} {env : Envelope}
    (h : SealedBy C m.writerFor w (f.canonical p) env) (hlive : w.deleted = false)
    {validate : α → Except Error Unit} (hvalid : validate p = .ok ())
    (hhead : st.head env.context.recordID = some env)
    (hbody : env.body.length ≤ maxObjectBytes)
    (hlength : (f.canonical p).length ≤ maxObjectBytes) :
    Holds C m st w.recordType f validate env.context.recordID p env where
  head := hhead
  recordType := by rw [h.context]; rfl
  live := by rw [h.context]; exact hlive
  short := hbody
  opened := h.openInto hC he hlive (hf.read p hlength)
  valid := hvalid

end Sshstate.Vault
