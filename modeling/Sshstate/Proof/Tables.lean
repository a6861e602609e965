/-
  What the calls of the store write, table by table.

  `Stores` says it once for all calls: a row of `records` is kept or is the row of one
  of the envelopes of the call, an outbox row likewise, `record_history` only grows and
  the versions that are written are remembered.  From it come the agreement of the
  columns with the stored envelopes over all sequences of calls (`consistent_afterCalls`),
  and what can be read back.
-/
import Sshstate.Proof.Vault
import Sshstate.Vault.Tables

namespace Sshstate.Vault

variable {C : Suite} {D : Decoder}

namespace Tables

/-! ## Statements -/

theorem recordHistory_rememberTx (T : Tables) (id : ID) (digests : List Bytes) :
    T.recordHistory ⊆ (T.rememberTx id digests).recordHistory ∧
    ∀ d ∈ digests, d ≠ [] → (id, d) ∈ (T.rememberTx id digests).recordHistory := by
  unfold rememberTx
  simp only
  generalize T.recordHistory = acc
  induction digests generalizing acc with
  | nil => exact ⟨fun _ h => h, fun d hd => absurd hd List.not_mem_nil⟩
  | cons d digests ih =>
    rw [List.foldl_cons]
    obtain ⟨hsub, hmem⟩ := ih (if d = [] then acc else acc.insert (id, d))
    have hacc : acc ⊆ if d = [] then acc else acc.insert (id, d) := by
      split_ifs
      · exact fun _ h => h
      · exact fun _ h => List.mem_insert_of_mem h
    refine ⟨fun x hx => hsub (hacc hx), fun x hx hne => ?_⟩
    rcases List.mem_cons.1 hx with rfl | hx
    · exact hsub (by rw [if_neg hne]; exact List.mem_insert_self)
    · exact hmem x hx hne

@[simp] theorem records_rememberTx (T : Tables) (id : ID) (digests : List Bytes) :
    (T.rememberTx id digests).records = T.records := rfl

theorem lookup_writeRow (T : Tables) (env : Envelope) (d : Bytes) (id : ID) :
    (T.writeRow env d).records.lookup id =
      if id = env.context.recordID then some (.of env d) else T.records.lookup id := by
  unfold writeRow
  rw [records_rememberTx]
  by_cases h : id = env.context.recordID
  · subst h; simp
  · simp [h, AList.lookup_insert_ne h]

@[simp] theorem outbox_writeRow (T : Tables) (env : Envelope) (d : Bytes) :
    (T.writeRow env d).outbox = T.outbox := rfl

theorem replaceHeadTx_ok {T T' : Tables} {env : Envelope} :
    T.replaceHeadTx C env = .ok T' ↔ env.Valid ∧ T' = T.writeRow env (env.digest C) := by
  simp only [replaceHeadTx, Except.bind_eq_ok, Except.mapError_eq_ok, Envelope.validate_eq_ok,
    Envelope.digestE_eq_ok, Except.pure_eq_ok, Except.ok.injEq]
  constructor
  · rintro ⟨-, hv, _, ⟨-, rfl⟩, rfl⟩; exact ⟨hv, rfl⟩
  · rintro ⟨hv, rfl⟩; exact ⟨(), hv, _, ⟨hv.signature, rfl⟩, rfl⟩

/-- The digests of a version that is written. -/
structure Remembered (C : Suite) (T : Tables) (e : Envelope) : Prop where
  digest : (e.context.recordID, e.digest C) ∈ T.recordHistory
  parent : ∀ p, e.context.parentDigest = some p → (e.context.recordID, p) ∈ T.recordHistory

theorem Remembered.mono {T T' : Tables} {e : Envelope} (h : Remembered C T e)
    (hsub : T.recordHistory ⊆ T'.recordHistory) : Remembered C T' e :=
  ⟨hsub h.digest, fun p hp => hsub (h.parent p hp)⟩

theorem remembered_writeRow {env : Envelope} (hv : env.Valid) (T : Tables) :
    Remembered C (T.writeRow env (env.digest C)) env := by
  have h := (recordHistory_rememberTx
    { T with records := T.records.insert env.context.recordID (.of env (env.digest C)) }
    env.context.recordID [env.digest C, env.context.parentDigest.getD []]).2
  refine ⟨h _ (by simp) (env.digest_ne_nil C), fun p hp => ?_⟩
  exact h p (by simp [hp]) (hv.context.parent_ne_nil hp)

/-- What a call that is given the envelopes `envs` does to records, history and outbox. -/
structure Stores (C : Suite) (envs : List Envelope) (T T' : Tables) : Prop where
  records : ∀ id, T'.records.lookup id = T.records.lookup id ∨
    ∃ e ∈ envs, e.Valid ∧ e.context.recordID = id ∧
      T'.records.lookup id = some (.of e (e.digest C)) ∧ Remembered C T' e
  /-- The version of a new outbox row is remembered, or it is the stored one. -/
  outbox : ∀ row ∈ T'.outbox, row ∈ T.outbox ∨
    ∃ e ∈ envs, e.Valid ∧ row = .of e ∧
      ((e.context.recordID, e.digest C) ∈ T'.recordHistory ∨
        ∃ stored, T.records.lookup e.context.recordID = some stored ∧ stored.digest = e.digest C)
  history : T.recordHistory ⊆ T'.recordHistory

namespace Stores

variable {envs envs' : List Envelope} {env : Envelope} {T T' T'' : Tables}

/-- Other tables may change, and outbox rows may go. -/
theorem of_eq (hr : T'.records = T.records) (ho : T'.outbox ⊆ T.outbox)
    (hh : T'.recordHistory = T.recordHistory) : Stores C envs T T' :=
  ⟨fun id => Or.inl (by rw [hr]), fun row h => Or.inl (ho h), fun x hx => hh ▸ hx⟩

theorem refl (T : Tables) : Stores C envs T T := of_eq rfl (fun _ h => h) rfl

theorem trans (h : Stores C envs T T') (h' : Stores C envs T' T'') : Stores C envs T T'' := by
  refine ⟨fun id => ?_, fun row hrow => ?_, fun x hx => h'.history (h.history hx)⟩
  · rcases h'.records id with heq | hnew
    · rw [heq]
      refine (h.records id).imp_right ?_
      rintro ⟨e, he, hv, hid, hrow, hrem⟩
      exact ⟨e, he, hv, hid, hrow, hrem.mono h'.history⟩
    · exact Or.inr hnew
  · rcases h'.outbox row hrow with hold | ⟨e, he, hv, rfl, hknown⟩
    · refine (h.outbox row hold).imp_right ?_
      rintro ⟨e, he, hv, rfl, hknown⟩
      exact ⟨e, he, hv, rfl, hknown.imp_left fun hmem => h'.history hmem⟩
    · refine Or.inr ⟨e, he, hv, rfl, ?_⟩
      rcases hknown with hmem | ⟨stored, hstored, hdig⟩
      · exact Or.inl hmem
      -- the stored version was stored before, or it was written, and so remembered, by the first part
      · rcases h.records e.context.recordID with heq | ⟨x, -, -, hid, hx, hrem⟩
        · exact Or.inr ⟨stored, heq ▸ hstored, hdig⟩
        · obtain rfl : RecordRow.of x (x.digest C) = stored := Option.some.inj (hx.symm.trans hstored)
          refine Or.inl (h'.history ?_)
          rw [← hid, ← hdig]
          exact hrem.digest

theorem writeRow (henv : env ∈ envs) (hv : env.Valid) (T : Tables) :
    Stores C envs T (T.writeRow env (env.digest C)) := by
  refine ⟨fun id => ?_, fun row h => Or.inl h, (recordHistory_rememberTx ..).1⟩
  rw [lookup_writeRow]
  by_cases hid : id = env.context.recordID
  · exact Or.inr ⟨env, henv, hv, hid.symm, if_pos hid, remembered_writeRow hv T⟩
  · exact Or.inl (if_neg hid)

theorem replaceHeadTx (henv : env ∈ envs) (h : T.replaceHeadTx C env = .ok T') :
    Stores C envs T T' := by
  obtain ⟨hv, rfl⟩ := replaceHeadTx_ok.1 h
  exact writeRow henv hv T

end Stores

/-- What `putRecordTx` does: nothing, for the stored version, or it writes the row. -/
theorem putRecordTx_ok {T T' : Tables} {env : Envelope} (h : T.putRecordTx C env = .ok T') :
    env.Valid ∧
      ((∃ row, T.records.lookup env.context.recordID = some row ∧ row.digest = env.digest C ∧ T' = T) ∨
        T' = T.writeRow env (env.digest C)) := by
  simp only [putRecordTx, Except.bind_eq_ok, Except.mapError_eq_ok, Envelope.validate_eq_ok,
    Envelope.digestE_eq_ok] at h
  obtain ⟨-, hv, _, ⟨-, rfl⟩, h⟩ := h
  refine ⟨hv, ?_⟩
  rcases hrow : T.records.lookup env.context.recordID with _ | row
  · simp only [hrow, Except.require_bind_eq_ok, Except.pure_eq_ok, Except.ok.injEq] at h
    exact Or.inr h.2.symm
  · simp only [hrow] at h
    split_ifs at h with hsame
    · exact Or.inl ⟨row, rfl, hsame.2.symm, (Except.ok.inj h).symm⟩
    · simp only [Except.require_bind_eq_ok, Except.pure_eq_ok, Except.ok.injEq] at h
      exact Or.inr h.2.2.symm

/-- The first version of a record is written. -/
theorem putRecordTx_first {T : Tables} {env : Envelope} (hv : env.Valid) (hrev : env.context.rev = 1)
    (h : T.records.lookup env.context.recordID = none) :
    T.putRecordTx C env = .ok (T.writeRow env (env.digest C)) := by
  simp only [putRecordTx, Except.bind_eq_ok, Except.mapError_eq_ok, Envelope.validate_eq_ok,
    Envelope.digestE_eq_ok]
  refine ⟨(), hv, _, ⟨hv.signature, rfl⟩, ?_⟩
  simp only [h, Except.require_bind_eq_ok, Except.pure_eq_ok, and_true]
  exact hrev

namespace Stores

variable {envs : List Envelope} {env : Envelope} {T T' : Tables}

theorem putRecordTx (henv : env ∈ envs) (h : T.putRecordTx C env = .ok T') : Stores C envs T T' := by
  obtain ⟨hv, ⟨_, -, -, rfl⟩ | rfl⟩ := putRecordTx_ok h
  · exact .refl _
  · exact .writeRow henv hv T

/-- An envelope is enqueued and written. -/
theorem enqueue (henv : env ∈ envs) (h : (T.enqueueOutboxTx env).putRecordTx C env = .ok T') :
    Stores C envs T T' := by
  have hrec : (T.enqueueOutboxTx env).records = T.records := by
    unfold enqueueOutboxTx; split_ifs <;> rfl
  have hhist : (T.enqueueOutboxTx env).recordHistory = T.recordHistory := by
    unfold enqueueOutboxTx; split_ifs <;> rfl
  have hout : ∀ row ∈ (T.enqueueOutboxTx env).outbox, row ∈ T.outbox ∨ row = .of env := by
    unfold enqueueOutboxTx
    split_ifs
    · exact fun row h => Or.inl h
    · intro row h; simpa using h
  have hput := putRecordTx henv h
  obtain ⟨hv, hcases⟩ := putRecordTx_ok h
  refine ⟨fun id => ?_, fun row hrow => ?_, ?_⟩
  · rw [← hrec]; exact hput.records id
  · have houtbox : T'.outbox = (T.enqueueOutboxTx env).outbox := by
      rcases hcases with ⟨_, -, -, rfl⟩ | rfl <;> rfl
    refine (hout row (houtbox ▸ hrow)).imp_right ?_
    rintro rfl
    refine ⟨env, henv, hv, rfl, ?_⟩
    rcases hcases with ⟨stored, hstored, hdig, rfl⟩ | rfl
    · exact Or.inr ⟨stored, hrec ▸ hstored, hdig⟩
    · exact Or.inl (remembered_writeRow hv _).digest
  · rw [← hhist]; exact hput.history

theorem deleteOutbox (T : Tables) (m : ID) : Stores C envs T (T.deleteOutbox m) :=
  .of_eq rfl (List.filter_subset_self _) rfl

theorem applyRemoteTx (henv : env ∈ envs) (h : T.applyRemoteTx C env = .ok T') :
    Stores C envs T T' := by
  unfold Tables.applyRemoteTx at h
  split at h <;> split_ifs at h
  · exact putRecordTx henv h
  · exact replaceHeadTx henv h
  · exact replaceHeadTx henv h
  · exact putRecordTx henv h

/-- A loop over envelopes of the call. -/
theorem foldlM {f : Tables → Envelope → Except Error Tables}
    (hf : ∀ env ∈ envs, ∀ T T', f T env = .ok T' → Stores C envs T T')
    (h : envs.foldlM f T = .ok T') : Stores C envs T T' :=
  Except.foldlM_induct (P := fun X => Stores C envs T X) h (.refl T)
    fun env henv X X' hX hT => hT.trans (hf env henv X X' hX)

theorem dropPendingTx {recordID : ID} {throughRev : ℕ}
    (h : T.dropPendingTx D recordID throughRev = .ok T') : Stores C envs T T' := by
  simp only [Tables.dropPendingTx, Except.bind_eq_ok, Except.pure_eq_ok, Except.ok.injEq] at h
  obtain ⟨decoded, -, rfl⟩ := h
  generalize (decoded.filter _).map Prod.fst = drop
  induction drop generalizing T with
  | nil => exact .refl T
  | cons m drop ih => exact (deleteOutbox T m).trans ih

theorem installHeads {heads : List Envelope} {seen : List ID} (hsub : heads ⊆ envs)
    (h : T.installHeads C seen heads = .ok T') : Stores C envs T T' := by
  induction heads generalizing T seen with
  | nil => cases h; exact .refl _
  | cons env heads ih =>
    simp only [Tables.installHeads, Except.bind_eq_ok, Except.mapError_eq_ok] at h
    obtain ⟨-, -, T₁, h₁, h⟩ := h
    exact (replaceHeadTx (hsub List.mem_cons_self) h₁).trans
      (ih (fun x hx => hsub (List.mem_cons_of_mem _ hx)) h)

end Stores

/-! ## Installation -/

/-- Records, history and outbox are as they were. -/
structure OtherTables (T T' : Tables) : Prop where
  records : T'.records = T.records
  outbox : T'.outbox = T.outbox
  history : T'.recordHistory = T.recordHistory

theorem OtherTables.refl (T : Tables) : OtherTables T T := ⟨rfl, rfl, rfl⟩

theorem OtherTables.trans {T T' T'' : Tables} (h : OtherTables T T') (h' : OtherTables T' T'') :
    OtherTables T T'' :=
  ⟨h'.1.trans h.1, h'.2.trans h.2, h'.3.trans h.3⟩

theorem OtherTables.foldl {α : Type} {f : Tables → α → Tables} (hf : ∀ T a, OtherTables T (f T a))
    (l : List α) (T : Tables) : OtherTables T (l.foldl f T) := by
  induction l generalizing T with
  | nil => exact .refl T
  | cons a l ih => exact (hf T a).trans (ih (f T a))

theorem OtherTables.stores {envs : List Envelope} {T T' : Tables} (h : OtherTables T T') :
    Stores C envs T T' :=
  .of_eq h.records (h.outbox ▸ List.Subset.refl _) h.history

theorem otherTables_putMembershipEvents {T T' : Tables} {events : List SignedMembershipEvent}
    (h : T.putMembershipEvents C events = .ok T') : OtherTables T T' := by
  refine Except.foldlM_induct (P := fun X => OtherTables T X) h ⟨rfl, rfl, rfl⟩ ?_
  intro ev _ X X' hX hT
  simp only [insertMembershipEvent, Except.bind_eq_ok, Except.pure_eq_ok, Except.ok.injEq] at hX
  obtain ⟨_, -, -, -, rfl⟩ := hX
  exact hT.trans ⟨rfl, rfl, rfl⟩

/-- To records, history and outbox `Install` does what its loop over the heads does. -/
theorem install_ok {T T' : Tables} {inst : Installation} {announce : Except Error Unit}
    (h : T.install C inst announce = .ok T') :
    ∃ T₁ T₂, OtherTables T T₁ ∧ T₁.installHeads C [] inst.heads = .ok T₂ ∧ OtherTables T₂ T' := by
  simp only [install, putGenesis, Except.bind_eq_ok, Except.pure_eq_ok, Except.ok.injEq] at h
  obtain ⟨_, ⟨-, -, rfl⟩, T₁, h₁, T₂, h₂, -, -, rfl⟩ := h
  have hgenesis : OtherTables T { T with genesis := some (inst.genesis, inst.genesis.digest C) } :=
    ⟨rfl, rfl, rfl⟩
  have hwrappers := hgenesis.trans
    (.foldl (f := fun T w => T.putWrapper w.1 w.2) (fun _ _ => ⟨rfl, rfl, rfl⟩) inst.wrappers _)
  have hdevices : OtherTables T₁ (inst.devices.foldl putDevice T₁) :=
    .foldl (f := putDevice) (fun _ _ => ⟨rfl, rfl, rfl⟩) _ _
  have hcursor : OtherTables T₂ (T₂.setCursor cursorRecords inst.cursor) := ⟨rfl, rfl, rfl⟩
  have hmeta := hcursor.trans
    (.foldl (f := fun T kv => T.setMeta kv.1 kv.2) (fun _ _ => ⟨rfl, rfl, rfl⟩) inst.metaTable _)
  exact ⟨_, T₂, (hwrappers.trans (otherTables_putMembershipEvents h₁)).trans hdevices, h₂, hmeta⟩

/-! ## Calls -/

namespace Stores

variable {envs : List Envelope} {T T' : Tables}

theorem install {inst : Installation} {announce : Except Error Unit}
    (h : T.install C inst announce = .ok T') : Stores C inst.heads T T' := by
  obtain ⟨T₁, T₂, hbefore, hheads, hafter⟩ := install_ok h
  exact (hbefore.stores.trans (installHeads (List.Subset.refl _) hheads)).trans hafter.stores

/-- What a call does, if it succeeds. -/
theorem body {call : StoreCall} (h : call.body C D T = .ok T') : Stores C call.envelopes T T' := by
  cases call with
  | install inst announce => exact install h
  | applyLocalBatch envs => exact foldlM (fun env henv T T' => enqueue henv) h
  | applyRemoteBatch cursor envs =>
    simp only [StoreCall.body, applyRemoteBatch, Except.bind_eq_ok, Except.pure_eq_ok,
      Except.ok.injEq] at h
    obtain ⟨T₁, h₁, rfl⟩ := h
    have hloop : Stores C envs T T₁ := foldlM (fun env henv T T' => applyRemoteTx henv) h₁
    exact hloop.trans (.of_eq rfl (List.Subset.refl _) rfl)
  | resolveConflict candidate conflict head =>
    rcases conflict with _ | conflict <;> rcases head with _ | head
    iterate 3 cases h
    simp only [StoreCall.body, resolveConflict, Except.bind_eq_ok, Except.pure_eq_ok,
      Except.ok.injEq] at h
    obtain ⟨T₁, h₁, T₂, h₂, rfl⟩ := h
    have henq : Stores C [conflict, head] T T₁ := enqueue (by simp) h₁
    exact (henq.trans (replaceHeadTx (by simp) h₂)).trans (deleteOutbox _ _)
  | acceptOutbox env seq =>
    simp only [StoreCall.body, acceptOutbox, Except.bind_eq_ok, Except.pure_eq_ok,
      Except.ok.injEq] at h
    obtain ⟨T₁, h₁, rfl⟩ := h
    have hput : Stores C [{ env with seq := seq }] T T₁ := replaceHeadTx (by simp) h₁
    exact hput.trans (deleteOutbox _ _)
  | acceptImported env seq =>
    simp only [StoreCall.body, acceptImported, Except.bind_eq_ok] at h
    obtain ⟨T₁, h₁, h₂⟩ := h
    have hput : Stores C [{ env with seq := seq }] T T₁ := replaceHeadTx (by simp) h₁
    exact hput.trans (dropPendingTx h₂)
  | dropPending recordID throughRev => exact dropPendingTx h
  | supersede conflict head =>
    rcases head with _ | head
    · cases h
    · simp only [StoreCall.body, supersede, Except.bind_eq_ok] at h
      obtain ⟨T₁, h₁, h₂⟩ := h
      have hfirst : Stores C (conflict.toList ++ [head]) T T₁ := by
        rcases conflict with _ | conflict
        · cases h₁; exact .refl T
        · exact enqueue (by simp) h₁
      have hdel : Stores C (conflict.toList ++ [head]) T₁ (T₁.deleteOutboxRecord head.context.recordID) :=
        .of_eq rfl (List.filter_subset_self _) rfl
      exact (hfirst.trans hdel).trans (replaceHeadTx (by simp) h₂)
  | restartHistory history =>
    cases h
    exact .of_eq rfl (List.Subset.refl _) rfl

end Stores

theorem valid_installHeads {T T' : Tables} {heads : List Envelope} {seen : List ID}
    (h : T.installHeads C seen heads = .ok T') : ∀ e ∈ heads, e.Valid := by
  induction heads generalizing T seen with
  | nil => exact fun e he => absurd he List.not_mem_nil
  | cons env heads ih =>
    simp only [installHeads, Except.bind_eq_ok, Except.mapError_eq_ok] at h
    obtain ⟨-, -, T₁, h₁, h⟩ := h
    exact List.forall_mem_cons.2 ⟨(replaceHeadTx_ok.1 h₁).1, ih h⟩

/-- A call that succeeds has validated its envelopes. -/
theorem valid_body {T T' : Tables} {call : StoreCall} (h : call.body C D T = .ok T') :
    ∀ e ∈ call.envelopes, e.Valid := by
  cases call with
  | install inst announce =>
    simp only [StoreCall.body, install, Except.bind_eq_ok] at h
    obtain ⟨_, -, _, -, _, h, -⟩ := h
    exact valid_installHeads h
  | applyLocalBatch envs =>
    have hturn : ∀ (env : Envelope) (X X' : Tables),
        (X.enqueueOutboxTx env).putRecordTx C env = .ok X' → env.Valid :=
      fun env X X' h => (putRecordTx_ok h).1
    exact Except.forall_of_foldlM hturn h
  | applyRemoteBatch cursor envs =>
    simp only [StoreCall.body, applyRemoteBatch, Except.bind_eq_ok] at h
    obtain ⟨_, h, -⟩ := h
    refine Except.forall_of_foldlM (fun env X X' h => ?_) h
    unfold applyRemoteTx at h
    split at h <;> split_ifs at h
    · exact (putRecordTx_ok h).1
    · exact (replaceHeadTx_ok.1 h).1
    · exact (replaceHeadTx_ok.1 h).1
    · exact (putRecordTx_ok h).1
  | resolveConflict candidate conflict head =>
    rcases conflict with _ | conflict <;> rcases head with _ | head
    iterate 3 cases h
    simp only [StoreCall.body, resolveConflict, Except.bind_eq_ok] at h
    obtain ⟨_, h₁, _, h₂, -⟩ := h
    simp [StoreCall.envelopes, (putRecordTx_ok h₁).1, (replaceHeadTx_ok.1 h₂).1]
  | acceptOutbox env seq =>
    simp only [StoreCall.body, acceptOutbox, Except.bind_eq_ok] at h
    obtain ⟨_, h, -⟩ := h
    simp [StoreCall.envelopes, (replaceHeadTx_ok.1 h).1]
  | acceptImported env seq =>
    simp only [StoreCall.body, acceptImported, Except.bind_eq_ok] at h
    obtain ⟨_, h, -⟩ := h
    simp [StoreCall.envelopes, (replaceHeadTx_ok.1 h).1]
  | dropPending recordID throughRev => exact fun e he => absurd he List.not_mem_nil
  | supersede conflict head =>
    rcases head with _ | head
    · cases h
    · simp only [StoreCall.body, supersede, Except.bind_eq_ok] at h
      obtain ⟨T₁, h₁, h₂⟩ := h
      have hhead := (replaceHeadTx_ok.1 h₂).1
      rcases conflict with _ | conflict
      · simp [StoreCall.envelopes, hhead]
      · simp [StoreCall.envelopes, hhead, (putRecordTx_ok h₁).1]
  | restartHistory history => exact fun e he => absurd he List.not_mem_nil

/-! ## Sequences of calls -/

/-- The columns of a row agree with the envelope whose text it holds. -/
structure RowAgrees (C : Suite) (id : ID) (row : RecordRow) (e : Envelope) : Prop where
  valid : e.Valid
  recordID : id = e.context.recordID
  envelope : row.envelope = e.text
  recordType : row.recordType = e.context.recordType.text
  deleted : row.deleted = e.context.deleted
  digest : row.digest = e.digest C

/-- Every row agrees with its envelope, and the versions are remembered. -/
structure Consistent (C : Suite) (T : Tables) : Prop where
  records : ∀ id row, T.records.lookup id = some row → ∃ e, RowAgrees C id row e ∧ Remembered C T e
  outbox : ∀ row ∈ T.outbox, ∃ e : Envelope, e.Valid ∧ row.envelope = e.text ∧
    row.mutationID = e.context.mutationID ∧ row.recordID = e.context.recordID ∧
    (e.context.recordID, e.digest C) ∈ T.recordHistory

theorem consistent_empty : Consistent C empty :=
  ⟨fun id row h => by simp [empty] at h, fun row h => absurd h List.not_mem_nil⟩

theorem Consistent.stores {envs : List Envelope} {T T' : Tables} (hT : Consistent C T)
    (h : Stores C envs T T') : Consistent C T' := by
  refine ⟨fun id row hrow => ?_, fun row hrow => ?_⟩
  · rcases h.records id with heq | ⟨e, -, hv, hid, hnew, hrem⟩
    · obtain ⟨e, hagrees, hrem⟩ := hT.records id row (heq ▸ hrow)
      exact ⟨e, hagrees, hrem.mono h.history⟩
    · obtain rfl : RecordRow.of e (e.digest C) = row := Option.some.inj (hnew.symm.trans hrow)
      exact ⟨e, ⟨hv, hid.symm, rfl, rfl, rfl, rfl⟩, hrem⟩
  · rcases h.outbox row hrow with hold | ⟨e, -, hv, rfl, hknown⟩
    · obtain ⟨e, hv, htext, hm, hr, hmem⟩ := hT.outbox row hold
      exact ⟨e, hv, htext, hm, hr, h.history hmem⟩
    · refine ⟨e, hv, rfl, rfl, rfl, ?_⟩
      rcases hknown with hmem | ⟨stored, hstored, hdig⟩
      · exact hmem
      · obtain ⟨x, hagrees, hrem⟩ := hT.records _ stored hstored
        rw [hagrees.recordID, ← hdig, hagrees.digest]
        exact h.history hrem.digest

theorem exec_cases (T : Tables) (call : StoreCall) :
    call.exec C D T = T ∨ Stores C call.envelopes T (call.exec C D T) := by
  unfold StoreCall.exec
  rcases h : call.body C D T with err | T'
  · exact Or.inl rfl
  · exact Or.inr (.body h)

theorem recordHistory_exec (T : Tables) (call : StoreCall) :
    T.recordHistory ⊆ (call.exec C D T).recordHistory := by
  rcases exec_cases (C := C) (D := D) T call with h | h
  · rw [h]; exact List.Subset.refl _
  · exact h.history

theorem Consistent.exec {T : Tables} (hT : Consistent C T) (call : StoreCall) :
    Consistent C (call.exec C D T) := by
  rcases exec_cases (C := C) (D := D) T call with h | h
  · rw [h]; exact hT
  · exact hT.stores h

/-- The tables after a sequence of calls. -/
def afterCalls (C : Suite) (D : Decoder) (T : Tables) (calls : List StoreCall) : Tables :=
  calls.foldl (fun T call => call.exec C D T) T

theorem recordHistory_afterCalls (T : Tables) (calls : List StoreCall) :
    T.recordHistory ⊆ (T.afterCalls C D calls).recordHistory := by
  induction calls generalizing T with
  | nil => exact List.Subset.refl _
  | cons call calls ih => exact fun x hx => ih _ (recordHistory_exec T call hx)

theorem Consistent.afterCalls {T : Tables} (hT : Consistent C T) (calls : List StoreCall) :
    Consistent C (T.afterCalls C D calls) := by
  induction calls generalizing T with
  | nil => exact hT
  | cons call calls ih => exact ih (hT.exec call)

/-- **Main result.** After any sequence of calls, whatever their arguments and whether they
    succeed or not, every row agrees with the envelope it holds, the digests of the heads
    and of their parents and those of the pending edits are remembered, and at no moment
    has an entry of `record_history` been lost. -/
theorem consistent_afterCalls (calls calls' : List StoreCall) :
    Consistent C (empty.afterCalls C D calls) ∧
    (empty.afterCalls C D calls).recordHistory ⊆
      (empty.afterCalls C D (calls ++ calls')).recordHistory := by
  refine ⟨consistent_empty.afterCalls calls, ?_⟩
  rw [Tables.afterCalls, Tables.afterCalls, List.foldl_append]
  exact recordHistory_afterCalls _ calls'

end Tables

end Sshstate.Vault
