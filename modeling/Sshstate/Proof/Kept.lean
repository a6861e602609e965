/-
  What a call leaves in the tables.

  A batch may write a record several times, and a call that keeps a candidate aside may
  write over it.  `Leaves` says, from the tables before the call, of which envelopes a row
  is there afterwards: the one written last for its record (`LeavesHead`), and those
  enqueued under a new mutation and not deleted again (`LeavesPending`).  A successful call
  leaves exactly these (`ends_body`).
-/
import Sshstate.Proof.Tables

namespace Sshstate.Vault

variable {C : Suite} {D : Decoder}

/-- The columns by which `putRecordTx` tells versions apart. -/
abbrev Version := ℤ × Bytes

def versionOf (C : Suite) (e : Envelope) : Version := (toInt64 e.context.rev, e.digest C)

namespace Tables

/-- The version of the stored head. -/
def version (T : Tables) (id : ID) : Option Version :=
  (T.records.lookup id).map fun row => (row.rev, row.digest)

/-- The version of a record once the envelopes `pre` of a batch have been applied. -/
def versionAt (C : Suite) (T : Tables) (pre : List Envelope) (id : ID) : Option Version :=
  pre.foldl (fun v e => if e.context.recordID = id then some (versionOf C e) else v) (T.version id)

/-- `putRecordTx` writes over the version `v`. -/
def PutWrites (C : Suite) (v : Option Version) (e : Envelope) : Prop := v ≠ some (versionOf C e)

/-- `applyRemoteTx` writes over the version `v`. -/
def RemoteWrites (C : Suite) (v : Option Version) (e : Envelope) : Prop :=
  (∃ x, v = some x ∧ toInt64 (x.1 + 1) < toInt64 e.context.rev) ∨ PutWrites C v e

/-- `e` is the last envelope of the batch that is written for its record. -/
def LeavesHead (C : Suite) (W : Option Version → Envelope → Prop) (T : Tables)
    (envs : List Envelope) (e : Envelope) : Prop :=
  ∃ pre post, envs = pre ++ e :: post ∧ W (T.versionAt C pre e.context.recordID) e ∧
    ∀ e' ∈ post, e'.context.recordID = e.context.recordID → ¬ W (some (versionOf C e)) e'

/-- No row of the outbox has the mutation of `e`. -/
def NotPending (T : Tables) (e : Envelope) : Prop :=
  ∀ row ∈ T.outbox, row.mutationID ≠ e.context.mutationID

/-- `e` is the first envelope of the batch with its mutation, which is not pending yet. -/
def LeavesPending (T : Tables) (envs : List Envelope) (e : Envelope) : Prop :=
  ∃ pre post, envs = pre ++ e :: post ∧ T.NotPending e ∧
    ∀ e' ∈ pre, e'.context.mutationID ≠ e.context.mutationID

/-- The envelopes of which a call leaves a row. -/
inductive Leaves (C : Suite) (T : Tables) : StoreCall → Envelope → Prop
  | install {inst : Installation} {announce : Except Error Unit} {e : Envelope}
      (mem : e ∈ inst.heads) : Leaves C T (.install inst announce) e
  | localHead {envs : List Envelope} {e : Envelope} (last : LeavesHead C (PutWrites C) T envs e) :
      Leaves C T (.applyLocalBatch envs) e
  | localPending {envs : List Envelope} {e : Envelope} (new : LeavesPending T envs e) :
      Leaves C T (.applyLocalBatch envs) e
  | remoteHead {cursor : String} {envs : List Envelope} {e : Envelope}
      (last : LeavesHead C (RemoteWrites C) T envs e) : Leaves C T (.applyRemoteBatch cursor envs) e
  | resolveHead {candidate : ID} {conflict head : Envelope} :
      Leaves C T (.resolveConflict candidate (some conflict) (some head)) head
  | resolveConflict {candidate : ID} {conflict head : Envelope}
      (other : conflict.context.recordID ≠ head.context.recordID)
      (new : PutWrites C (T.version conflict.context.recordID) conflict) :
      Leaves C T (.resolveConflict candidate (some conflict) (some head)) conflict
  | resolvePending {candidate : ID} {conflict head : Envelope}
      (other : conflict.context.mutationID ≠ candidate) (new : T.NotPending conflict) :
      Leaves C T (.resolveConflict candidate (some conflict) (some head)) conflict
  | acceptOutbox {env : Envelope} {seq : ℕ} :
      Leaves C T (.acceptOutbox env seq) { env with seq := seq }
  | acceptImported {env : Envelope} {seq : ℕ} :
      Leaves C T (.acceptImported env seq) { env with seq := seq }
  | supersedeHead {conflict : Option Envelope} {head : Envelope} :
      Leaves C T (.supersede conflict (some head)) head
  | supersedeConflict {conflict head : Envelope}
      (other : conflict.context.recordID ≠ head.context.recordID)
      (new : PutWrites C (T.version conflict.context.recordID) conflict) :
      Leaves C T (.supersede (some conflict) (some head)) conflict
  | supersedePending {conflict head : Envelope}
      (other : conflict.context.recordID ≠ head.context.recordID) (new : T.NotPending conflict) :
      Leaves C T (.supersede (some conflict) (some head)) conflict

/-! ## One turn -/

/-- A turn of a loop that decides by `W`: the row is written, or the version is stored. -/
inductive Turn (C : Suite) (W : Option Version → Envelope → Prop) (X : Tables) (e : Envelope)
    (X' : Tables) : Prop
  | writes (new : W (X.version e.context.recordID) e)
      (records : ∀ id, X'.records.lookup id =
        if id = e.context.recordID then some (.of e (e.digest C)) else X.records.lookup id)
  | skips (old : ¬ W (X.version e.context.recordID) e)
      (stored : X.version e.context.recordID = some (versionOf C e))
      (records : X'.records = X.records)

variable {W : Option Version → Envelope → Prop} {T T' X X' : Tables} {e : Envelope}

theorem version_of_lookup (h : X.records.lookup e.context.recordID = some (.of e (e.digest C))) :
    X.version e.context.recordID = some (versionOf C e) := by
  rw [version, h]
  rfl

/-- After a turn the version of the record is that of the envelope. -/
theorem Turn.version (h : Turn C W X e X') (id : ID) :
    X'.version id = if e.context.recordID = id then some (versionOf C e) else X.version id := by
  by_cases hid : e.context.recordID = id
  · subst hid
    rw [if_pos rfl]
    cases h with
    | writes _ hrec => exact version_of_lookup (by rw [hrec, if_pos rfl])
    | skips _ hstored hrec => rw [← hstored, Tables.version, Tables.version, hrec]
  · rw [if_neg hid, Tables.version, Tables.version]
    cases h with
    | writes _ hrec => rw [hrec, if_neg (Ne.symm hid)]
    | skips _ _ hrec => rw [hrec]

theorem turn_putRecordTx (h : X.putRecordTx C e = .ok X') : Turn C (PutWrites C) X e X' := by
  simp only [putRecordTx, Except.bind_eq_ok, Except.mapError_eq_ok, Envelope.validate_eq_ok,
    Envelope.digestE_eq_ok] at h
  obtain ⟨-, hv, _, ⟨-, rfl⟩, h⟩ := h
  rcases hrow : X.records.lookup e.context.recordID with _ | row
  · simp only [hrow, Except.require_bind_eq_ok, Except.pure_eq_ok, Except.ok.injEq] at h
    obtain ⟨-, rfl⟩ := h
    refine .writes ?_ (lookup_writeRow X e _)
    rw [PutWrites, version, hrow]
    exact Option.some_ne_none _ ∘ Eq.symm
  · have hversion : X.version e.context.recordID = some (row.rev, row.digest) := by
      rw [version, hrow, Option.map_some]
    simp only [hrow] at h
    split_ifs at h with hsame
    · cases h
      have hstored : X.version e.context.recordID = some (versionOf C e) := by
        rw [hversion, versionOf, hsame.1, hsame.2]
      exact .skips (not_not_intro hstored) hstored rfl
    · simp only [Except.require_bind_eq_ok, Except.pure_eq_ok, Except.ok.injEq] at h
      obtain ⟨-, -, rfl⟩ := h
      refine .writes ?_ (lookup_writeRow X e _)
      rw [PutWrites, hversion]
      intro heq
      obtain ⟨hr, hd⟩ := Prod.mk.inj (Option.some.inj heq)
      exact hsame ⟨hr.symm, hd.symm⟩

theorem lookup_replaceHeadTx (h : X.replaceHeadTx C e = .ok X') (id : ID) :
    X'.records.lookup id =
      if id = e.context.recordID then some (.of e (e.digest C)) else X.records.lookup id := by
  rw [(replaceHeadTx_ok.1 h).2, lookup_writeRow]

theorem turn_applyRemoteTx (h : X.applyRemoteTx C e = .ok X') : Turn C (RemoteWrites C) X e X' := by
  unfold applyRemoteTx at h
  rcases hrow : X.records.lookup e.context.recordID with _ | row
  · have hnew : RemoteWrites C (X.version e.context.recordID) e := by
      refine Or.inr ?_
      rw [PutWrites, version, hrow]
      exact Option.some_ne_none _ ∘ Eq.symm
    simp only [hrow] at h
    split_ifs at h
    · cases turn_putRecordTx h with
      | writes _ hrec => exact .writes hnew hrec
      | skips _ hstored _ =>
        rw [version, hrow] at hstored
        cases hstored
    · exact .writes hnew (lookup_replaceHeadTx h)
  · have hversion : X.version e.context.recordID = some (row.rev, row.digest) := by
      rw [version, hrow, Option.map_some]
    simp only [hrow] at h
    split_ifs at h with hjump
    · exact .writes (Or.inl ⟨_, hversion, hjump⟩) (lookup_replaceHeadTx h)
    · cases turn_putRecordTx h with
      | writes hnew hrec => exact .writes (Or.inr hnew) hrec
      | skips hold hstored hrec =>
        refine .skips ?_ hstored hrec
        rintro (⟨x, hx, hlt⟩ | hnew)
        · cases hversion.symm.trans hx
          exact hjump hlt
        · exact hold hnew

theorem records_enqueueOutboxTx (T : Tables) (e : Envelope) :
    (T.enqueueOutboxTx e).records = T.records := by
  unfold enqueueOutboxTx; split_ifs <;> rfl

theorem turn_enqueue (h : (X.enqueueOutboxTx e).putRecordTx C e = .ok X') :
    Turn C (PutWrites C) X e X' := by
  have hversion : (X.enqueueOutboxTx e).version = X.version := by
    funext id; rw [version, version, records_enqueueOutboxTx]
  cases turn_putRecordTx h with
  | writes hnew hrec =>
    refine .writes (hversion ▸ hnew) fun id => ?_
    rw [hrec, records_enqueueOutboxTx]
  | skips hold hstored hrec =>
    exact .skips (hversion ▸ hold) (hversion ▸ hstored) (hrec.trans (records_enqueueOutboxTx X e))

/-! ## Loops -/

section
variable {f : Tables → Envelope → Except Error Tables}
  (hf : ∀ X e X', f X e = .ok X' → Turn C W X e X') {envs : List Envelope}

include hf

theorem version_foldlM (h : envs.foldlM f T = .ok T') (id : ID) :
    T'.version id = T.versionAt C envs id := by
  induction envs generalizing T with
  | nil => cases h; rfl
  | cons e envs ih =>
    rw [List.foldlM_cons, Except.bind_eq_ok] at h
    obtain ⟨X, hX, h⟩ := h
    rw [ih h, versionAt, versionAt, (hf _ _ _ hX).version, List.foldl_cons]

/-- A row stays when nothing writes over its version. -/
theorem lookup_foldlM_of_skips (h : envs.foldlM f T = .ok T')
    (hrow : T.records.lookup e.context.recordID = some (.of e (e.digest C)))
    (hskip : ∀ e' ∈ envs, e'.context.recordID = e.context.recordID →
      ¬ W (some (versionOf C e)) e') :
    T'.records.lookup e.context.recordID = some (.of e (e.digest C)) := by
  induction envs generalizing T with
  | nil => cases h; exact hrow
  | cons e' envs ih =>
    rw [List.foldlM_cons, Except.bind_eq_ok] at h
    obtain ⟨X, hX, h⟩ := h
    refine ih h ?_ fun x hx => hskip x (List.mem_cons_of_mem _ hx)
    cases hf _ _ _ hX with
    | writes hnew hrec =>
      rw [hrec]
      by_cases hid : e.context.recordID = e'.context.recordID
      · refine absurd hnew ?_
        rw [← hid, version_of_lookup hrow]
        exact hskip e' List.mem_cons_self hid.symm
      · rw [if_neg hid, hrow]
    | skips _ _ hrec => rw [hrec, hrow]

/-- What a loop leaves is there afterwards. -/
theorem lookup_of_leavesHead (h : envs.foldlM f T = .ok T') (hl : LeavesHead C W T envs e) :
    T'.records.lookup e.context.recordID = some (.of e (e.digest C)) := by
  obtain ⟨pre, post, rfl, hnew, hskip⟩ := hl
  rw [List.foldlM_append, Except.bind_eq_ok] at h
  obtain ⟨X, hX, h⟩ := h
  rw [List.foldlM_cons, Except.bind_eq_ok] at h
  obtain ⟨X', hX', h⟩ := h
  refine lookup_foldlM_of_skips hf h ?_ hskip
  cases hf _ _ _ hX' with
  | writes _ hrec => rw [hrec, if_pos rfl]
  | skips hold _ _ =>
    rw [version_foldlM hf hX] at hold
    exact absurd hnew hold

/-- A row is as it was, or it is what the loop leaves. -/
theorem lookup_foldlM (h : envs.foldlM f T = .ok T') (id : ID) :
    T'.records.lookup id = T.records.lookup id ∨
      ∃ e, LeavesHead C W T envs e ∧ e.context.recordID = id ∧
        T'.records.lookup id = some (.of e (e.digest C)) := by
  -- from the right: the last turn writes over what the turns before it leave
  induction envs using List.reverseRecOn generalizing T' with
  | nil => cases h; exact Or.inl rfl
  | append_singleton pre e ih =>
    rw [List.foldlM_append, Except.bind_eq_ok] at h
    obtain ⟨X, hX, h⟩ := h
    rw [List.foldlM_cons, Except.bind_eq_ok] at h
    obtain ⟨X', hX', h⟩ := h
    cases h
    have hturn := hf _ _ _ hX'
    have hkeep : ∀ e₀, LeavesHead C W T pre e₀ →
        (e.context.recordID = e₀.context.recordID → ¬ W (some (versionOf C e₀)) e) →
        LeavesHead C W T (pre ++ [e]) e₀ := by
      rintro e₀ ⟨pre₀, post₀, rfl, hnew, hskip⟩ he
      refine ⟨pre₀, post₀ ++ [e], by simp, hnew, fun e' he' => ?_⟩
      rcases List.mem_append.1 he' with he' | he'
      · exact hskip e' he'
      · rw [List.mem_singleton.1 he']; exact he
    cases hturn with
    | writes hnew hrec =>
      rw [hrec]
      by_cases hid : id = e.context.recordID
      · refine Or.inr ⟨e, ⟨pre, [], rfl, ?_, fun e' he' => absurd he' List.not_mem_nil⟩, hid.symm,
          if_pos hid⟩
        rw [← version_foldlM hf hX]
        exact hnew
      · rw [if_neg hid]
        refine (ih hX).imp_right ?_
        rintro ⟨e₀, hl, rfl, hrow⟩
        exact ⟨e₀, hkeep e₀ hl fun heq => absurd heq.symm hid, rfl, hrow⟩
    | skips hold _ hrec =>
      rw [hrec]
      refine (ih hX).imp_right ?_
      rintro ⟨e₀, hl, rfl, hrow⟩
      refine ⟨e₀, hkeep e₀ hl fun heq => ?_, rfl, hrow⟩
      rw [heq, version_of_lookup hrow] at hold
      exact hold

end

/-! ## The outbox -/

theorem outbox_putRecordTx (h : X.putRecordTx C e = .ok X') : X'.outbox = X.outbox := by
  obtain ⟨-, ⟨_, -, -, rfl⟩ | rfl⟩ := putRecordTx_ok h <;> rfl

theorem outbox_replaceHeadTx (h : X.replaceHeadTx C e = .ok X') : X'.outbox = X.outbox := by
  rw [(replaceHeadTx_ok.1 h).2, outbox_writeRow]

theorem outbox_applyRemoteTx (h : X.applyRemoteTx C e = .ok X') : X'.outbox = X.outbox := by
  unfold applyRemoteTx at h
  split at h <;> split_ifs at h
  · exact outbox_putRecordTx h
  · exact outbox_replaceHeadTx h
  · exact outbox_replaceHeadTx h
  · exact outbox_putRecordTx h

theorem outbox_enqueue (h : (X.enqueueOutboxTx e).putRecordTx C e = .ok X') :
    (¬ X.NotPending e ∧ X'.outbox = X.outbox) ∨
      (X.NotPending e ∧ X'.outbox = X.outbox ++ [.of e]) := by
  rw [outbox_putRecordTx h]
  unfold enqueueOutboxTx
  split_ifs with hex
  · obtain ⟨row, hrow, hm⟩ := hex
    exact Or.inl ⟨fun hnot => hnot row hrow hm, rfl⟩
  · exact Or.inr ⟨fun row hrow hm => hex ⟨row, hrow, hm⟩, rfl⟩

theorem subset_outbox_enqueue (h : (X.enqueueOutboxTx e).putRecordTx C e = .ok X') :
    X.outbox ⊆ X'.outbox := by
  rcases outbox_enqueue h with ⟨-, heq⟩ | ⟨-, heq⟩ <;> rw [heq]
  · exact List.Subset.refl _
  · exact List.subset_append_left _ _

/-- Once enqueued, a mutation is pending. -/
theorem pending_enqueue (h : (X.enqueueOutboxTx e).putRecordTx C e = .ok X') : ¬ X'.NotPending e := by
  intro hnot
  rcases outbox_enqueue h with ⟨hold, heq⟩ | ⟨-, heq⟩
  · exact hold fun row hrow => hnot row (heq ▸ hrow)
  · exact hnot (.of e) (by rw [heq]; simp) rfl

section
variable {envs : List Envelope} (h : T.applyLocalBatch C envs = .ok T')

include h

theorem subset_outbox_applyLocalBatch : T.outbox ⊆ T'.outbox :=
  Except.foldlM_induct (P := fun X => T.outbox ⊆ X.outbox) h (List.Subset.refl _)
    fun _ _ _ _ hX hsub => List.Subset.trans hsub (subset_outbox_enqueue hX)

theorem outbox_applyLocalBatch :
    (∀ row ∈ T'.outbox, row ∈ T.outbox ∨ ∃ e, LeavesPending T envs e ∧ row = .of e) ∧
      ∀ e ∈ envs, ¬ T'.NotPending e := by
  unfold applyLocalBatch at h
  induction envs using List.reverseRecOn generalizing T' with
  | nil => cases h; exact ⟨fun row hrow => Or.inl hrow, fun e he => absurd he List.not_mem_nil⟩
  | append_singleton pre e ih =>
    rw [List.foldlM_append, Except.bind_eq_ok] at h
    obtain ⟨X, hX, h⟩ := h
    rw [List.foldlM_cons, Except.bind_eq_ok] at h
    obtain ⟨X', hX', h⟩ := h
    cases h
    obtain ⟨hrows, hpending⟩ := ih hX
    have hsub := subset_outbox_applyLocalBatch hX
    have hkeep : ∀ e₀, LeavesPending T pre e₀ → LeavesPending T (pre ++ [e]) e₀ := by
      rintro e₀ ⟨pre₀, post₀, rfl, hnot, hfirst⟩
      exact ⟨pre₀, post₀ ++ [e], by simp, hnot, hfirst⟩
    have hold : ∀ row ∈ X.outbox,
        row ∈ T.outbox ∨ ∃ e₀, LeavesPending T (pre ++ [e]) e₀ ∧ row = .of e₀ := fun row hrow =>
      (hrows row hrow).imp_right fun ⟨e₀, hl, heq⟩ => ⟨e₀, hkeep e₀ hl, heq⟩
    refine ⟨fun row hrow => ?_, fun e₀ he₀ => ?_⟩
    · rcases outbox_enqueue hX' with ⟨-, heq⟩ | ⟨hnot, heq⟩ <;> rw [heq] at hrow
      · exact hold row hrow
      · rcases List.mem_append.1 hrow with hrow | hrow
        · exact hold row hrow
        · refine Or.inr ⟨e, ⟨pre, [], rfl, fun row hrow => hnot row (hsub hrow), fun e' he' hm => ?_⟩,
            List.mem_singleton.1 hrow⟩
          exact hpending e' he' fun row hrow => by rw [hm]; exact hnot row hrow
    · rcases List.mem_append.1 he₀ with he₀ | he₀
      · exact fun hnot => hpending e₀ he₀ fun row hrow => hnot row (subset_outbox_enqueue hX' hrow)
      · rw [List.mem_singleton.1 he₀]; exact pending_enqueue hX'

theorem mem_outbox_of_leavesPending (hl : LeavesPending T envs e) : OutboxRow.of e ∈ T'.outbox := by
  obtain ⟨pre, post, rfl, hnot, hfirst⟩ := hl
  unfold applyLocalBatch at h
  rw [List.foldlM_append, Except.bind_eq_ok] at h
  obtain ⟨X, hX, h⟩ := h
  rw [List.foldlM_cons, Except.bind_eq_ok] at h
  obtain ⟨X', hX', h⟩ := h
  have hnew : X.NotPending e := by
    intro row hrow
    rcases (outbox_applyLocalBatch hX).1 row hrow with hrow | ⟨e', ⟨_, _, rfl, -⟩, rfl⟩
    · exact hnot row hrow
    · exact hfirst e' (by simp)
  refine subset_outbox_applyLocalBatch h ?_
  rcases outbox_enqueue hX' with ⟨hold, -⟩ | ⟨-, heq⟩
  · exact absurd hnew hold
  · rw [heq]; simp

end

/-! ## Calls -/

/-- `e` is the stored head of its record. -/
def HasHead (C : Suite) (T : Tables) (e : Envelope) : Prop :=
  T.records.lookup e.context.recordID = some (.of e (e.digest C))

/-- `e` is a pending candidate. -/
def HasPending (T : Tables) (e : Envelope) : Prop := OutboxRow.of e ∈ T.outbox

/-- The rows of `T'` are rows of `T` and the rows of the envelopes with `P`, of which each
    has one. -/
structure Ends (C : Suite) (P : Envelope → Prop) (T T' : Tables) : Prop where
  held : ∀ e, P e → T'.HasHead C e ∨ T'.HasPending e
  records : ∀ id, T'.records.lookup id = T.records.lookup id ∨
    ∃ e, P e ∧ e.context.recordID = id ∧ T'.records.lookup id = some (.of e (e.digest C))
  outbox : ∀ row ∈ T'.outbox, row ∈ T.outbox ∨ ∃ e, P e ∧ row = .of e

theorem ends_applyLocalBatch {envs : List Envelope}
    (h : (StoreCall.applyLocalBatch envs).body C D T = .ok T') :
    Ends C (Leaves C T (.applyLocalBatch envs)) T T' := by
  have hbatch : T.applyLocalBatch C envs = .ok T' := h
  have hturn : ∀ X e X', (X.enqueueOutboxTx e).putRecordTx C e = .ok X' →
      Turn C (PutWrites C) X e X' := fun X e X' => turn_enqueue
  refine ⟨fun e hl => ?_, fun id => ?_, fun row hrow => ?_⟩
  · cases hl with
    | localHead hl => exact Or.inl (lookup_of_leavesHead hturn hbatch hl)
    | localPending hl => exact Or.inr (mem_outbox_of_leavesPending hbatch hl)
  · exact (lookup_foldlM hturn hbatch id).imp_right fun ⟨e, hl, hrest⟩ => ⟨e, .localHead hl, hrest⟩
  · exact ((outbox_applyLocalBatch hbatch).1 row hrow).imp_right fun ⟨e, hl, heq⟩ =>
      ⟨e, .localPending hl, heq⟩

theorem ends_applyRemoteBatch {cursor : String} {envs : List Envelope}
    (h : (StoreCall.applyRemoteBatch cursor envs).body C D T = .ok T') :
    Ends C (Leaves C T (.applyRemoteBatch cursor envs)) T T' := by
  simp only [StoreCall.body, applyRemoteBatch, Except.bind_eq_ok, Except.pure_eq_ok,
    Except.ok.injEq] at h
  obtain ⟨X, hX, rfl⟩ := h
  have hturn : ∀ X e X', X.applyRemoteTx C e = .ok X' → Turn C (RemoteWrites C) X e X' :=
    fun X e X' => turn_applyRemoteTx
  have hout : X.outbox = T.outbox :=
    Except.foldlM_induct (P := fun X => X.outbox = T.outbox) hX rfl fun e _ X X' hX' hP =>
      (outbox_applyRemoteTx hX').trans hP
  refine ⟨fun e hl => ?_, fun id => ?_, fun row hrow => Or.inl (hout ▸ hrow)⟩
  · cases hl with
    | remoteHead hl =>
      have hhead := lookup_of_leavesHead hturn hX hl
      exact Or.inl hhead
  · refine (lookup_foldlM hturn hX id).imp_right ?_
    rintro ⟨e, hl, hrest⟩
    exact ⟨e, .remoteHead hl, hrest⟩

/-- A copy is put aside and a head replaced, as by `ResolveConflict` and `Supersede`. -/
theorem records_aside {X₁ X₂ : Tables} {conflict head : Envelope}
    (h₁ : (X.enqueueOutboxTx conflict).putRecordTx C conflict = .ok X₁)
    (hrec : X₂.records = X₁.records) (h₂ : X₂.replaceHeadTx C head = .ok X') :
    X'.HasHead C head ∧
    (conflict.context.recordID ≠ head.context.recordID →
      PutWrites C (X.version conflict.context.recordID) conflict → X'.HasHead C conflict) ∧
    ∀ id, X'.records.lookup id = X.records.lookup id ∨
      (head.context.recordID = id ∧ X'.records.lookup id = some (.of head (head.digest C))) ∨
      (conflict.context.recordID ≠ head.context.recordID ∧
        PutWrites C (X.version conflict.context.recordID) conflict ∧
        conflict.context.recordID = id ∧
        X'.records.lookup id = some (.of conflict (conflict.digest C))) := by
  have hX' := lookup_replaceHeadTx h₂
  rw [hrec] at hX'
  refine ⟨by rw [HasHead, hX', if_pos rfl], fun hne hnew => ?_, fun id => ?_⟩
  · rw [HasHead, hX', if_neg hne]
    cases turn_enqueue h₁ with
    | writes _ hrec₁ => rw [hrec₁, if_pos rfl]
    | skips hold _ _ => exact absurd hnew hold
  · by_cases hid : id = head.context.recordID
    · exact Or.inr (Or.inl ⟨hid.symm, by rw [hX', if_pos hid]⟩)
    · rw [hX', if_neg hid]
      cases turn_enqueue h₁ with
      | writes hnew hrec₁ =>
        rw [hrec₁]
        by_cases hc : id = conflict.context.recordID
        · exact Or.inr (Or.inr ⟨hc ▸ hid, hnew, hc.symm, if_pos hc⟩)
        · exact Or.inl (if_neg hc)
      | skips _ _ hrec₁ => exact Or.inl (by rw [hrec₁])

theorem ends_resolveConflict {candidate : ID} {conflict head : Option Envelope}
    (h : (StoreCall.resolveConflict candidate conflict head).body C D T = .ok T') :
    Ends C (Leaves C T (.resolveConflict candidate conflict head)) T T' := by
  rcases conflict with _ | conflict <;> rcases head with _ | head
  iterate 3 cases h
  simp only [StoreCall.body, resolveConflict, Except.bind_eq_ok, Except.pure_eq_ok,
    Except.ok.injEq] at h
  obtain ⟨X₁, h₁, X₂, h₂, rfl⟩ := h
  obtain ⟨hhead, hconflict, hrecords⟩ := records_aside h₁ rfl h₂
  refine ⟨fun e hl => ?_, fun id => ?_, fun row hrow => ?_⟩
  · cases hl with
    | resolveHead => exact Or.inl hhead
    | resolveConflict hne hnew => exact Or.inl (hconflict hne hnew)
    | resolvePending hne hnew =>
      refine Or.inr (List.mem_filter.2 ⟨?_, decide_eq_true hne⟩)
      rw [outbox_replaceHeadTx h₂]
      rcases outbox_enqueue h₁ with ⟨hold, -⟩ | ⟨-, heq⟩
      · exact absurd hnew hold
      · rw [heq]; simp
  · rcases hrecords id with heq | ⟨hid, heq⟩ | ⟨hne, hnew, hid, heq⟩
    · exact Or.inl heq
    · exact Or.inr ⟨head, .resolveHead, hid, heq⟩
    · exact Or.inr ⟨conflict, .resolveConflict hne hnew, hid, heq⟩
  · obtain ⟨hrow, hne⟩ := List.mem_filter.1 hrow
    rw [outbox_replaceHeadTx h₂] at hrow
    rcases outbox_enqueue h₁ with ⟨-, heq⟩ | ⟨hnew, heq⟩ <;> rw [heq] at hrow
    · exact Or.inl hrow
    · refine (List.mem_append.1 hrow).imp_right fun hrow => ?_
      obtain rfl := List.mem_singleton.1 hrow
      exact ⟨conflict, .resolvePending (of_decide_eq_true hne) hnew, rfl⟩

theorem ends_supersede {conflict head : Option Envelope}
    (h : (StoreCall.supersede conflict head).body C D T = .ok T') :
    Ends C (Leaves C T (.supersede conflict head)) T T' := by
  rcases head with _ | head
  · cases h
  simp only [StoreCall.body, supersede, Except.bind_eq_ok] at h
  obtain ⟨X₁, h₁, h₂⟩ := h
  rcases conflict with _ | conflict
  · cases h₁
    have hlookup := lookup_replaceHeadTx h₂
    refine ⟨fun e hl => ?_, fun id => ?_, fun row hrow => ?_⟩
    · cases hl with
      | supersedeHead => exact Or.inl (by rw [HasHead, hlookup, if_pos rfl])
    · rw [hlookup]
      by_cases hid : id = head.context.recordID
      · exact Or.inr ⟨head, .supersedeHead, hid.symm, if_pos hid⟩
      · exact Or.inl (if_neg hid)
    · rw [outbox_replaceHeadTx h₂] at hrow
      exact Or.inl (List.mem_of_mem_filter hrow)
  · have hrec : (X₁.deleteOutboxRecord head.context.recordID).records = X₁.records := rfl
    obtain ⟨hhead, hconflict, hrecords⟩ := records_aside h₁ hrec h₂
    refine ⟨fun e hl => ?_, fun id => ?_, fun row hrow => ?_⟩
    · cases hl with
      | supersedeHead => exact Or.inl hhead
      | supersedeConflict hne hnew => exact Or.inl (hconflict hne hnew)
      | supersedePending hne hnew =>
        refine Or.inr ?_
        rw [HasPending, outbox_replaceHeadTx h₂]
        refine List.mem_filter.2 ⟨?_, decide_eq_true hne⟩
        rcases outbox_enqueue h₁ with ⟨hold, -⟩ | ⟨-, heq⟩
        · exact absurd hnew hold
        · rw [heq]; simp
    · rcases hrecords id with heq | ⟨hid, heq⟩ | ⟨hne, hnew, hid, heq⟩
      · exact Or.inl heq
      · exact Or.inr ⟨head, .supersedeHead, hid, heq⟩
      · exact Or.inr ⟨conflict, .supersedeConflict hne hnew, hid, heq⟩
    · rw [outbox_replaceHeadTx h₂] at hrow
      obtain ⟨hrow, hne⟩ := List.mem_filter.1 hrow
      rcases outbox_enqueue h₁ with ⟨-, heq⟩ | ⟨hnew, heq⟩ <;> rw [heq] at hrow
      · exact Or.inl hrow
      · refine (List.mem_append.1 hrow).imp_right fun hrow => ?_
        obtain rfl := List.mem_singleton.1 hrow
        exact ⟨conflict, .supersedePending (of_decide_eq_true hne) hnew, rfl⟩

/-- A stamped head is written and outbox rows go, as by `AcceptOutbox` and `AcceptImported`. -/
theorem ends_stamped {P : Envelope → Prop} {X₁ : Tables} (hP : ∀ x, P x ↔ x = e)
    (h₁ : T.replaceHeadTx C e = .ok X₁) (hrec : T'.records = X₁.records)
    (hout : T'.outbox ⊆ X₁.outbox) : Ends C P T T' := by
  have hlookup := lookup_replaceHeadTx h₁
  rw [← hrec] at hlookup
  refine ⟨fun x hx => ?_, fun id => ?_, fun row hrow => Or.inl ?_⟩
  · obtain rfl := (hP x).1 hx
    exact Or.inl (by rw [HasHead, hlookup, if_pos rfl])
  · rw [hlookup]
    by_cases hid : id = e.context.recordID
    · exact Or.inr ⟨e, (hP e).2 rfl, hid.symm, if_pos hid⟩
    · exact Or.inl (if_neg hid)
  · exact outbox_replaceHeadTx h₁ ▸ hout hrow

theorem records_dropPendingTx {recordID : ID} {throughRev : ℕ}
    (h : T.dropPendingTx D recordID throughRev = .ok T') :
    T'.records = T.records ∧ T'.outbox ⊆ T.outbox := by
  simp only [dropPendingTx, Except.bind_eq_ok, Except.pure_eq_ok, Except.ok.injEq] at h
  obtain ⟨decoded, -, rfl⟩ := h
  generalize (decoded.filter _).map Prod.fst = drop
  induction drop generalizing T with
  | nil => exact ⟨rfl, List.Subset.refl _⟩
  | cons m drop ih =>
    obtain ⟨hrec, hout⟩ := ih (T := T.deleteOutbox m)
    exact ⟨hrec, List.Subset.trans hout (List.filter_subset_self _)⟩

/-- Installed heads are different records. -/
theorem hasHead_installHeads {heads : List Envelope} {seen : List ID}
    (h : T.installHeads C seen heads = .ok T') :
    (∀ id ∈ seen, T'.records.lookup id = T.records.lookup id) ∧ ∀ e ∈ heads, T'.HasHead C e := by
  induction heads generalizing T seen with
  | nil => cases h; exact ⟨fun _ _ => rfl, fun e he => absurd he List.not_mem_nil⟩
  | cons env heads ih =>
    simp only [installHeads, Except.bind_eq_ok, Except.require_eq_ok, Except.mapError_eq_ok] at h
    obtain ⟨-, hnew, X, hX, h⟩ := h
    obtain ⟨hseen, hall⟩ := ih h
    have hlookup := lookup_replaceHeadTx hX
    refine ⟨fun id hid => ?_, List.forall_mem_cons.2 ⟨?_, hall⟩⟩
    · rw [hseen id (List.mem_cons_of_mem _ hid), hlookup, if_neg]
      rintro rfl
      exact hnew hid
    · rw [HasHead, hseen _ List.mem_cons_self, hlookup, if_pos rfl]

theorem outbox_installHeads {heads : List Envelope} {seen : List ID}
    (h : T.installHeads C seen heads = .ok T') : T'.outbox = T.outbox := by
  induction heads generalizing T seen with
  | nil => cases h; rfl
  | cons env heads ih =>
    simp only [installHeads, Except.bind_eq_ok, Except.mapError_eq_ok] at h
    obtain ⟨-, -, X, hX, h⟩ := h
    exact (ih h).trans (outbox_replaceHeadTx hX)

theorem ends_install {inst : Installation} {announce : Except Error Unit}
    (h : (StoreCall.install inst announce).body C D T = .ok T') :
    Ends C (Leaves C T (.install inst announce)) T T' := by
  have hstores := Stores.body h
  obtain ⟨X₁, X₂, hbefore, hheads, hafter⟩ := install_ok h
  refine ⟨fun e hl => ?_, fun id => ?_, fun row hrow => ?_⟩
  · cases hl with
    | install hmem =>
      refine Or.inl ?_
      rw [HasHead, hafter.records]
      exact (hasHead_installHeads hheads).2 e hmem
  · refine (hstores.records id).imp_right ?_
    rintro ⟨e, he, -, hid, hrow, -⟩
    exact ⟨e, .install he, hid, hrow⟩
  · rw [hafter.outbox] at hrow
    rw [outbox_installHeads hheads, hbefore.outbox] at hrow
    exact Or.inl hrow

/-- What a successful call leaves in the tables. -/
theorem ends_body {call : StoreCall} (h : call.body C D T = .ok T') :
    Ends C (Leaves C T call) T T' := by
  cases call with
  | install inst announce => exact ends_install h
  | applyLocalBatch envs => exact ends_applyLocalBatch h
  | applyRemoteBatch cursor envs => exact ends_applyRemoteBatch h
  | resolveConflict candidate conflict head => exact ends_resolveConflict h
  | acceptOutbox env seq =>
    simp only [StoreCall.body, acceptOutbox, Except.bind_eq_ok, Except.pure_eq_ok,
      Except.ok.injEq] at h
    obtain ⟨X₁, h₁, rfl⟩ := h
    refine ends_stamped (fun x => ⟨fun hx => ?_, fun hx => hx ▸ .acceptOutbox⟩) h₁ rfl
      (List.filter_subset_self _)
    cases hx; rfl
  | acceptImported env seq =>
    simp only [StoreCall.body, acceptImported, Except.bind_eq_ok] at h
    obtain ⟨X₁, h₁, h₂⟩ := h
    obtain ⟨hrec, hout⟩ := records_dropPendingTx h₂
    refine ends_stamped (fun x => ⟨fun hx => ?_, fun hx => hx ▸ .acceptImported⟩) h₁ hrec hout
    cases hx; rfl
  | dropPending recordID throughRev =>
    obtain ⟨hrec, hout⟩ := records_dropPendingTx h
    exact ⟨fun e hl => (by cases hl), fun id => Or.inl (by rw [hrec]), fun row hrow => Or.inl (hout hrow)⟩
  | supersede conflict head => exact ends_supersede h
  | restartHistory history =>
    cases h
    exact ⟨fun e hl => (by cases hl), fun id => Or.inl rfl, fun row hrow => Or.inl hrow⟩

end Tables

end Sshstate.Vault
