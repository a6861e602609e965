/-
  The outcomes that the relay keeps for retries.

  Whatever is called later, a recorded outcome stays as it is, and so do the keys
  of the chain (`Grows`).  Hence a submission that was answered once is answered
  the same way again, unless its writer was revoked meanwhile, and a mutation is
  appended to the log by at most one submission (`putRecord_idempotent`).

  An outcome that says accepted names its log entry.  One that says rejected stays
  even if the envelope is imported later, and that is the only way in which the
  log can come to hold it (`mutations_agree`).
-/
import Sshstate.Proof.Chain
import Sshstate.Proof.Server

namespace Sshstate.Relay.Store

variable {C : Suite}

/-! ## What every operation keeps -/

variable (C) in
/-- Recorded outcomes stay, and so do the devices of the chain. -/
structure Grows (st st' : Store) : Prop where
  mutations : ∀ m row, st.mutations.lookup m = some row → st'.mutations.lookup m = some row
  chain : ∀ v c, st.chain C v = .ok c → ∃ c', st'.chain C v = .ok c' ∧
    ∀ id d, c.device id = some d → ∃ d', c'.device id = some d' ∧ d.Keeps d'

theorem Grows.refl (st : Store) : Grows C st st :=
  ⟨fun _ _ h => h, fun _ c h => ⟨c, h, fun _ d hd => ⟨d, hd, .refl d⟩⟩⟩

theorem Grows.trans {st st' st'' : Store} (h : Grows C st st') (h' : Grows C st' st'') :
    Grows C st st'' := by
  refine ⟨fun m row hm => h'.mutations m row (h.mutations m row hm), fun v c hc => ?_⟩
  obtain ⟨c', hc', hk⟩ := h.chain v c hc
  obtain ⟨c'', hc'', hk'⟩ := h'.chain v c' hc'
  refine ⟨c'', hc'', fun id d hd => ?_⟩
  obtain ⟨d', hd', hdk⟩ := hk id d hd
  obtain ⟨d'', hd'', hdk'⟩ := hk' id d' hd'
  exact ⟨d'', hd'', hdk.trans hdk'⟩

theorem chain_eq_ok {st : Store} {v : ID} {c : Membership.Chain} :
    st.chain C v = .ok c ↔ ∃ row, st.vault = some row ∧ row.genesis.vaultID = v ∧
      Membership.validate C row.genesis st.membership = .ok c := by
  simp only [Store.chain, Except.bind_eq_ok, Except.mapError_eq_ok, Store.genesis]
  rcases st.vault with _ | row
  · simp
  · by_cases hv : row.genesis.vaultID = v <;> simp [hv]

/-- The tables that an operation on records leaves alone. -/
theorem Grows.of_eq {st st' : Store} (hv : st'.vault = st.vault)
    (hm : st'.membership = st.membership)
    (hmut : ∀ m row, st.mutations.lookup m = some row → st'.mutations.lookup m = some row) :
    Grows C st st' :=
  ⟨hmut, fun v c hc => ⟨c, by rw [chain_eq_ok] at hc ⊢; rwa [hv, hm],
    fun _ d hd => ⟨d, hd, .refl d⟩⟩⟩

/-- A row for a mutation that has none is added without touching the others. -/
theorem lookup_insert_of_fresh {ms : AList fun _ : ID => MutationRow} {m m' : ID}
    {row row' : MutationRow} (hfresh : ms.lookup m' = none) (h : ms.lookup m = some row) :
    (ms.insert m' row').lookup m = some row := by
  have hne : m ≠ m' := by rintro rfl; rw [hfresh] at h; cases h
  rwa [AList.lookup_insert_ne hne]

theorem grows_putRecord {st st' : Store} {v : ID} {env : Envelope} {now : String}
    {out : PutOutcome} (h : st.putRecord C v env now = .ok (out, st')) : Grows C st st' := by
  obtain ⟨-, ⟨-, -, -, -, rfl⟩ | ⟨hnone, -, -, rfl⟩ | ⟨hnone, -, -, -, -, rfl⟩⟩ := putRecord_cases h
  · exact .refl _
  · exact .of_eq rfl rfl fun m row hm => lookup_insert_of_fresh hnone hm
  · exact .of_eq rfl rfl fun m row hm => lookup_insert_of_fresh hnone hm

theorem grows_afterImport (st : Store) (item : ImportRecord) (now : String) :
    Grows C st (st.afterImport C item now) := by
  refine .of_eq rfl rfl fun m row hm => ?_
  simp only [afterImport]
  split_ifs with hmem
  · exact hm
  · exact lookup_insert_of_fresh (AList.lookup_eq_none.2 hmem) hm

theorem grows_write {st st' : Store} (h : Write C st st') : Grows C st st' := by
  cases h with
  | put h => exact grows_putRecord h
  | item h =>
    obtain ⟨-, -, ⟨-, -, -, rfl⟩ | ⟨head, -, ⟨-, -, rfl⟩ | ⟨-, -, ⟨-, -, rfl⟩ | ⟨-, -, rfl⟩⟩⟩⟩ :=
      importOne_cases h
    · exact grows_afterImport ..
    · exact .of_eq rfl rfl fun _ _ hm => hm
    · exact .refl _
    · exact .refl _
  | history => exact .of_eq rfl rfl fun _ _ hm => hm

theorem grows_appendMembership {st st' : Store} {v : ID} {ev : SignedMembershipEvent}
    {next : Membership.Chain} (h : st.appendMembership C v ev = .ok (next, st')) :
    Grows C st st' := by
  obtain ⟨chain, hchain, happ, rfl⟩ := appendMembership_ok h
  refine ⟨fun _ _ hm => hm, fun v' c hc => ?_⟩
  obtain ⟨row, hrow, hv, hval⟩ := chain_eq_ok.1 hchain
  obtain ⟨row', hrow', hv', hval'⟩ := chain_eq_ok.1 hc
  obtain rfl : row = row' := Option.some.inj (hrow.symm.trans hrow')
  obtain rfl : chain = c := Except.ok.inj (hval.symm.trans hval')
  exact ⟨next, chain_eq_ok.2 ⟨row, hrow, hv', Membership.validate_concat hval happ⟩,
    fun _ _ hd => Membership.Chain.keeps_of_apply happ hd⟩

theorem grows_operate (st : Store) (op : Operation) : Grows C st (st.operate C op) := by
  cases op with
  | record c =>
    exact call_induct (P := Grows C st) (fun _ _ hw hg => hg.trans (grows_write hw)) (.refl st) c
  | append v ev =>
    simp only [Store.operate]
    rcases h : st.appendMembership C v ev with _ | ⟨next, st'⟩
    · exact .refl st
    · exact grows_appendMembership h

theorem grows_operations (st : Store) (ops : List Operation) :
    Grows C st (ops.foldl (Store.operate C) st) := by
  induction ops generalizing st with
  | nil => exact .refl st
  | cons op ops ih => exact (grows_operate st op).trans (ih _)

/-! ## Retries -/

/-- The error for a writer that was revoked. -/
def revokedWriter (env : Envelope) : Error :=
  .protocol .deviceRevoked "record names writer %s, which was revoked"
    [ID.text env.context.updatedBy]

/-- A submission that passed once passes again, or its writer is revoked. -/
theorem Submission.later {st st' : Store} {v : ID} {env : Envelope} (h : Submission C st v env)
    (hg : Grows C st st') :
    Submission C st' v env ∨
      (∃ chain d, st'.chain C v = .ok chain ∧ chain.device env.context.updatedBy = some d ∧
        d.revoked = true) ∧ ∀ now, st'.putRecord C v env now = .error (revokedWriter env) := by
  obtain ⟨chain, d, hc, hd, -, hverify⟩ := h.writer
  obtain ⟨chain', hc', hkeep⟩ := hg.chain v chain hc
  obtain ⟨d', hd', hk⟩ := hkeep _ d hd
  rw [← hk.verifyKey] at hverify
  rcases hr : d'.revoked with _ | _
  · exact Or.inl ⟨h.valid, h.vault, h.size, chain', d', hc', hd', hr, hverify⟩
  · refine Or.inr ⟨⟨chain', d', hc', hd', hr⟩, fun now => ?_⟩
    have hvalid := Envelope.validate_eq_ok (u := ()).2 h.valid
    have hdigest := (Envelope.digestE_eq_ok C).2 ⟨h.valid.signature, rfl⟩
    simp [putRecord, checkSubmission, hvalid, hdigest, h.vault, h.size, Except.require,
      Except.mapError, verifyRecordSignature, hc', hd', hr, revokedWriter]

/-- An answer agrees with the recorded outcome. -/
structure Answers (row : MutationRow) (out : PutOutcome) : Prop where
  accepted : out.accepted = row.accepted
  seq : out.seq = row.seq.getD 0
  digest : out.digest = row.digest
  code : out.code = row.code

/-- The outcome of a submission is on record. -/
theorem exists_recorded {st st' : Store} {v : ID} {env : Envelope} {now : String}
    {out : PutOutcome} (h : st.putRecord C v env now = .ok (out, st')) :
    ∃ row, st'.mutations.lookup env.context.mutationID = some row ∧
      row.requestDigest = env.digest C ∧ Answers row out := by
  obtain ⟨-, ⟨row, hrow, hreq, rfl, rfl⟩ | ⟨-, -, rfl, rfl⟩ | ⟨-, -, -, -, rfl, rfl⟩⟩ :=
    putRecord_cases h
  · exact ⟨row, hrow, hreq, rfl, rfl, rfl, rfl⟩
  · exact ⟨_, AList.lookup_insert _, rfl, rfl, rfl, rfl, rfl⟩
  · exact ⟨_, AList.lookup_insert _, rfl, rfl, rfl, rfl, rfl⟩

theorem putRecord_of_recorded {st : Store} {v : ID} {env : Envelope} {row : MutationRow}
    (hsub : Submission C st v env)
    (hrow : st.mutations.lookup env.context.mutationID = some row)
    (hreq : row.requestDigest = env.digest C) (now : String) :
    ∃ out, st.putRecord C v env now = .ok (out, st) ∧ Answers row out := by
  have hcheck := checkSubmission_eq_ok.2 ⟨hsub, rfl⟩
  rcases ha : row.accepted with _ | _
  · exact ⟨_, by simp [putRecord, hcheck, replayOutcome, hrow, hreq, ha]; rfl,
      ha.symm, rfl, rfl, rfl⟩
  · exact ⟨_, by simp [putRecord, hcheck, replayOutcome, hrow, hreq, ha]; rfl,
      ha.symm, rfl, rfl, rfl⟩

/-- The error for a mutation id that was used for other content. -/
def reusedMutation (env : Envelope) : Error :=
  .protocol .idempotencyMismat "mutation %s was already used for different content"
    [ID.text env.context.mutationID]

theorem putRecord_of_other {st : Store} {v : ID} {env : Envelope} {row : MutationRow}
    (hrow : st.mutations.lookup env.context.mutationID = some row)
    (hreq : row.requestDigest ≠ env.digest C) (now : String) :
    st.putRecord C v env now = .error (reusedMutation env) ∨
      ∃ err, st.checkSubmission C v env = .error err ∧ st.putRecord C v env now = .error err := by
  rcases hc : st.checkSubmission C v env with err | digest
  · exact Or.inr ⟨err, rfl, by simp [putRecord, hc]⟩
  · obtain ⟨-, rfl⟩ := checkSubmission_eq_ok.1 hc
    exact Or.inl (by simp [putRecord, hc, replayOutcome, hrow, hreq, reusedMutation])

/-- A submission for a recorded mutation changes nothing. -/
theorem put_of_recorded {st : Store} {v : ID} {env : Envelope} {row : MutationRow}
    (hrow : st.mutations.lookup env.context.mutationID = some row) (now : String) :
    st.operate C (.record (.put v env now)) = st := by
  simp only [Store.operate, Store.call]
  rcases h : st.putRecord C v env now with _ | ⟨out, st'⟩
  · rfl
  · obtain ⟨-, ⟨-, -, -, -, rfl⟩ | ⟨hnone, -⟩ | ⟨hnone, -⟩⟩ := putRecord_cases h
    · rfl
    · rw [hrow] at hnone; cases hnone
    · rw [hrow] at hnone; cases hnone

variable (C) in
/-- How many entries an operation appends to the log as a submission of `m`. -/
def appendedBy (m : ID) (st : Store) : Operation → ℕ
  | .record (.put v env now) => if env.context.mutationID = m then
      (st.operate C (.record (.put v env now))).log.length - st.log.length else 0
  | _ => 0

variable (C) in
/-- How many entries the submissions of `m` append to the log in a run. -/
def appendedFor (m : ID) : Store → List Operation → ℕ
  | _, [] => 0
  | st, op :: ops => appendedBy C m st op + appendedFor m (st.operate C op) ops

theorem appendedBy_of_recorded {m : ID} {row : MutationRow} {st : Store}
    (h : st.mutations.lookup m = some row) (op : Operation) : appendedBy C m st op = 0 := by
  unfold appendedBy
  split
  next v env now =>
    split_ifs with hm
    · rw [put_of_recorded (hm ▸ h)]; simp
    · rfl
  next => rfl

theorem appendedFor_of_recorded {m : ID} {row : MutationRow} : ∀ {st : Store} (ops : List Operation),
    st.mutations.lookup m = some row → appendedFor C m st ops = 0
  | _, [], _ => rfl
  | st, op :: ops, h => by
    rw [appendedFor, appendedBy_of_recorded h,
      appendedFor_of_recorded ops ((grows_operate st op).mutations m row h)]

/-- A submission appends at most one entry, and then its outcome is recorded. -/
theorem appendedBy_cases (m : ID) (st : Store) (op : Operation) :
    appendedBy C m st op = 0 ∨ appendedBy C m st op = 1 ∧
      ∃ row, (st.operate C op).mutations.lookup m = some row := by
  unfold appendedBy
  split
  next v env now =>
    split_ifs with hm
    · simp only [Store.operate, Store.call]
      rcases hp : st.putRecord C v env now with _ | ⟨out, st'⟩
      · exact Or.inl (Nat.sub_self _)
      · obtain ⟨row, hrow, -⟩ := exists_recorded hp
        rcases putRecord_tables hp with hk | ha
        · exact Or.inl (by simp [hk.log])
        · exact Or.inr ⟨by simp [ha.log], row, hm ▸ hrow⟩
    · exact Or.inl rfl
  next => exact Or.inl rfl

theorem appendedFor_le_one (m : ID) : ∀ (st : Store) (ops : List Operation),
    appendedFor C m st ops ≤ 1
  | _, [] => Nat.zero_le _
  | st, op :: ops => by
    rw [appendedFor]
    rcases appendedBy_cases (C := C) m st op with h | ⟨h, row, hrow⟩
    · have ih := appendedFor_le_one m (st.operate C op) ops
      omega
    · rw [h, appendedFor_of_recorded ops hrow]

/-- **Main result.**  Once a submission was answered, every later one of the same
    envelope is answered the same way, or refused because its writer was revoked;
    one with the same mutation id and other content is refused; none of them changes
    a table; and in no run do the submissions of one mutation id append more than
    one log entry. -/
theorem putRecord_idempotent (C : Suite) :
    (∀ {st st₁ : Store} {v : ID} {env : Envelope} {now : String} {out : PutOutcome},
      st.putRecord C v env now = .ok (out, st₁) → ∀ ops : List Operation,
      let st₂ := ops.foldl (Store.operate C) st₁
      (∀ now',
        ((∃ out', st₂.putRecord C v env now' = .ok (out', st₂) ∧ out'.accepted = out.accepted ∧
            out'.seq = out.seq ∧ out'.digest = out.digest ∧ out'.code = out.code) ∨
          (∃ chain d, st₂.chain C v = .ok chain ∧ chain.device env.context.updatedBy = some d ∧
            d.revoked = true) ∧ st₂.putRecord C v env now' = .error (revokedWriter env)) ∧
        st₂.operate C (.record (.put v env now')) = st₂) ∧
      ∀ v' env' now', env'.context.mutationID = env.context.mutationID →
        env'.digest C ≠ env.digest C →
        (st₂.putRecord C v' env' now' = .error (reusedMutation env') ∨
          ∃ err, st₂.checkSubmission C v' env' = .error err ∧
            st₂.putRecord C v' env' now' = .error err) ∧
        st₂.operate C (.record (.put v' env' now')) = st₂) ∧
    ∀ m st ops, appendedFor C m st ops ≤ 1 := by
  refine ⟨fun {st st₁ v env now out} h ops => ⟨fun now' => ⟨?_, ?_⟩, ?_⟩, appendedFor_le_one⟩
  all_goals
    obtain ⟨row, hrow, hreq, hans⟩ := exists_recorded h
    have hg := grows_operations (C := C) st₁ ops
    have hrow₂ := hg.mutations _ row hrow
  · rcases (putRecord_cases h).1.later ((grows_putRecord h).trans hg) with hsub | ⟨hrev, herr⟩
    · obtain ⟨out', hout', ha⟩ := putRecord_of_recorded hsub hrow₂ hreq now'
      exact Or.inl ⟨out', hout', ha.accepted.trans hans.accepted.symm, ha.seq.trans hans.seq.symm,
        ha.digest.trans hans.digest.symm, ha.code.trans hans.code.symm⟩
    · exact Or.inr ⟨hrev, herr now'⟩
  · exact put_of_recorded hrow₂ now'
  · intro v' env' now' hm hd
    rw [← hm] at hrow₂
    exact ⟨putRecord_of_other hrow₂ (by rw [hreq]; exact hd.symm) now',
      put_of_recorded hrow₂ now'⟩

/-- The sample vault on a relay, and the creation of a host by `0a`. -/
def sampleRelay : Store :=
  Store.created Sample.genesis [Sample.root (Sample.id 0x0a) [10] "A"] "h" historyCreated
def hostCreation : Envelope :=
  Sample.version (Sample.id 0x0a) [10] (Sample.id 0x05) (Sample.id 0x21) 1 none

/-- The relay after the creation was submitted, and after `0b` was enrolled. -/
def withHost : PutOutcome × Store :=
  (sampleRelay.putRecord sample (Sample.id 0x01) hostCreation "t0").get (by decide)
def withPair : Store := withHost.2.operate sample (.append (Sample.id 0x01) Sample.enrolment)

/-- The creation, submitted again after a device was enrolled. -/
theorem putRecord_idempotent_enrolled :
    withHost.1.accepted = true ∧ ∃ out',
      withPair.putRecord sample (Sample.id 0x01) hostCreation "t1" = .ok (out', withPair) ∧
        out'.accepted = true ∧ out'.seq = withHost.1.seq := by
  have hacc : withHost.1.accepted = true := by decide
  have hput : sampleRelay.putRecord sample (Sample.id 0x01) hostCreation "t0" =
      .ok (withHost.1, withHost.2) := Except.eq_ok_get (by decide)
  obtain ⟨hsame | ⟨-, herr⟩, -⟩ := ((putRecord_idempotent sample).1 hput
    [.append (Sample.id 0x01) Sample.enrolment]).1 "t1"
  · obtain ⟨out', hout', ha, hseq, -⟩ := hsame
    exact ⟨hacc, out', hout', ha.trans hacc, hseq⟩
  · have hok : (withPair.putRecord sample (Sample.id 0x01) hostCreation "t1").toBool = true := by
      decide
    have herr' : withPair.putRecord sample (Sample.id 0x01) hostCreation "t1" =
        .error (revokedWriter hostCreation) := herr
    rw [herr'] at hok; cases hok

/-! ## Outcomes and the log -/

variable (C) in
/-- The envelopes that a call imports. -/
def imports (st : Store) : Call → List Envelope
  | .put .. => []
  | .importBatch v req now freshID =>
    match st.importRecords C v req now freshID with
    | .error _ => []
    | .ok (outs, _) => (req.records.filter fun item => outs.any fun o =>
        o.recordID = item.envelope.context.recordID ∧ o.outcome = .imported).map (·.envelope)

variable (C) in
/-- The envelopes that a run imports. -/
def importedIn : Store → List Call → List Envelope
  | _, [] => []
  | st, c :: cs => st.imports C c ++ importedIn (st.call C c) cs

variable (C) in
/-- A log entry holds the envelope of a recorded outcome. -/
def Holds (m : ID) (row : MutationRow) (e : LogRow) : Prop :=
  e.envelope.context.mutationID = m ∧ e.envelope.digest C = row.requestDigest

variable (C) in
/-- The outcomes agree with the log, up to rejected envelopes among `imported`. -/
structure Agree (imported : List Envelope) (st : Store) : Prop where
  recorded : ∀ e ∈ st.log, ∃ row, st.mutations.lookup e.envelope.context.mutationID = some row
  accepted : ∀ m row, st.mutations.lookup m = some row → row.accepted = true →
    ∃ e ∈ st.log, Holds C m row e ∧ row.seq = some e.seq
  rejected : ∀ m row, st.mutations.lookup m = some row → row.accepted = false →
    ∀ e ∈ st.log, Holds C m row e → e.envelope ∈ imported

theorem Agree.mono {imported imported' : List Envelope} {st : Store} (h : Agree C imported st)
    (hsub : imported ⊆ imported') : Agree C imported' st :=
  ⟨h.recorded, h.accepted, fun m row hm hr e he hh => hsub (h.rejected m row hm hr e he hh)⟩

theorem Agree.of_eq {imported : List Envelope} {st st' : Store} (h : Agree C imported st)
    (hlog : st'.log = st.log) (hm : st'.mutations = st.mutations) : Agree C imported st' :=
  ⟨by rw [hlog, hm]; exact h.recorded, by rw [hlog, hm]; exact h.accepted,
    by rw [hlog, hm]; exact h.rejected⟩

/-- The row of a mutation, after one was added. -/
theorem lookup_insert_cases {ms : AList fun _ : ID => MutationRow} {m m' : ID}
    {row row' : MutationRow} (h : (ms.insert m' row').lookup m = some row) :
    (m = m' ∧ row = row') ∨ (m ≠ m' ∧ ms.lookup m = some row) := by
  by_cases hm : m = m'
  · subst hm
    rw [AList.lookup_insert] at h
    exact Or.inl ⟨rfl, (Option.some.inj h).symm⟩
  · rw [AList.lookup_insert_ne hm] at h
    exact Or.inr ⟨hm, h⟩

theorem Agree.reject {imported : List Envelope} {st : Store} {env : Envelope} {now : String}
    (h : Agree C imported st) (hfresh : st.mutations.lookup env.context.mutationID = none) :
    Agree C imported (st.afterReject C env now) := by
  refine ⟨fun e he => ?_, fun m row hm ha => ?_, fun m row hm ha e he hh => ?_⟩
  · obtain ⟨row, hrow⟩ := h.recorded e he
    exact ⟨row, lookup_insert_of_fresh hfresh hrow⟩
  · rcases lookup_insert_cases hm with ⟨rfl, rfl⟩ | ⟨-, hm⟩
    · cases ha
    · exact h.accepted m row hm ha
  · rcases lookup_insert_cases hm with ⟨rfl, rfl⟩ | ⟨-, hm⟩
    · -- no entry of the log has this mutation
      obtain ⟨row, hrow⟩ := h.recorded e he
      rw [hh.1, hfresh] at hrow; cases hrow
    · exact h.rejected m row hm ha e he hh

/-- An entry for a mutation without a row is appended together with its row. -/
theorem Agree.accept {imported : List Envelope} {st st' : Store} {env : Envelope}
    {row : MutationRow} (h : Agree C imported st)
    (hfresh : st.mutations.lookup env.context.mutationID = none)
    (hlog : st'.log = st.log ++ [entry env (st.currentSeq + 1)])
    (hm : st'.mutations = st.mutations.insert env.context.mutationID row)
    (hacc : row.accepted = true) (hreq : row.requestDigest = env.digest C)
    (hseq : row.seq = some (st.currentSeq + 1)) : Agree C imported st' := by
  refine ⟨fun e he => ?_, fun m r hr ha => ?_, fun m r hr ha e he hh => ?_⟩
  all_goals rw [hm] at *
  · rw [hlog] at he
    rcases List.mem_append.1 he with he | he
    · obtain ⟨r, hr⟩ := h.recorded e he
      exact ⟨r, lookup_insert_of_fresh hfresh hr⟩
    · rw [List.mem_singleton.1 he]; exact ⟨row, AList.lookup_insert _⟩
  · rw [hlog]
    rcases lookup_insert_cases hr with ⟨rfl, rfl⟩ | ⟨-, hr⟩
    · exact ⟨entry env (st.currentSeq + 1), by simp, ⟨rfl, hreq.symm⟩, hseq⟩
    · obtain ⟨e, he, hh⟩ := h.accepted m r hr ha
      exact ⟨e, List.mem_append_left _ he, hh⟩
  · rcases lookup_insert_cases hr with ⟨rfl, rfl⟩ | ⟨hne, hr⟩
    · rw [hacc] at ha; cases ha
    · rw [hlog] at he
      rcases List.mem_append.1 he with he | he
      · exact h.rejected m r hr ha e he hh
      · rw [List.mem_singleton.1 he] at hh; exact absurd hh.1.symm hne

theorem Agree.put {imported : List Envelope} {st st' : Store} {v : ID} {env : Envelope}
    {now : String} {out : PutOutcome} (h : Agree C imported st)
    (hp : st.putRecord C v env now = .ok (out, st')) : Agree C imported st' := by
  obtain ⟨hsub, ⟨-, -, -, -, rfl⟩ | ⟨hnone, -, -, rfl⟩ | ⟨hnone, -, -, -, -, rfl⟩⟩ :=
    putRecord_cases hp
  · exact h
  · exact h.reject hnone
  · exact h.accept hnone rfl rfl rfl rfl rfl

theorem Agree.afterImport {imported : List Envelope} {st : Store} {item : ImportRecord} {now : String}
    (h : Agree C imported st) : Agree C (item.envelope :: imported) (st.afterImport C item now) := by
  have h' := h.mono (List.subset_cons_self item.envelope imported)
  by_cases hmem : item.envelope.context.mutationID ∈ st.mutations
  · -- the row stays, whatever it says
    have hm : (st.afterImport C item now).mutations = st.mutations := if_pos hmem
    refine ⟨fun e he => ?_, fun m row hr ha => ?_, fun m row hr ha e he hh => ?_⟩
    · rw [hm]
      rcases List.mem_append.1 he with he | he
      · exact h.recorded e he
      · rw [List.mem_singleton.1 he]
        exact Option.isSome_iff_exists.1 (AList.lookup_isSome.2 hmem)
    · obtain ⟨e, he, hh⟩ := h.accepted m row (hm ▸ hr) ha
      exact ⟨e, List.mem_append_left _ he, hh⟩
    · rcases List.mem_append.1 he with he | he
      · exact h'.rejected m row (hm ▸ hr) ha e he hh
      · rw [List.mem_singleton.1 he]; exact List.mem_cons_self
  · exact h'.accept (AList.lookup_eq_none.2 hmem) rfl (if_neg hmem) rfl rfl rfl

theorem Agree.call {imported : List Envelope} {st : Store} (h : Agree C imported st) (c : Call) :
    Agree C (st.imports C c ++ imported) (st.call C c) := by
  cases c with
  | put v env now =>
    simp only [Store.call, imports, List.nil_append]
    rcases hp : st.putRecord C v env now with _ | ⟨out, st'⟩
    · exact h
    · exact h.put hp
  | importBatch v req now freshID =>
    simp only [Store.call, imports]
    rcases hi : st.importRecords C v req now freshID with _ | ⟨outs, st'⟩
    · exact h
    · obtain ⟨chain, row, st'', -, -, hfold, hst⟩ := importRecords_eq_ok hi
      -- the envelopes imported by the turns so far
      have h'' := Except.foldlM_induct (P := fun acc : List ImportOutcome × Store =>
        Agree C ((req.records.filter fun item => acc.1.any fun o =>
          o.recordID = item.envelope.context.recordID ∧ o.outcome = .imported).map (·.envelope) ++
          imported) acc.2) hfold (h.mono (List.subset_append_right ..)) ?_
      · rcases hst with ⟨-, -, rfl⟩ | ⟨-, rfl⟩
        · exact h''.of_eq rfl rfl
        · exact h''
      · rintro item hitem ⟨os, s⟩ ⟨os', s'⟩ hx hP
        obtain ⟨-, o, hone, rfl⟩ := importItem_eq_ok hx
        have hmono : Agree C ((req.records.filter fun item => (os ++ [o]).any fun o =>
            o.recordID = item.envelope.context.recordID ∧ o.outcome = .imported).map (·.envelope) ++
            imported) s := hP.mono (List.append_subset.2 ⟨fun e he => ?_, List.subset_append_right ..⟩)
        · obtain ⟨-, hid, ⟨ho, -, -, hs'⟩ | ⟨head, -, ⟨-, -, hs'⟩ | ⟨-, -, ⟨-, -, hs'⟩ | ⟨-, -, hs'⟩⟩⟩⟩ :=
            importOne_cases hone
          · obtain rfl : s' = s.afterImport C item now := hs'
            refine hmono.afterImport.mono fun e he => ?_
            rcases List.mem_cons.1 he with rfl | he
            · exact List.mem_append_left _ (List.mem_map.2 ⟨item, List.mem_filter.2
                ⟨hitem, by simp [hid, ho]⟩, rfl⟩)
            · exact he
          · obtain rfl : s' = _ := hs'
            exact hmono.of_eq rfl rfl
          · obtain rfl : s' = s := hs'
            exact hmono
          · obtain rfl : s' = s := hs'
            exact hmono
        · obtain ⟨i, hi, rfl⟩ := List.mem_map.1 he
          obtain ⟨hi, hany⟩ := List.mem_filter.1 hi
          exact List.mem_append_left _ (List.mem_map.2 ⟨i, List.mem_filter.2
            ⟨hi, by rw [List.any_append, hany]; rfl⟩, rfl⟩)

theorem Agree.calls {imported : List Envelope} : ∀ {st : Store} (calls : List Call),
    Agree C imported st → Agree C (importedIn C st calls ++ imported) (calls.foldl (Store.call C) st)
  | _, [], h => h
  | st, c :: cs, h => by
    refine (Agree.calls cs (h.call c)).mono fun e he => ?_
    simp only [importedIn, List.mem_append] at he ⊢
    rcases he with he | he | he
    · exact Or.inl (Or.inr he)
    · exact Or.inl (Or.inl he)
    · exact Or.inr he

theorem Agree.created (g : Genesis) (events : List SignedMembershipEvent) (history origin : String) :
    Agree C [] (Store.created g events history origin) :=
  ⟨by simp [Store.created], by simp [Store.created], by simp [Store.created]⟩

/-- **Main result.**  After any submissions and imports, an outcome that says
    accepted names a log entry that holds its envelope, and one that says rejected
    has no such entry, unless a call imported the envelope. -/
theorem mutations_agree (C : Suite) (g : Genesis) (events : List SignedMembershipEvent)
    (history origin : String) (calls : List Call) {m : ID} {row : MutationRow}
    (hrow : (calls.foldl (Store.call C) (Store.created g events history origin)).mutations.lookup m =
      some row) :
    let st := calls.foldl (Store.call C) (Store.created g events history origin)
    (row.accepted = true → ∃ e ∈ st.log, Holds C m row e ∧ row.seq = some e.seq) ∧
    (row.accepted = false → ∀ e ∈ st.log, Holds C m row e →
      e.envelope ∈ importedIn C (Store.created g events history origin) calls) := by
  have h := (Agree.created (C := C) g events history origin).calls calls
  exact ⟨h.accepted m row hrow, fun ha e he hh => by
    simpa using h.rejected m row hrow ha e he hh⟩

/-- An edit of the host, submitted to a relay that does not hold the host, and then
    imported there. -/
def hostEdit : Envelope :=
  Sample.version (Sample.id 0x0a) [10] (Sample.id 0x05) (Sample.id 0x22) 2
    (some (hostCreation.digest sample))
def rejectedThenImported : List Call :=
  [.put (Sample.id 0x01) hostEdit "t0",
   .importBatch (Sample.id 0x01)
    { history := "h", records := [{ envelope := hostEdit, ancestors := [] }] } "t0" "h2"]

/-- The edit is in the log and its outcome says rejected. -/
theorem rejected_in_log :
    let st := rejectedThenImported.foldl (Store.call sample) sampleRelay
    ∃ row, st.mutations.lookup (Sample.id 0x22) = some row ∧
      ¬ (row.accepted = true ↔ ∃ e ∈ st.log, Holds sample (Sample.id 0x22) row e) := by
  have hrow : (((rejectedThenImported.foldl (Store.call sample) sampleRelay).mutations.lookup
      (Sample.id 0x22)).any fun row => !row.accepted && decide
        (row.requestDigest = hostEdit.digest sample)) = true := by decide
  obtain ⟨row, hlook, hrej⟩ := (Option.any_eq_true _ _).1 hrow
  simp only [Bool.and_eq_true, Bool.not_eq_true', decide_eq_true_eq] at hrej
  refine ⟨row, hlook, fun hiff => ?_⟩
  have hlog : entry hostEdit 1 ∈
      (rejectedThenImported.foldl (Store.call sample) sampleRelay).log := by decide
  have hacc := hiff.2 ⟨_, hlog, by decide, hrej.2.symm⟩
  rw [hrej.1] at hacc; cases hacc

/-- The edit is in the log because it was imported. -/
theorem mutations_agree_imported :
    let st := rejectedThenImported.foldl (Store.call sample) sampleRelay
    ∃ row, st.mutations.lookup (Sample.id 0x22) = some row ∧
      ∀ e ∈ st.log, Holds sample (Sample.id 0x22) row e →
        e.envelope ∈ importedIn sample sampleRelay rejectedThenImported := by
  have hrow : (((rejectedThenImported.foldl (Store.call sample) sampleRelay).mutations.lookup
      (Sample.id 0x22)).any fun row => !row.accepted) = true := by decide
  obtain ⟨row, hlook, hrej⟩ := (Option.any_eq_true _ _).1 hrow
  exact ⟨row, hlook, (mutations_agree sample _ _ _ _ rejectedThenImported hlook).2
    (by simpa using hrej)⟩

end Sshstate.Relay.Store
