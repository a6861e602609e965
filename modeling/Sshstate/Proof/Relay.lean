/-
  What the relay's write operations do, and the invariants of its tables.

  `putRecord_cases` says once everything a successful `PutRecord` can do: answer
  a retry from the recorded outcome, record a rejection, or append a version.
  From it and the corresponding lemma for imports follow

  * `calls_consistent`: after any calls, the log is numbered 1, 2, …, n, every
    head row is the newest log entry of its record, and the ancestors of every
    entry are remembered;
  * `puts_chained`: with submissions only, the entries of a record carry the
    revisions 1, 2, 3, … and each names the digest of the one before it.
-/
import Sshstate.Relay.History

namespace Sshstate.Relay

variable {C : Suite}

namespace Store

/-! ## Small facts about the tables -/

@[simp] theorem rememberAncestors_log (st : Store) (id : ID) (ds : List Bytes) :
    (st.rememberAncestors id ds).log = st.log := rfl
@[simp] theorem rememberAncestors_heads (st : Store) (id : ID) (ds : List Bytes) :
    (st.rememberAncestors id ds).heads = st.heads := rfl
@[simp] theorem rememberAncestors_mutations (st : Store) (id : ID) (ds : List Bytes) :
    (st.rememberAncestors id ds).mutations = st.mutations := rfl

/-- The remembered digests are the old ones and the nonempty new ones. -/
theorem mem_rememberAncestors {st : Store} {id : ID} {ds : List Bytes} {x : ID × Bytes} :
    x ∈ (st.rememberAncestors id ds).ancestors ↔
      x ∈ st.ancestors ∨ x.1 = id ∧ x.2 ∈ ds ∧ x.2 ≠ [] := by
  unfold rememberAncestors
  generalize st.ancestors = acc
  induction ds generalizing acc with
  | nil => simp
  | cons d ds ih =>
    simp only [List.foldl_cons, ih, List.mem_cons]
    split_ifs with hd
    · subst hd
      constructor
      · rintro (h | ⟨h1, h2, h3⟩)
        · exact Or.inl h
        · exact Or.inr ⟨h1, Or.inr h2, h3⟩
      · rintro (h | ⟨h1, h2 | h2, h3⟩)
        · exact Or.inl h
        · exact absurd h2 h3
        · exact Or.inr ⟨h1, h2, h3⟩
    · rw [List.mem_insert_iff]
      constructor
      · rintro ((rfl | h) | ⟨h1, h2, h3⟩)
        · exact Or.inr ⟨rfl, Or.inl rfl, hd⟩
        · exact Or.inl h
        · exact Or.inr ⟨h1, Or.inr h2, h3⟩
      · rintro (h | ⟨h1, h2 | h2, h3⟩)
        · exact Or.inl (Or.inr h)
        · exact Or.inl (Or.inl (Prod.ext h1 h2))
        · exact Or.inr ⟨h1, h2, h3⟩

/-- The log entry of an envelope. -/
def entry (env : Envelope) (seq : ℕ) : LogRow :=
  { seq := seq, recordID := env.context.recordID, envelope := env }

variable (C) in
/-- The head row that agrees with a log entry. -/
def headRow (e : LogRow) : HeadRow :=
  { rev := e.envelope.context.rev, digest := e.envelope.digest C, seq := e.seq,
    deleted := e.envelope.context.deleted, envelope := e.envelope }

/-- A store numbered from 1 has as many entries as its current number. -/
theorem currentSeq_eq {st : Store} (h : st.log.map LogRow.seq = List.range' 1 st.log.length) :
    st.currentSeq = st.log.length := by
  have hmax : ∀ n, (List.range' 1 n).foldr max 0 = n := by
    intro n
    induction n with
    | zero => rfl
    | succ n ih =>
      rw [List.range'_concat, List.foldr_append]
      have hcomm : ∀ (l : List ℕ) (a : ℕ), l.foldr max a = max (l.foldr max 0) a := by
        intro l a
        induction l with
        | nil => simp
        | cons b l ih => simp only [List.foldr_cons, ih, max_assoc]
      rw [hcomm, ih]; simp; omega
  rw [currentSeq, h, hmax]

theorem counterToInt_eq_ok {c n : ℕ} {field : String} :
    counterToInt c field = .ok n ↔ c ≤ maxInt64 ∧ n = c := by
  simp only [counterToInt, Except.require_bind_eq_ok, Except.pure_eq_ok, Except.ok.injEq]
  exact and_congr_right fun _ => eq_comm

theorem nextSeq_eq_ok {st : Store} {n : ℕ} :
    st.nextSeq = .ok n ↔ st.currentSeq + 1 ≤ maxInt64 ∧ n = st.currentSeq + 1 := by
  simp only [nextSeq, Except.require_bind_eq_ok, Except.pure_eq_ok, Except.ok.injEq]
  exact and_congr_right fun _ => eq_comm

/-! ## What a submission does -/

variable (C) in
/-- What `PutRecord` has established about an envelope before its transaction. -/
structure Submission (st : Store) (vaultID : ID) (env : Envelope) : Prop where
  valid : env.Valid
  vault : env.context.vaultID = vaultID
  size : (C.canonical (.envelope env)).length ≤ maxObjectBytes
  writer : ∃ chain d, st.chain C vaultID = .ok chain ∧
    chain.device env.context.updatedBy = some d ∧ d.revoked = false ∧
    C.verify d.verifyKey recordSignatureDomain (env.signingInput C) env.signature = true

theorem verifyRecordSignature_eq_ok {st : Store} {v : ID} {env : Envelope} {u : Unit} :
    st.verifyRecordSignature C v env = .ok u ↔ ∃ chain d, st.chain C v = .ok chain ∧
      chain.device env.context.updatedBy = some d ∧ d.revoked = false ∧
      C.verify d.verifyKey recordSignatureDomain (env.signingInput C) env.signature = true := by
  unfold verifyRecordSignature
  rw [Except.bind_eq_ok]
  refine exists_congr fun chain => ?_
  rcases hd : chain.device env.context.updatedBy with _ | d
  · simp
  · simp [Except.require_bind_eq_ok]

theorem checkSubmission_eq_ok {st : Store} {v : ID} {env : Envelope} {d : Bytes} :
    st.checkSubmission C v env = .ok d ↔ Submission C st v env ∧ d = env.digest C := by
  simp only [checkSubmission, Except.bind_eq_ok, Except.mapError_eq_ok, Envelope.validate_eq_ok,
    Except.require_eq_ok, Envelope.digestE_eq_ok, verifyRecordSignature_eq_ok, Except.pure_eq_ok,
    Except.ok.injEq]
  constructor
  · rintro ⟨-, hv, -, hid, -, hs, d', ⟨-, rfl⟩, -, hw, rfl⟩
    exact ⟨⟨hv, hid, hs, hw⟩, rfl⟩
  · rintro ⟨⟨hv, hid, hs, hw⟩, rfl⟩
    exact ⟨(), hv, (), hid, (), hs, _, ⟨hv.signature, rfl⟩, (), hw, rfl⟩

/-- A submission that follows the head of its record. -/
def Follows (C : Suite) (env : Envelope) (head : Option Envelope) : Prop :=
  match head with
  | none => env.context.rev = 1
  | some head => env.context.rev = counterSucc head.context.rev ∧ head.signature ≠ [] ∧
      env.context.parentDigest.getD [] = head.digest C

theorem parentMismatch_eq_none {env : Envelope} {head : Option Envelope} :
    parentMismatch C env head = none ↔ Follows C env head := by
  rcases head with _ | head
  · simp [parentMismatch, Follows]
  · simp only [parentMismatch, Follows, ite_not]
    by_cases hrev : env.context.rev = counterSucc head.context.rev
    · rw [if_pos hrev]
      by_cases hsig : head.signature = []
      · simp [Envelope.digestE, Except.require, hsig, hrev]
      · simp [Envelope.digestE, Except.require, hsig, hrev, bytesEqual]
    · simp [hrev]

variable (C) in
/-- The store after a submission was rejected. -/
def afterReject (st : Store) (env : Envelope) (now : String) : Store :=
  let row : MutationRow :=
    { requestDigest := env.digest C, accepted := false, code := some .parentMismatch, seq := none,
      digest := none, recordID := env.context.recordID, createdAt := now }
  { st with mutations := st.mutations.insert env.context.mutationID row }

variable (C) in
/-- The store after a submission was accepted. -/
def afterAccept (st : Store) (env : Envelope) (now : String) : Store :=
  let seq := st.currentSeq + 1
  let row : MutationRow :=
    { requestDigest := env.digest C, accepted := true, code := none, seq := some seq,
      digest := some (env.digest C), recordID := env.context.recordID, createdAt := now }
  let st := (st.insertVersion env (env.digest C) seq env.context.rev).rememberAncestors
    env.context.recordID [env.digest C, env.context.parentDigest.getD []]
  { st with mutations := st.mutations.insert env.context.mutationID row }

/-- The answers `PutRecord` gives to a submission it has not seen before. -/
def rejection (head : Option Envelope) : PutOutcome :=
  { accepted := false, seq := 0, digest := none, code := some .parentMismatch, head := head,
    replayed := false }
def acceptance (digest : Bytes) (seq : ℕ) : PutOutcome :=
  { accepted := true, seq := seq, digest := some digest, code := none, head := none,
    replayed := false }

theorem submit_cases {st st' : Store} {v : ID} {env : Envelope} {now : String} {out : PutOutcome}
    (h : st.submit C v env (env.digest C) now = .ok (out, st')) :
    (¬ Follows C env (st.head env.context.recordID) ∧
      out = rejection (st.head env.context.recordID) ∧ st' = st.afterReject C env now) ∨
    (Follows C env (st.head env.context.recordID) ∧ st.currentSeq + 1 ≤ maxInt64 ∧
      env.context.rev ≤ maxInt64 ∧ out = acceptance (env.digest C) (st.currentSeq + 1) ∧
      st' = st.afterAccept C env now) := by
  rw [submit, Except.bind_eq_ok] at h
  obtain ⟨-, -, h⟩ := h
  rcases hm : parentMismatch C env (st.head env.context.recordID) with _ | reason
  · simp only [hm, Except.bind_eq_ok, nextSeq_eq_ok, counterToInt_eq_ok, recordOutcome, if_true,
      Functor.map, Except.map] at h
    obtain ⟨_, ⟨hseq, rfl⟩, _, ⟨hrev, rfl⟩, st'', hout, hst⟩ := h
    obtain ⟨seq', hseq', hrow⟩ := hout
    rw [(counterToInt_eq_ok.2 ⟨hseq, rfl⟩ : counterToInt (st.currentSeq + 1) "seq" = _)] at hseq'
    cases hseq'; cases hrow; cases hst
    exact Or.inr ⟨parentMismatch_eq_none.1 hm, hseq, hrev, rfl, rfl⟩
  · simp only [hm, recordOutcome, Bool.false_eq_true, if_false, Except.pure_eq_ok, Except.bind_ok',
      Except.ok.injEq, Prod.mk.injEq] at h
    obtain ⟨rfl, rfl⟩ := h
    refine Or.inl ⟨fun hf => ?_, rfl, rfl⟩
    rw [parentMismatch_eq_none.2 hf] at hm; cases hm

/-- The recorded outcome of a mutation, as a retry gets it. -/
def replay (st : Store) (env : Envelope) (row : MutationRow) : PutOutcome :=
  { accepted := row.accepted, seq := row.seq.getD 0, digest := row.digest, code := row.code,
    head := if row.accepted then none else st.head env.context.recordID, replayed := true }

theorem putRecord_eq (st : Store) (v : ID) (env : Envelope) (now : String) :
    st.putRecord C v env now =
      (do let digest ← st.checkSubmission C v env; st.transact C v env digest now) := rfl

/-- What the transaction of `PutRecord` can do: answer a retry, record a rejection,
    append a version. -/
theorem transact_cases {st st' : Store} {v : ID} {env : Envelope} {now : String} {out : PutOutcome}
    (h : st.transact C v env (env.digest C) now = .ok (out, st')) :
    (∃ row, st.mutations.lookup env.context.mutationID = some row ∧
        row.requestDigest = env.digest C ∧ out = st.replay env row ∧ st' = st) ∨
    (st.mutations.lookup env.context.mutationID = none ∧
        ¬ Follows C env (st.head env.context.recordID) ∧
        out = rejection (st.head env.context.recordID) ∧ st' = st.afterReject C env now) ∨
    (st.mutations.lookup env.context.mutationID = none ∧
        Follows C env (st.head env.context.recordID) ∧ st.currentSeq + 1 ≤ maxInt64 ∧
        env.context.rev ≤ maxInt64 ∧ out = acceptance (env.digest C) (st.currentSeq + 1) ∧
        st' = st.afterAccept C env now) := by
  rw [transact, Except.bind_eq_ok] at h
  obtain ⟨found, hfound, h⟩ := h
  unfold replayOutcome at hfound
  rcases hrow : st.mutations.lookup env.context.mutationID with _ | row
  · rw [hrow] at hfound; cases hfound
    rcases submit_cases h with h | h
    · exact Or.inr (Or.inl ⟨rfl, h⟩)
    · exact Or.inr (Or.inr ⟨rfl, h⟩)
  · simp only [hrow] at hfound
    split_ifs at hfound with hreq
    cases hfound
    refine Or.inl ⟨row, rfl, hreq, ?_⟩
    cases ha : row.accepted <;> simp [ha] at h <;> obtain ⟨rfl, rfl⟩ := h <;> simp [replay, ha]

/-- **What `PutRecord` can do**: answer a retry, record a rejection, append a version. -/
theorem putRecord_cases {st st' : Store} {v : ID} {env : Envelope} {now : String} {out : PutOutcome}
    (h : st.putRecord C v env now = .ok (out, st')) :
    Submission C st v env ∧
    ((∃ row, st.mutations.lookup env.context.mutationID = some row ∧
        row.requestDigest = env.digest C ∧ out = st.replay env row ∧ st' = st) ∨
     (st.mutations.lookup env.context.mutationID = none ∧
        ¬ Follows C env (st.head env.context.recordID) ∧
        out = rejection (st.head env.context.recordID) ∧ st' = st.afterReject C env now) ∨
     (st.mutations.lookup env.context.mutationID = none ∧
        Follows C env (st.head env.context.recordID) ∧ st.currentSeq + 1 ≤ maxInt64 ∧
        env.context.rev ≤ maxInt64 ∧ out = acceptance (env.digest C) (st.currentSeq + 1) ∧
        st' = st.afterAccept C env now)) := by
  rw [putRecord_eq, Except.bind_eq_ok] at h
  obtain ⟨digest, hd, h⟩ := h
  obtain ⟨hsub, rfl⟩ := checkSubmission_eq_ok.1 hd
  exact ⟨hsub, transact_cases h⟩

/-! ## The tables after a call -/

/-- The record tables are unchanged, up to more remembered ancestors. -/
structure Keeps (st st' : Store) : Prop where
  log : st'.log = st.log
  heads : st'.heads = st.heads
  ancestors : st.ancestors ⊆ st'.ancestors

/-- A version was appended. -/
structure Appends (C : Suite) (st st' : Store) (env : Envelope) : Prop where
  valid : env.Valid
  log : st'.log = st.log ++ [entry env (st.currentSeq + 1)]
  heads : st'.heads =
    st.heads.insert env.context.recordID (headRow C (entry env (st.currentSeq + 1)))
  ancestors : st.ancestors ⊆ st'.ancestors
  digest : (env.context.recordID, env.digest C) ∈ st'.ancestors
  parent : ∀ p, env.context.parentDigest = some p → (env.context.recordID, p) ∈ st'.ancestors

theorem Keeps.refl (st : Store) : Keeps st st := ⟨rfl, rfl, fun _ h => h⟩

theorem keeps_rememberAncestors (st : Store) (id : ID) (ds : List Bytes) :
    Keeps st (st.rememberAncestors id ds) :=
  ⟨rfl, rfl, fun _ h => mem_rememberAncestors.2 (Or.inl h)⟩

/-- Inserting a version and remembering at least its digest and its parent. -/
theorem appends_insertVersion {st : Store} {env : Envelope} {ds : List Bytes}
    (hv : env.Valid) (hd : env.digest C ∈ ds) (hp : env.context.parentDigest.getD [] ∈ ds) :
    Appends C st ((st.insertVersion env (env.digest C) (st.currentSeq + 1) env.context.rev)
      |>.rememberAncestors env.context.recordID ds) env where
  valid := hv
  log := rfl
  heads := rfl
  ancestors := fun _ h => mem_rememberAncestors.2 (Or.inl h)
  digest := mem_rememberAncestors.2 (Or.inr ⟨rfl, hd, env.digest_ne_nil C⟩)
  parent := fun p hpar => mem_rememberAncestors.2
    (Or.inr ⟨rfl, by simpa [hpar] using hp, hv.context.parent_ne_nil hpar⟩)

theorem Appends.setMutations {st st' : Store} {env : Envelope} (h : Appends C st st' env)
    (ms : AList fun _ : ID => MutationRow) : Appends C st { st' with mutations := ms } env :=
  ⟨h.valid, h.log, h.heads, h.ancestors, h.digest, h.parent⟩

theorem appends_afterAccept {st : Store} {env : Envelope} (hv : env.Valid) (now : String) :
    Appends C st (st.afterAccept C env now) env :=
  (appends_insertVersion hv (by simp) (by simp)).setMutations _

theorem keeps_afterReject (st : Store) (env : Envelope) (now : String) :
    Keeps st (st.afterReject C env now) := ⟨rfl, rfl, fun _ h => h⟩

theorem putRecord_tables {st st' : Store} {v : ID} {env : Envelope} {now : String} {out : PutOutcome}
    (h : st.putRecord C v env now = .ok (out, st')) :
    Keeps st st' ∨ Appends C st st' env := by
  obtain ⟨hsub, ⟨-, -, -, -, rfl⟩ | ⟨-, -, -, rfl⟩ | ⟨-, -, -, -, -, rfl⟩⟩ := putRecord_cases h
  · exact Or.inl (Keeps.refl _)
  · exact Or.inl (keeps_afterReject ..)
  · exact Or.inr (appends_afterAccept hsub.valid now)

theorem checkImport_eq_ok {chain : Membership.Chain} {v : ID} {epoch : ℕ} {env : Envelope}
    {d : Bytes} (h : checkImport C chain v epoch env = .ok d) : env.Valid ∧ d = env.digest C := by
  simp only [checkImport, Except.bind_eq_ok, Except.mapError_eq_ok, Envelope.validate_eq_ok,
    Except.require_eq_ok, Envelope.digestE_eq_ok] at h
  obtain ⟨-, -, -, hv, -, -, -, -, -, -, -, -, -, hd⟩ := h
  exact ⟨hv, hd⟩

variable (C) in
/-- The store after an item was imported. -/
def afterImport (st : Store) (item : ImportRecord) (now : String) : Store :=
  let env := item.envelope
  let seq := st.currentSeq + 1
  let row : MutationRow :=
    { requestDigest := env.digest C, accepted := true, code := none, seq := some seq,
      digest := some (env.digest C), recordID := env.context.recordID, createdAt := now }
  let st := (st.insertVersion env (env.digest C) seq env.context.rev).rememberAncestors
    env.context.recordID (item.ancestorsOf (env.digest C))
  { st with mutations := if env.context.mutationID ∈ st.mutations then st.mutations
      else st.mutations.insert env.context.mutationID row }

theorem insertImported_eq_ok {st st' : Store} {item : ImportRecord} {now : String}
    {o : ImportOutcome} (h : st.insertImported item (item.envelope.digest C) now = .ok (o, st')) :
    o.outcome = .imported ∧ o.recordID = item.envelope.context.recordID ∧
      item.envelope.context.rev ≤ maxInt64 ∧ st' = st.afterImport C item now := by
  simp only [insertImported, Except.bind_eq_ok, nextSeq_eq_ok, counterToInt_eq_ok,
    Except.pure_eq_ok, Except.ok.injEq, Prod.mk.injEq] at h
  obtain ⟨_, ⟨-, rfl⟩, _, ⟨hrev, rfl⟩, rfl, rfl⟩ := h
  exact ⟨rfl, rfl, hrev, rfl⟩

/-- **What an import does with an item**: nothing for a version the relay holds or
    has held or cannot place, and an insertion if it holds none or one that the item
    claims to be built on. -/
theorem importOne_cases {st st' : Store} {chain : Membership.Chain} {v : ID} {epoch : ℕ}
    {item : ImportRecord} {now : String} {o : ImportOutcome}
    (h : st.importOne C chain v epoch item now = .ok (o, st')) :
    item.envelope.Valid ∧ o.recordID = item.envelope.context.recordID ∧
    ((o.outcome = .imported ∧ item.envelope.context.rev ≤ maxInt64 ∧
        (∀ head, st.head item.envelope.context.recordID = some head →
          head.digest C ≠ item.envelope.digest C ∧ item.claimsAncestor (head.digest C) = true) ∧
        st' = st.afterImport C item now) ∨
     ∃ head, st.head item.envelope.context.recordID = some head ∧
      ((o.outcome = .current ∧ head.digest C = item.envelope.digest C ∧
          st' = st.rememberAncestors item.envelope.context.recordID
            (item.ancestorsOf (item.envelope.digest C))) ∨
       (head.digest C ≠ item.envelope.digest C ∧ item.claimsAncestor (head.digest C) = false ∧
        ((o.outcome = .behind ∧
            (item.envelope.context.recordID, item.envelope.digest C) ∈ st.ancestors ∧ st' = st) ∨
         (o.outcome = .diverged ∧
            (item.envelope.context.recordID, item.envelope.digest C) ∉ st.ancestors ∧ st' = st))))) := by
  rw [importOne, Except.bind_eq_ok] at h
  obtain ⟨digest, hd, h⟩ := h
  obtain ⟨hv, rfl⟩ := checkImport_eq_ok hd
  refine ⟨hv, ?_⟩
  rcases hh : st.head item.envelope.context.recordID with _ | head
  · simp only [hh] at h
    obtain ⟨ho, hid, hrev, hst⟩ := insertImported_eq_ok h
    exact ⟨hid, Or.inl ⟨ho, hrev, fun head he => absurd he.symm (Option.some_ne_none head), hst⟩⟩
  · simp only [hh, Except.bind_eq_ok, Envelope.digestE_eq_ok] at h
    obtain ⟨_, ⟨-, rfl⟩, h⟩ := h
    split_ifs at h with hcur hclaim hbehind
    · cases h; exact ⟨rfl, Or.inr ⟨head, rfl, Or.inl ⟨rfl, hcur, rfl⟩⟩⟩
    · obtain ⟨ho, hid, hrev, hst⟩ := insertImported_eq_ok h
      exact ⟨hid, Or.inl ⟨ho, hrev, fun _ he => Option.some.inj he ▸ ⟨hcur, hclaim⟩, hst⟩⟩
    · cases h
      exact ⟨rfl, Or.inr ⟨head, rfl, Or.inr ⟨hcur, by simpa using hclaim,
        Or.inl ⟨rfl, hbehind, rfl⟩⟩⟩⟩
    · cases h
      exact ⟨rfl, Or.inr ⟨head, rfl, Or.inr ⟨hcur, by simpa using hclaim,
        Or.inr ⟨rfl, hbehind, rfl⟩⟩⟩⟩

theorem appends_afterImport {st : Store} {item : ImportRecord} (hv : item.envelope.Valid)
    (now : String) : Appends C st (st.afterImport C item now) item.envelope :=
  (appends_insertVersion hv (by simp [ImportRecord.ancestorsOf])
    (by simp [ImportRecord.ancestorsOf])).setMutations _

theorem importOne_tables {st st' : Store} {chain : Membership.Chain} {v : ID} {epoch : ℕ}
    {item : ImportRecord} {now : String} {o : ImportOutcome}
    (h : st.importOne C chain v epoch item now = .ok (o, st')) :
    Keeps st st' ∨ Appends C st st' item.envelope := by
  obtain ⟨hv, -, ⟨-, -, -, rfl⟩ | ⟨head, -, ⟨-, -, rfl⟩ | ⟨-, -, ⟨-, -, rfl⟩ | ⟨-, -, rfl⟩⟩⟩⟩ :=
    importOne_cases h
  · exact Or.inr (appends_afterImport hv now)
  · exact Or.inl (keeps_rememberAncestors ..)
  · exact Or.inl (Keeps.refl _)
  · exact Or.inl (Keeps.refl _)

/-! ## Calls as sequences of writes -/

variable (C) in
/-- One write of a call: a submission, an imported item, or a restarted history. -/
inductive Write : Store → Store → Prop
  | put {st st' : Store} {v : ID} {env : Envelope} {now : String} {out : PutOutcome} :
      st.putRecord C v env now = .ok (out, st') → Write st st'
  | item {st st' : Store} {chain : Membership.Chain} {v : ID} {epoch : ℕ} {item : ImportRecord}
      {now : String} {o : ImportOutcome} :
      st.importOne C chain v epoch item now = .ok (o, st') → Write st st'
  | history (st : Store) (history origin : String) :
      Write st { st with history := history, historyOrigin := origin }

/-- The turns of the loop of `ImportRecords`. -/
theorem importItem_eq_ok {chain : Membership.Chain} {v : ID} {epoch : ℕ} {now : String}
    {acc acc' : List ImportOutcome × Store} {item : ImportRecord}
    (h : importItem C chain v epoch now acc item = .ok acc') :
    item.envelope.context.recordID ∉ acc.1.map (·.recordID) ∧
      ∃ o, acc.2.importOne C chain v epoch item now = .ok (o, acc'.2) ∧ acc'.1 = acc.1 ++ [o] := by
  simp only [importItem, Except.bind_eq_ok, Except.mapError_eq_ok, Except.require_eq_ok] at h
  obtain ⟨-, hid, ⟨o, st'⟩, hone, hacc⟩ := h
  cases hacc
  exact ⟨hid, o, hone, rfl⟩

theorem importRecords_eq (st : Store) (v : ID) (req : ImportRequest) (now freshID : String) :
    st.importRecords C v req now freshID =
      (do let chain ← st.chain C v; st.importTransaction C chain v req now freshID) := rfl

theorem importTransaction_eq_ok {st st' : Store} {chain : Membership.Chain} {v : ID}
    {req : ImportRequest} {now freshID : String} {outs : List ImportOutcome}
    (h : st.importTransaction C chain v req now freshID = .ok (outs, st')) :
    ∃ row st'', st.vault = some row ∧
      req.records.foldlM (importItem C chain v row.keyEpoch now) ([], st) = .ok (outs, st'') ∧
      ((outs.any (·.outcome = .imported) = true ∧ req.history = st.history ∧
          st' = { st'' with history := freshID, historyOrigin := historyRestarted }) ∨
        (¬ (outs.any (·.outcome = .imported) = true ∧ req.history = st.history) ∧ st' = st'')) := by
  unfold importTransaction at h
  rcases hv : st.vault with _ | row
  · simp [hv] at h
  · simp only [hv, Except.bind_eq_ok] at h
    obtain ⟨⟨outs', st''⟩, hfold, h⟩ := h
    refine ⟨row, st'', rfl, ?_⟩
    split_ifs at h with hr <;> cases h
    · exact ⟨hfold, Or.inl ⟨hr.1, hr.2, rfl⟩⟩
    · exact ⟨hfold, Or.inr ⟨hr, rfl⟩⟩

theorem importRecords_eq_ok {st st' : Store} {v : ID} {req : ImportRequest} {now freshID : String}
    {outs : List ImportOutcome} (h : st.importRecords C v req now freshID = .ok (outs, st')) :
    ∃ chain row st'', st.chain C v = .ok chain ∧ st.vault = some row ∧
      req.records.foldlM (importItem C chain v row.keyEpoch now) ([], st) = .ok (outs, st'') ∧
      ((outs.any (·.outcome = .imported) = true ∧ req.history = st.history ∧
          st' = { st'' with history := freshID, historyOrigin := historyRestarted }) ∨
        (¬ (outs.any (·.outcome = .imported) = true ∧ req.history = st.history) ∧ st' = st'')) := by
  rw [importRecords_eq, Except.bind_eq_ok] at h
  obtain ⟨chain, hchain, h⟩ := h
  obtain ⟨row, st'', hv, hfold, hst⟩ := importTransaction_eq_ok h
  exact ⟨chain, row, st'', hchain, hv, hfold, hst⟩

/-- The rule for calls: what every single write keeps, every call keeps. -/
theorem call_induct {P : Store → Prop} (hwrite : ∀ st st', Write C st st' → P st → P st')
    {st : Store} (h : P st) (c : Call) : P (st.call C c) := by
  cases c with
  | put v env now =>
    simp only [Store.call]
    rcases hp : st.putRecord C v env now with _ | ⟨out, st'⟩
    · exact h
    · exact hwrite _ _ (.put hp) h
  | importBatch v req now freshID =>
    simp only [Store.call]
    rcases hi : st.importRecords C v req now freshID with _ | ⟨outs, st'⟩
    · exact h
    · obtain ⟨chain, row, st'', -, -, hfold, hst⟩ := importRecords_eq_ok hi
      have h'' : P st'' :=
        Except.foldlM_induct (P := fun acc : List ImportOutcome × Store => P acc.2) hfold h
          fun item _ _ _ hx hP => by
            obtain ⟨-, o, hone, -⟩ := importItem_eq_ok hx
            exact hwrite _ _ (.item hone) hP
      rcases hst with ⟨-, -, rfl⟩ | ⟨-, rfl⟩
      · exact hwrite _ _ (.history ..) h''
      · exact h''

/-! ## The table invariant -/

/-- The record tables agree with each other. -/
structure Consistent (C : Suite) (st : Store) : Prop where
  /-- The log is numbered 1, 2, …, n. -/
  numbered : st.log.map LogRow.seq = List.range' 1 st.log.length
  /-- An entry is filed under the record its envelope names. -/
  filed : ∀ e ∈ st.log, e.recordID = e.envelope.context.recordID
  /-- The head row of a record is its newest entry, and there is none without an entry. -/
  heads : ∀ id, st.heads.lookup id = (KeyedLog.last? LogRow.recordID id st.log).map (headRow C)
  /-- A record in the log has exactly one head row. -/
  oneHead : ∀ e ∈ st.log, st.heads.keys.count e.recordID = 1
  /-- The digest and the parent digest of an entry are remembered. -/
  ancestors : ∀ e ∈ st.log, (e.recordID, e.envelope.digest C) ∈ st.ancestors ∧
    ∀ p, e.envelope.context.parentDigest = some p → (e.recordID, p) ∈ st.ancestors

theorem Consistent.created (g : Genesis) (events : List SignedMembershipEvent)
    (history origin : String) : Consistent C (Store.created g events history origin) where
  numbered := rfl
  filed := by simp [Store.created]
  heads := fun id => by simp [Store.created]
  oneHead := by simp [Store.created]
  ancestors := by simp [Store.created]

theorem Consistent.keep {st st' : Store} (h : Consistent C st) (hk : Keeps st st') :
    Consistent C st' where
  numbered := by rw [hk.log]; exact h.numbered
  filed := by rw [hk.log]; exact h.filed
  heads := by rw [hk.log, hk.heads]; exact h.heads
  oneHead := by rw [hk.log, hk.heads]; exact h.oneHead
  ancestors := by
    rw [hk.log]
    exact fun e he => ⟨hk.ancestors (h.ancestors e he).1,
      fun p hp => hk.ancestors ((h.ancestors e he).2 p hp)⟩

/-- One head row, because the table has a row for the record and its keys are distinct. -/
theorem count_keys_eq_one {st : Store} {id : ID} {row : HeadRow}
    (h : st.heads.lookup id = some row) : st.heads.keys.count id = 1 :=
  List.count_eq_one_of_mem st.heads.keys_nodup
    (AList.mem_keys.1 (AList.lookup_isSome.1 (by rw [h]; rfl)))

theorem Consistent.append {st st' : Store} {env : Envelope} (h : Consistent C st)
    (ha : Appends C st st' env) : Consistent C st' := by
  have hseq : st.currentSeq = st.log.length := currentSeq_eq h.numbered
  have hheads : ∀ id, st'.heads.lookup id =
      (KeyedLog.last? LogRow.recordID id st'.log).map (headRow C) := by
    intro id
    rw [ha.heads, ha.log]
    by_cases hid : id = env.context.recordID
    · subst hid
      rw [AList.lookup_insert, KeyedLog.last?_concat, if_pos (by rfl)]; rfl
    · rw [AList.lookup_insert_ne hid, KeyedLog.last?_concat, if_neg fun he => hid he.symm, h.heads]
  refine ⟨?_, ?_, hheads, ?_, ?_⟩
  · rw [ha.log, List.map_append, h.numbered, List.length_append, List.length_singleton,
      List.range'_concat, hseq]
    simp [entry, Nat.add_comm]
  · rw [ha.log]
    intro e he
    rcases List.mem_append.1 he with he | he
    · exact h.filed e he
    · rw [List.mem_singleton.1 he]; rfl
  · intro e he
    obtain ⟨b, hb⟩ : ∃ b, KeyedLog.last? LogRow.recordID e.recordID st'.log = some b :=
      KeyedLog.exists_last? LogRow.recordID he
    exact count_keys_eq_one (by rw [hheads, hb]; rfl)
  · rw [ha.log]
    intro e he
    rcases List.mem_append.1 he with he | he
    · exact ⟨ha.ancestors (h.ancestors e he).1,
        fun p hp => ha.ancestors ((h.ancestors e he).2 p hp)⟩
    · rw [List.mem_singleton.1 he]; exact ⟨ha.digest, ha.parent⟩

theorem Consistent.write {st st' : Store} (h : Write C st st') (hc : Consistent C st) :
    Consistent C st' := by
  cases h with
  | put h =>
    rcases putRecord_tables h with hk | ha
    · exact hc.keep hk
    · exact hc.append ha
  | item h =>
    rcases importOne_tables h with hk | ha
    · exact hc.keep hk
    · exact hc.append ha
  | history => exact hc.keep ⟨rfl, rfl, fun _ h => h⟩

/-- A call, successful or rolled back, keeps the tables consistent. -/
theorem Consistent.call {st : Store} (hc : Consistent C st) (c : Call) :
    Consistent C (st.call C c) :=
  call_induct (fun _ _ h => Consistent.write h) hc c

/-- **The relay's tables are consistent** after any sequence of submissions and
    imports, each with arbitrary contents and each succeeding or failing. -/
theorem calls_consistent (C : Suite) (g : Genesis) (events : List SignedMembershipEvent)
    (history origin : String) (calls : List Call) :
    Consistent C (calls.foldl (Store.call C) (Store.created g events history origin)) := by
  induction calls using List.reverseRecOn with
  | nil => exact Consistent.created ..
  | append_singleton calls c ih =>
    rw [List.foldl_append]
    exact ih.call c

/-! ## The chain of each record -/

/-- The first version of a record. -/
def IsRoot (e : LogRow) : Prop := e.envelope.context.rev = 1 ∧ e.envelope.context.parentDigest = none

/-- A version built on another one. -/
def LinksTo (C : Suite) (e e' : LogRow) : Prop :=
  e'.envelope.context.rev = e.envelope.context.rev + 1 ∧
    e'.envelope.context.parentDigest = some (e.envelope.digest C)

/-- Every record in the log is a hash chain of revisions that fit the head row. -/
structure Chained (C : Suite) (st : Store) : Prop extends Consistent C st where
  linked : KeyedLog.Linked LogRow.recordID IsRoot (LinksTo C) st.log
  revs : ∀ e ∈ st.log, e.envelope.context.rev ≤ maxInt64

theorem Consistent.head_eq {st : Store} (h : Consistent C st) (id : ID) :
    st.head id = (KeyedLog.last? LogRow.recordID id st.log).map
      fun e => decodeEnvelope e.envelope e.seq := by
  rw [Store.head, h.heads, Option.map_map]; rfl

/-- A parent digest that passes `Validate` and compares equal to a digest is that digest. -/
theorem parentDigest_eq {env : Envelope} {d : Bytes} (hd : d ≠ [])
    (h : env.context.parentDigest.getD [] = d) : env.context.parentDigest = some d := by
  rcases hp : env.context.parentDigest with _ | p
  · rw [hp] at h; exact absurd h.symm hd
  · rw [hp] at h; exact congrArg some h

theorem Chained.accept {st : Store} {env : Envelope} (h : Chained C st) (hv : env.Valid)
    (hf : Follows C env (st.head env.context.recordID)) (hrev : env.context.rev ≤ maxInt64)
    (now : String) : Chained C (st.afterAccept C env now) := by
  have ha : Appends C st (st.afterAccept C env now) env := appends_afterAccept hv now
  rw [h.head_eq] at hf
  refine { h.toConsistent.append ha with linked := ?_, revs := ?_ }
  · rw [ha.log]
    refine h.linked.append (fun hnone => ?_) fun p hp => ?_
    · -- no entry yet: the submission is a creation
      have hnone' : KeyedLog.last? LogRow.recordID env.context.recordID st.log = none := hnone
      rw [hnone'] at hf
      exact ⟨hf, hv.context.root hf⟩
    · have hp' : KeyedLog.last? LogRow.recordID env.context.recordID st.log = some p := hp
      rw [hp'] at hf
      obtain ⟨hrev', -, hpar⟩ := hf
      refine ⟨?_, parentDigest_eq (Envelope.digest_ne_nil C _) hpar⟩
      exact hrev'.trans (counterSucc_eq (h.revs p (KeyedLog.mem_of_last? hp').1))
  · rw [ha.log]
    intro e he
    rcases List.mem_append.1 he with he | he
    · exact h.revs e he
    · rw [List.mem_singleton.1 he]; exact hrev

theorem Chained.putRecord {st st' : Store} {v : ID} {env : Envelope} {now : String}
    {out : PutOutcome} (hc : Chained C st) (h : st.putRecord C v env now = .ok (out, st')) :
    Chained C st' := by
  obtain ⟨hsub, ⟨-, -, -, -, rfl⟩ | ⟨-, -, -, rfl⟩ | ⟨-, hf, -, hrev, -, rfl⟩⟩ := putRecord_cases h
  · exact hc
  · exact { hc.toConsistent.keep (keeps_afterReject ..) with linked := hc.linked, revs := hc.revs }
  · exact hc.accept hsub.valid hf hrev now

/-- The store after a sequence of submissions: vault named, envelope, time. -/
def puts (C : Suite) (st : Store) (subs : List (ID × Envelope × String)) : Store :=
  subs.foldl (fun st s => st.call C (.put s.1 s.2.1 s.2.2)) st

theorem Chained.puts {st : Store} (h : Chained C st) (subs : List (ID × Envelope × String)) :
    Chained C (st.puts C subs) := by
  unfold Store.puts
  induction subs using List.reverseRecOn with
  | nil => exact h
  | append_singleton subs s ih =>
    rw [List.foldl_append]
    simp only [List.foldl_cons, List.foldl_nil, Store.call]
    rcases hp : Store.putRecord C _ s.1 s.2.1 s.2.2 with _ | ⟨out, st'⟩
    · exact ih
    · exact ih.putRecord hp

theorem Chained.created (g : Genesis) (events : List SignedMembershipEvent)
    (history origin : String) : Chained C (Store.created g events history origin) :=
  { Consistent.created g events history origin with
    linked := KeyedLog.Linked.nil, revs := by simp [Store.created] }

theorem Consistent.seq_sorted {st : Store} (h : Consistent C st) :
    st.log.Pairwise fun e e' => e.seq < e'.seq := by
  have hs : (st.log.map LogRow.seq).Pairwise (· < ·) := h.numbered ▸ List.pairwise_lt_range'
  exact List.pairwise_map.1 hs

section
variable {st : Store} (h : Chained C st)
include h

theorem Chained.rev_getElem (id : ID) (i : ℕ)
    (hi : i < (KeyedLog.ofKey LogRow.recordID id st.log).length) :
    (KeyedLog.ofKey LogRow.recordID id st.log)[i].envelope.context.rev = i + 1 :=
  h.linked.rank_getElem (fun e => e.envelope.context.rev) (fun _ ha => ha.1)
    (fun _ _ hab => hab.1) id i hi

theorem Chained.parent_getElem (id : ID) (i : ℕ)
    (hi : i + 1 < (KeyedLog.ofKey LogRow.recordID id st.log).length) :
    (KeyedLog.ofKey LogRow.recordID id st.log)[i + 1].envelope.context.parentDigest =
      some (((KeyedLog.ofKey LogRow.recordID id st.log).get ⟨i, Nat.lt_of_succ_lt hi⟩).envelope.digest
        C) :=
  ((List.isChain_iff_getElem.1 (h.linked id).2) i hi).2

/-- Two versions of a record with one parent would be two versions with one digest. -/
theorem Chained.parent_inj (id : ID)
    (hfree : ∀ a ∈ KeyedLog.ofKey LogRow.recordID id st.log,
      ∀ b ∈ KeyedLog.ofKey LogRow.recordID id st.log,
        a.envelope.digest C = b.envelope.digest C → a.envelope.strip = b.envelope.strip)
    (i j : ℕ) (hij : i < j) (hj : j < (KeyedLog.ofKey LogRow.recordID id st.log).length) :
    ((KeyedLog.ofKey LogRow.recordID id st.log).get ⟨i, hij.trans hj⟩).envelope.context.parentDigest ≠
      (KeyedLog.ofKey LogRow.recordID id st.log)[j].envelope.context.parentDigest := by
  obtain ⟨j, rfl⟩ : ∃ k, j = k + 1 := ⟨j - 1, by omega⟩
  rw [h.parent_getElem id j hj, List.get_eq_getElem]
  rcases i with _ | i
  · have hroot := (h.linked id).1 _ (by
      rw [List.head?_eq_getElem?, List.getElem?_eq_getElem (by omega)]; rfl)
    rw [hroot.2]; simp
  · rw [h.parent_getElem id i (by omega)]
    intro heq
    simp only [List.get_eq_getElem] at heq
    have hstrip := hfree _ (List.getElem_mem _) _ (List.getElem_mem _) (Option.some.inj heq)
    have hrev := congrArg (fun e : Envelope => e.context.rev) hstrip
    simp only [Envelope.strip_context, h.rev_getElem] at hrev
    omega

end

/-- **Each record is a hash chain.**  After any submissions by any writers, the
    log entries of a record, in the order of their numbers, carry the revisions
    1, 2, 3, …, the first has no parent digest and every later one names the
    digest of the one just before it.  So unless two of them collide under
    SHA-256, no two share a parent. -/
theorem puts_chained (C : Suite) (g : Genesis) (events : List SignedMembershipEvent)
    (history origin : String) (subs : List (ID × Envelope × String)) (id : ID) :
    let entries := KeyedLog.ofKey LogRow.recordID id
      ((Store.created g events history origin).puts C subs).log
    entries.Pairwise (fun e e' => e.seq < e'.seq) ∧
    (∀ i (hi : i < entries.length), entries[i].envelope.context.rev = i + 1) ∧
    (∀ e, entries.head? = some e → e.envelope.context.parentDigest = none) ∧
    (∀ i (hi : i + 1 < entries.length), entries[i + 1].envelope.context.parentDigest =
      some ((entries.get ⟨i, Nat.lt_of_succ_lt hi⟩).envelope.digest C)) ∧
    ((∀ a ∈ entries, ∀ b ∈ entries, a.envelope.digest C = b.envelope.digest C →
        a.envelope.strip = b.envelope.strip) →
      ∀ i j (hij : i < j) (hj : j < entries.length),
        (entries.get ⟨i, hij.trans hj⟩).envelope.context.parentDigest ≠
          entries[j].envelope.context.parentDigest) := by
  have h := (Chained.created (C := C) g events history origin).puts subs
  exact ⟨h.seq_sorted.sublist List.filter_sublist, h.rev_getElem id,
    fun e he => ((h.linked id).1 e he).2, h.parent_getElem id, h.parent_inj id⟩

end Store

end Sshstate.Relay
