/-
  What a device seals (`SealedBy`, `preserveCandidate_ok`), and what the
  transactions of its store do: to the stored heads, to the outbox, and to
  nothing else.

  Every transaction that writes records is described by the heads it installs
  (`putRecord_ok`, `replaceHead_ok`, `applyRemote_ok`) and by its effect on the
  outbox; `SameElse` is the frame of all of them.
-/
import Sshstate.Vault.Record

namespace Sshstate.Vault

variable {C : Suite}

/-! ## Sealing -/

/-- `env` is the mutation `m` with the plaintext `p`, sealed and signed by `w`. -/
structure SealedBy (C : Suite) (w : Writer) (m : Mutation) (p : Bytes) (env : Envelope) : Prop where
  context : env.context = w.context m
  valid : env.context.Valid
  seq : env.seq = 0
  nonce : env.nonce ≠ []
  ciphertext : env.ciphertext =
    C.sealAEAD (w.keys.keyFor m.recordType) env.nonce p (env.context.aad C)
  signature : ∃ r, env.signature = C.sign w.signing r recordSignatureDomain (env.signingInput C)

theorem sealRecord_ok {w : Writer} {m : Mutation} {payload : Option Bytes} {r : Entropy}
    {env : Envelope} (h : w.sealRecord C m payload r = .ok env) :
    ∃ p, (if m.deleted then some tombstone else payload) = some p ∧ SealedBy C w m p env := by
  simp only [Writer.sealRecord, Except.bind_eq_ok, Except.mapError_eq_ok, Context.validate_eq_ok,
    Except.pure_eq_ok, Except.ok.injEq] at h
  obtain ⟨-, hv, p, hp, rfl⟩ := h
  refine ⟨p, ?_, rfl, hv, rfl, r.nonce_ne_nil, rfl, r.signature, rfl⟩
  split_ifs at hp ⊢ with hd
  · exact congrArg some (Except.ok.inj hp)
  · rcases payload with _ | q
    · cases hp
    · exact congrArg some (Except.ok.inj hp)

/-- The id of the conflict record that keeps a candidate. -/
def conflictIDFor (C : Suite) (c : Envelope) : ID :=
  conflictIDOf C c.context.vaultID c.context.recordID c.context.mutationID

/-- The plaintext of an envelope under the keys of the vault. -/
def Keys.plaintext (C : Suite) (keys : Keys) (e : Envelope) : Option Bytes :=
  C.openAEAD (keys.keyFor e.context.recordType) e.nonce e.ciphertext (e.context.aad C)

theorem SealedBy.plaintext (hC : C.Correct) {w : Writer} {m : Mutation} {p : Bytes} {e : Envelope}
    (h : SealedBy C w m p e) : w.keys.plaintext C e = some p := by
  have hm : e.context.recordType = m.recordType := by rw [h.context]; rfl
  rw [Keys.plaintext, h.ciphertext, hm]
  exact hC.open_seal ..

/-- What `Reader.Open` returns: the plaintext, and nothing for a tombstone. -/
theorem openRecord_plaintext {r : Reader} {env : Envelope} {p : Option Bytes}
    (h : r.openRecord C env = .ok p) :
    ∃ text, r.keys.plaintext C env = some text ∧
      p = if env.context.deleted then none else some text := by
  simp only [Reader.openRecord, Except.bind_eq_ok] at h
  obtain ⟨-, -, -, -, -, -, -, -, -, -, h⟩ := h
  split at h
  · cases h
  next text ht =>
    refine ⟨text, ht, ?_⟩
    split_ifs at h ⊢
    · obtain ⟨-, -, h⟩ := Except.bind_eq_ok.1 h; cases h; rfl
    · cases h; rfl

theorem Manager.openRecord_vault {m : Manager} {st : Store} {env : Envelope} {p : Option Bytes}
    (h : (m.readerFor C st).openRecord C env = .ok p) : env.context.vaultID = m.vaultID := by
  simp only [Reader.openRecord, Except.bind_eq_ok, Except.require_eq_ok] at h
  obtain ⟨-, -, -, hvault, -⟩ := h
  exact hvault

/-- A preserved candidate is the next version of its conflict record. -/
theorem Manager.preserveCandidate_ok {m : Manager} {st : Store} {c head k : Envelope} {now : String}
    {id : NewID} {r : Entropy} (h : m.preserveCandidate C st c head now id r = .ok k) :
    ∃ plaintext headDigest, (m.readerFor C st).openRecord C c = .ok plaintext ∧
      SealedBy C m.writerFor
        { recordID := conflictIDFor C c, recordType := c.context.recordType.conflictType,
          rev := (nextVersion C st (conflictIDFor C c)).1,
          parentDigest := (nextVersion C st (conflictIDFor C c)).2,
          mutationID := id.id, deleted := false }
        (C.canonical (.conflictPayload (preservedPayload c plaintext headDigest now))) k := by
  simp only [preserveCandidate, Except.bind_eq_ok, Except.mapError_eq_ok, conflictID_eq_ok] at h
  obtain ⟨plaintext, hopen, headDigest, -, _, ⟨-, -, -, rfl⟩, -, -, h⟩ := h
  obtain ⟨p, hp, hk⟩ := sealRecord_ok h
  rw [if_neg Bool.false_ne_true] at hp
  cases hp
  refine ⟨plaintext, headDigest, hopen, ?_⟩
  rw [conflictIDFor, openRecord_vault hopen]
  exact hk

/-- What a device writes: a removal has the plaintext of a tombstone, and a live
    record that is no conflict record has a payload. -/
structure Written (C : Suite) (w : Writer) (m : Mutation) (p : Bytes) (env : Envelope) : Prop
    extends SealedBy C w m p env where
  removal : m.deleted = true → p = tombstone
  payload : m.recordType.isConflict = false → p ≠ []

/-- The record whose stored head an edit replaces. -/
def Manager.Edit.revised (e : Edit) : Option ID :=
  match e.kind with
  | .revise recordID _ => some recordID
  | _ => none

/-- What a local edit builds on: nothing, for a new record; a drawn id, for a kept
    import; or the stored head. -/
inductive Manager.Builds (C : Suite) (mgr : Manager) (st : Store) (e : Manager.Edit) (m : Mutation) :
    Prop
  | create (recordID : m.recordID ∈ e.draws) (recordType : m.recordType.isConflict = false)
      (rev : m.rev = 1)
  | keep {source : ID} {head : Envelope} {candidate : ID} (head_eq : st.head source = some head)
      (host : head.context.recordType = .host) (drawn : candidate ∈ e.draws) (recordID : m.recordID = conflictIDOf C mgr.vaultID source candidate)
      (recordType : m.recordType = .conflictMetadata)
      (version : (m.rev, m.parentDigest) = nextVersion C st m.recordID)
  | revise {head : Envelope} (head_eq : st.head m.recordID = some head)
      (recordType : m.recordType = head.context.recordType)
      (rev : m.rev = counterSucc head.context.rev)
      (parent : m.parentDigest = some (head.digest C)) (kind : e.revised = some m.recordID)

theorem Manager.sealEdit_ok {mgr : Manager} {st : Store} {e : Edit} {env : Envelope}
    (h : mgr.sealEdit C st e = .ok env) :
    ∃ m p, Written C mgr.writerFor m p env ∧ m.mutationID = e.mutationID.id ∧
      mgr.Builds C st e m := by
  unfold sealEdit at h
  rcases hk : e.kind with ⟨recordID, recordType, live, payload⟩ | ⟨source, candidate, payload, now⟩ |
    ⟨recordID, payload⟩
  · simp only [hk] at h
    obtain ⟨p, hp, hs⟩ := sealRecord_ok h
    cases hp
    exact ⟨_, _, ⟨hs, nofun, fun _ => payload.bytes_ne_nil⟩, rfl,
      .create (by simp [Edit.draws, hk]) live rfl⟩
  · simp only [hk] at h
    rcases hh : (st.head source).filter (·.context.recordType = .host) with _ | head
    · simp [hh] at h
    · obtain ⟨hhead, hhost⟩ := Option.filter_eq_some_iff.1 hh
      simp only [hh, Except.bind_eq_ok, conflictID_eq_ok] at h
      obtain ⟨_, ⟨-, -, -, rfl⟩, -, -, h⟩ := h
      obtain ⟨p, hp, hs⟩ := sealRecord_ok h
      cases hp
      exact ⟨_, _, ⟨hs, nofun, nofun⟩, rfl, .keep hhead (by simpa using hhost) (by simp [Edit.draws, hk]) rfl rfl rfl⟩
  · simp only [hk] at h
    rcases hh : st.head recordID with _ | head
    · simp [hh] at h
    · simp only [hh] at h
      obtain ⟨p, hp, hs⟩ := sealRecord_ok h
      refine ⟨_, p, ⟨hs, fun hd => ?_, fun _ => ?_⟩, rfl, .revise hh rfl rfl rfl (by rw [Edit.revised, hk])⟩
      · rw [if_pos hd] at hp; exact (Option.some.inj hp).symm
      · rcases payload with _ | payload <;> cases hp
        · exact List.cons_ne_nil _ _
        · exact payload.bytes_ne_nil

theorem Manager.Edit.mutationID_mem_draws (e : Edit) : e.mutationID.id ∈ e.draws := by
  unfold draws; split <;> simp

namespace Store

/-! ## Frames -/

/-- The two stores differ at most in records, history, outbox and the record cursor. -/
structure SameElse (st st' : Store) : Prop where
  membership : st'.membership = st.membership
  devices : st'.devices = st.devices
  history : st'.history = st.history
  revokedAt : st'.revokedAt = st.revokedAt
  revokedNotice : st'.revokedNotice = st.revokedNotice

theorem SameElse.refl (st : Store) : SameElse st st := ⟨rfl, rfl, rfl, rfl, rfl⟩

theorem SameElse.trans {st st' st'' : Store} (h : SameElse st st') (h' : SameElse st' st'') :
    SameElse st st'' :=
  ⟨h'.1.trans h.1, h'.2.trans h.2, h'.3.trans h.3, h'.4.trans h.4, h'.5.trans h.5⟩

theorem sameElse_writeHead (st : Store) (env : Envelope) (d : Bytes) :
    SameElse st (st.writeHead env d) := ⟨rfl, rfl, rfl, rfl, rfl⟩

theorem sameElse_enqueueOutbox (st : Store) (env : Envelope) : SameElse st (st.enqueueOutbox env) := by
  unfold enqueueOutbox; split_ifs <;> exact ⟨rfl, rfl, rfl, rfl, rfl⟩

/-! ## Small updates -/

theorem head_writeHead (st : Store) (env : Envelope) (d : Bytes) (id : ID) :
    (st.writeHead env d).head id = if id = env.context.recordID then some env else st.head id := by
  unfold head writeHead remember
  by_cases h : id = env.context.recordID
  · subst h; simp
  · simp [h, AList.lookup_insert_ne h]

@[simp] theorem outbox_writeHead (st : Store) (env : Envelope) (d : Bytes) :
    (st.writeHead env d).outbox = st.outbox := rfl

@[simp] theorem cursor_writeHead (st : Store) (env : Envelope) (d : Bytes) :
    (st.writeHead env d).cursor = st.cursor := rfl

@[simp] theorem head_enqueueOutbox (st : Store) (env : Envelope) (id : ID) :
    (st.enqueueOutbox env).head id = st.head id := by
  unfold enqueueOutbox; split_ifs <;> rfl

@[simp] theorem cursor_enqueueOutbox (st : Store) (env : Envelope) :
    (st.enqueueOutbox env).cursor = st.cursor := by
  unfold enqueueOutbox; split_ifs <;> rfl

@[simp] theorem head_dequeue (st : Store) (m id : ID) : (st.dequeue m).head id = st.head id := rfl

@[simp] theorem head_dequeueRecord (st : Store) (r id : ID) :
    (st.dequeueRecord r).head id = st.head id := rfl

theorem mem_dequeue {st : Store} {m : ID} {e : Envelope} :
    e ∈ (st.dequeue m).outbox ↔ e ∈ st.outbox ∧ e.context.mutationID ≠ m := by
  simp [dequeue]

theorem mem_dequeueRecord {st : Store} {r : ID} {e : Envelope} :
    e ∈ (st.dequeueRecord r).outbox ↔ e ∈ st.outbox ∧ e.context.recordID ≠ r := by
  simp [dequeueRecord]

/-- A mutation that is not pending yet is appended. -/
theorem outbox_enqueueOutbox {st : Store} {env : Envelope}
    (h : ∀ e ∈ st.outbox, e.context.mutationID ≠ env.context.mutationID) :
    (st.enqueueOutbox env).outbox = st.outbox ++ [env] := by
  unfold enqueueOutbox
  rw [if_neg (by rintro ⟨e, he, hm⟩; exact h e he hm)]

theorem mem_enqueueOutbox {st : Store} {env e : Envelope} (h : e ∈ (st.enqueueOutbox env).outbox) :
    e ∈ st.outbox ∨ e = env := by
  unfold enqueueOutbox at h
  split_ifs at h
  · exact Or.inl h
  · simpa using h

theorem subset_enqueueOutbox (st : Store) (env : Envelope) :
    st.outbox ⊆ (st.enqueueOutbox env).outbox := by
  unfold enqueueOutbox; split_ifs <;> simp

/-- An enqueued mutation is pending. -/
theorem exists_enqueueOutbox (st : Store) (env : Envelope) :
    ∃ e ∈ (st.enqueueOutbox env).outbox, e.context.mutationID = env.context.mutationID := by
  unfold enqueueOutbox
  split_ifs with h
  · exact h
  · exact ⟨env, by simp, rfl⟩

theorem mem_pending {st : Store} {e : Envelope} : e ∈ st.pending ↔ e ∈ st.outbox := by
  unfold pending; exact List.mem_insertionSort _

/-- No mutation is pending twice. -/
def NodupOutbox (st : Store) : Prop := (st.outbox.map (·.context.mutationID)).Nodup

theorem NodupOutbox.enqueueOutbox {st : Store} (h : st.NodupOutbox) (env : Envelope) :
    (st.enqueueOutbox env).NodupOutbox := by
  unfold NodupOutbox Store.enqueueOutbox
  split_ifs with hc
  · exact h
  · rw [List.map_append, List.map_singleton]
    refine List.Nodup.append h (List.nodup_singleton _) ?_
    rintro m hm hm'
    obtain ⟨e, he, rfl⟩ := List.mem_map.1 hm
    exact hc ⟨e, he, List.mem_singleton.1 hm'⟩

theorem NodupOutbox.of_sublist {st st' : Store} (h : st.NodupOutbox)
    (hs : st'.outbox.Sublist st.outbox) : st'.NodupOutbox :=
  List.Nodup.sublist (hs.map _) h

theorem NodupOutbox.of_eq {st st' : Store} (h : st.NodupOutbox) (he : st'.outbox = st.outbox) :
    st'.NodupOutbox := h.of_sublist (he ▸ List.Sublist.refl _)

theorem NodupOutbox.pending {st : Store} (h : st.NodupOutbox) : st.pending.Nodup :=
  (List.perm_insertionSort _ _).nodup_iff.2 (List.Nodup.of_map _ h)

/-! ## Writing one record -/

theorem bytesEqual_some {a : Option Bytes} {b : Bytes} (hb : b ≠ []) :
    bytesEqual a (some b) = true ↔ a = some b := by
  unfold bytesEqual
  rcases a with _ | a
  · simpa using hb
  · simp

theorem replaceHead_ok {st st' : Store} {env : Envelope} :
    st.replaceHead C env = .ok st' ↔ env.Valid ∧ st' = st.writeHead env (env.digest C) := by
  simp only [replaceHead, Except.bind_eq_ok, Except.mapError_eq_ok, Envelope.validate_eq_ok,
    Envelope.digestE_eq_ok, Except.pure_eq_ok, Except.ok.injEq]
  constructor
  · rintro ⟨-, hv, _, ⟨-, rfl⟩, rfl⟩; exact ⟨hv, rfl⟩
  · rintro ⟨hv, rfl⟩; exact ⟨(), hv, _, ⟨hv.signature, rfl⟩, rfl⟩

/-- What `putRecordTx` accepts: the stored version again, a creation, or the
    version that follows the stored one. -/
theorem putRecord_ok {st st' : Store} {env : Envelope} :
    st.putRecord C env = .ok st' ↔ env.Valid ∧
      ((∃ stored, st.head env.context.recordID = some stored ∧
          toInt64 env.context.rev = toInt64 stored.context.rev ∧
          env.digest C = stored.digest C ∧ st' = st) ∨
       (st.head env.context.recordID = none ∧ env.context.rev = 1 ∧
          st' = st.writeHead env (env.digest C)) ∨
       (∃ stored, st.head env.context.recordID = some stored ∧
          ¬ (toInt64 env.context.rev = toInt64 stored.context.rev ∧
            env.digest C = stored.digest C) ∧
          toInt64 env.context.rev = toInt64 (toInt64 stored.context.rev + 1) ∧
          env.context.parentDigest = some (stored.digest C) ∧
          st' = st.writeHead env (env.digest C))) := by
  simp only [putRecord, Except.bind_eq_ok, Except.mapError_eq_ok, Envelope.validate_eq_ok,
    Envelope.digestE_eq_ok]
  constructor
  · rintro ⟨-, hv, _, ⟨-, rfl⟩, h⟩
    refine ⟨hv, ?_⟩
    rcases hh : st.head env.context.recordID with _ | stored
    · simp only [hh, Except.require_bind_eq_ok, Except.pure_eq_ok, Except.ok.injEq] at h
      exact Or.inr (Or.inl ⟨rfl, h.1, h.2.symm⟩)
    · simp only [hh] at h
      split_ifs at h with hsame
      · exact Or.inl ⟨stored, rfl, hsame.1, hsame.2, (Except.ok.inj h).symm⟩
      · simp only [Except.require_bind_eq_ok, Except.pure_eq_ok, Except.ok.injEq] at h
        exact Or.inr (Or.inr ⟨stored, rfl, hsame, h.1,
          (bytesEqual_some (stored.digest_ne_nil C)).1 h.2.1, h.2.2.symm⟩)
  · rintro ⟨hv, h⟩
    refine ⟨(), hv, _, ⟨hv.signature, rfl⟩, ?_⟩
    rcases h with ⟨stored, hh, h1, h2, rfl⟩ | ⟨hh, h1, rfl⟩ | ⟨stored, hh, hne, h1, h2, rfl⟩
    · simp only [hh, h1, h2, and_self, if_true]; rfl
    · simp only [hh, Except.require_bind_eq_ok]; exact ⟨h1, rfl⟩
    · simp only [hh, if_neg hne, Except.require_bind_eq_ok]
      exact ⟨h1, (bytesEqual_some (stored.digest_ne_nil C)).2 h2, rfl⟩

/-! ## Transactions -/

theorem transact_ok {st st' : Store} {body : Store → Except Error Store} :
    st.transact body = (st', .ok ()) ↔ body st = .ok st' := by
  unfold transact
  cases body st <;> simp

theorem transact_error {st st' : Store} {body : Store → Except Error Store} {err : Error} :
    st.transact body = (st', .error err) ↔ body st = .error err ∧ st' = st := by
  unfold transact
  cases body st <;> simp [and_comm, eq_comm]

theorem acceptOutbox_ok {st st' : Store} {env : Envelope} {seq : ℕ} :
    st.acceptOutbox C env seq = .ok st' ↔ env.Valid ∧
      st' = (st.writeHead { env with seq := seq } (env.digest C)).dequeue env.context.mutationID := by
  simp only [acceptOutbox, Except.bind_eq_ok, replaceHead_ok, Except.pure_eq_ok, Except.ok.injEq,
    Envelope.digest_with_seq]
  constructor
  · rintro ⟨_, ⟨hv, rfl⟩, rfl⟩; exact ⟨⟨hv.1, hv.2, hv.3, hv.4⟩, rfl⟩
  · rintro ⟨hv, rfl⟩; exact ⟨_, ⟨⟨hv.1, hv.2, hv.3, hv.4⟩, rfl⟩, rfl⟩

theorem supersede_none_ok {st st' : Store} {head : Envelope} :
    st.supersede C none head = .ok st' ↔ head.Valid ∧
      st' = (st.dequeueRecord head.context.recordID).writeHead head (head.digest C) := by
  simp only [supersede, Except.bind_ok', replaceHead_ok]

theorem resolveConflict_ok {st st' : Store} {candidate : ID} {conflict head : Envelope} :
    st.resolveConflict C candidate conflict head = .ok st' ↔
      ∃ st₁, (st.enqueueOutbox conflict).putRecord C conflict = .ok st₁ ∧ head.Valid ∧
        st' = (st₁.writeHead head (head.digest C)).dequeue candidate := by
  simp only [resolveConflict, Except.bind_eq_ok, replaceHead_ok, Except.pure_eq_ok,
    Except.ok.injEq]
  constructor
  · rintro ⟨st₁, h₁, _, ⟨hv, rfl⟩, rfl⟩; exact ⟨st₁, h₁, hv, rfl⟩
  · rintro ⟨st₁, h₁, hv, rfl⟩; exact ⟨st₁, h₁, _, ⟨hv, rfl⟩, rfl⟩

/-- A transaction leaves a head as it is or installs one of `envs`. -/
structure Installs (envs : List Envelope) (st st' : Store) : Prop where
  head : ∀ id, st'.head id = st.head id ∨
    ∃ e ∈ envs, e.context.recordID = id ∧ e.Valid ∧ st'.head id = some e
  same : SameElse st st'

theorem Installs.refl (envs : List Envelope) (st : Store) : Installs envs st st :=
  ⟨fun _ => Or.inl rfl, .refl st⟩

theorem Installs.trans {envs : List Envelope} {st st' st'' : Store} (h : Installs envs st st')
    (h' : Installs envs st' st'') : Installs envs st st'' := by
  refine ⟨fun id => ?_, h.same.trans h'.same⟩
  rcases h'.head id with heq | hnew
  · rw [heq]; exact h.head id
  · exact Or.inr hnew

theorem Installs.writeHead {envs : List Envelope} {env : Envelope} (henv : env ∈ envs)
    (hv : env.Valid) (st : Store) : Installs envs st (st.writeHead env (env.digest C)) := by
  refine ⟨fun id => ?_, sameElse_writeHead ..⟩
  rw [head_writeHead]
  by_cases hid : id = env.context.recordID
  · exact Or.inr ⟨env, henv, hid.symm, hv, if_pos hid⟩
  · exact Or.inl (if_neg hid)

theorem Installs.putRecord {envs : List Envelope} {env : Envelope} (henv : env ∈ envs)
    {st st' : Store} (h : st.putRecord C env = .ok st') : Installs envs st st' := by
  obtain ⟨hv, ⟨_, -, -, -, rfl⟩ | ⟨-, -, rfl⟩ | ⟨_, -, -, -, -, rfl⟩⟩ := putRecord_ok.1 h
  · exact .refl _ _
  · exact .writeHead henv hv _
  · exact .writeHead henv hv _

theorem putRecord_outbox {st st' : Store} {env : Envelope} (h : st.putRecord C env = .ok st') :
    st'.outbox = st.outbox ∧ st'.cursor = st.cursor := by
  obtain ⟨-, ⟨_, -, -, -, rfl⟩ | ⟨-, -, rfl⟩ | ⟨_, -, -, -, -, rfl⟩⟩ := putRecord_ok.1 h <;>
    exact ⟨rfl, rfl⟩

theorem Installs.applyRemote {envs : List Envelope} {env : Envelope} (henv : env ∈ envs)
    {st st' : Store} (h : st.applyRemote C env = .ok st') : Installs envs st st' := by
  unfold Store.applyRemote at h
  split at h <;> split_ifs at h
  · exact .putRecord henv h
  · obtain ⟨hv, rfl⟩ := replaceHead_ok.1 h; exact .writeHead henv hv _
  · obtain ⟨hv, rfl⟩ := replaceHead_ok.1 h; exact .writeHead henv hv _
  · exact .putRecord henv h

theorem applyRemote_outbox {st st' : Store} {env : Envelope} (h : st.applyRemote C env = .ok st') :
    st'.outbox = st.outbox ∧ st'.cursor = st.cursor := by
  unfold Store.applyRemote at h
  split at h <;> split_ifs at h
  · exact putRecord_outbox h
  · obtain ⟨-, rfl⟩ := replaceHead_ok.1 h; exact ⟨rfl, rfl⟩
  · obtain ⟨-, rfl⟩ := replaceHead_ok.1 h; exact ⟨rfl, rfl⟩
  · exact putRecord_outbox h

/-- A batch of local edits: each head it replaces is one of the edits, and each edit
    is pending afterwards, unless its mutation was. -/
theorem applyLocalBatch_ok {st st' : Store} {envs : List Envelope}
    (h : st.applyLocalBatch C envs = .ok st') :
    Installs envs st st' ∧ st'.cursor = st.cursor ∧ st.outbox ⊆ st'.outbox ∧
      (∀ e ∈ st'.outbox, e ∈ st.outbox ∨ e ∈ envs) ∧
      ∀ env ∈ envs, ∃ e ∈ st'.outbox, e.context.mutationID = env.context.mutationID := by
  unfold applyLocalBatch at h
  induction envs generalizing st with
  | nil => cases h; exact ⟨.refl _ _, rfl, fun _ h => h, fun _ h => Or.inl h, nofun⟩
  | cons env envs ih =>
    rw [List.foldlM_cons, Except.bind_eq_ok] at h
    obtain ⟨st₁, h₁, h⟩ := h
    obtain ⟨hi, hc, hsub, hmem, hpend⟩ := ih h
    obtain ⟨hout, hcur⟩ := putRecord_outbox h₁
    have hi₁ : Installs (env :: envs) st st₁ := by
      have hp := Installs.putRecord (List.mem_cons_self (l := envs)) h₁
      exact ⟨fun id => by simpa using hp.head id, (sameElse_enqueueOutbox ..).trans hp.same⟩
    have hi' : Installs (env :: envs) st₁ st' :=
      ⟨fun id => (hi.head id).imp_right fun ⟨e, he, h⟩ => ⟨e, List.mem_cons_of_mem _ he, h⟩, hi.same⟩
    refine ⟨hi₁.trans hi', ?_, fun e he => ?_, fun e he => ?_, fun e he => ?_⟩
    · rw [hc, hcur, cursor_enqueueOutbox]
    · exact hsub (hout ▸ subset_enqueueOutbox st env he)
    · rcases hmem e he with he | he
      · rw [hout] at he
        rcases mem_enqueueOutbox he with he | rfl
        · exact Or.inl he
        · exact Or.inr List.mem_cons_self
      · exact Or.inr (List.mem_cons_of_mem _ he)
    · rcases List.mem_cons.1 he with rfl | he
      · obtain ⟨x, hx, hm⟩ := exists_enqueueOutbox st e
        exact ⟨x, hsub (hout ▸ hx), hm⟩
      · exact hpend e he

/-- Once a record has a head, a batch accepts no other version of its revision. -/
theorem applyLocalBatch_again {st st' : Store} {envs : List Envelope}
    (h : st.applyLocalBatch C envs = .ok st') {id : ID} {x : Envelope} (hx : st.head id = some x)
    (hrev : ∀ b ∈ envs, b.context.recordID = id → toInt64 b.context.rev = toInt64 x.context.rev) :
    ∀ b ∈ envs, b.context.recordID = id → b.digest C = x.digest C := by
  unfold applyLocalBatch at h
  induction envs generalizing st with
  | nil => exact fun b hb => absurd hb List.not_mem_nil
  | cons env envs ih =>
    rw [List.foldlM_cons, Except.bind_eq_ok] at h
    obtain ⟨st₁, h₁, h⟩ := h
    have hx₁ : (st.enqueueOutbox env).head id = some x := (head_enqueueOutbox ..).trans hx
    -- the head stays, and a version of the record is this head
    have hput : st₁.head id = some x ∧ (env.context.recordID = id → env.digest C = x.digest C) := by
      have hid : env.context.recordID = id →
          (st.enqueueOutbox env).head env.context.recordID = some x := fun hid => hid ▸ hx₁
      obtain ⟨-, ⟨stored, hs, -, hdig, rfl⟩ | ⟨hs, -, rfl⟩ | ⟨stored, hs, -, hnext, -, rfl⟩⟩ :=
        putRecord_ok.1 h₁
      · refine ⟨hx₁, fun hr => ?_⟩
        rw [hdig, Option.some.inj (hs.symm.trans (hid hr))]
      · have hr : env.context.recordID ≠ id := fun hr => by rw [hid hr] at hs; cases hs
        exact ⟨by rw [head_writeHead, if_neg hr.symm, hx₁], fun h => absurd h hr⟩
      · have hr : env.context.recordID ≠ id := fun hr => by
          rw [Option.some.inj (hs.symm.trans (hid hr)), hrev env List.mem_cons_self hr] at hnext
          unfold toInt64 at hnext
          omega
        exact ⟨by rw [head_writeHead, if_neg hr.symm, hx₁], fun h => absurd h hr⟩
    intro b hb
    rcases List.mem_cons.1 hb with rfl | hb
    · exact hput.2
    · exact ih h hput.1 (fun b hb => hrev b (List.mem_cons_of_mem _ hb)) b hb

/-- Versions of a record with one revision that a batch accepts are one version. -/
theorem applyLocalBatch_twin {st st' : Store} {envs : List Envelope}
    (h : st.applyLocalBatch C envs = .ok st') {id : ID} {rev : ℕ}
    (hrev : ∀ b ∈ envs, b.context.recordID = id → b.context.rev = rev) :
    ∀ a ∈ envs, ∀ b ∈ envs, a.context.recordID = id → b.context.recordID = id →
      a.digest C = b.digest C := by
  unfold applyLocalBatch at h
  induction envs generalizing st with
  | nil => exact fun b hb => absurd hb List.not_mem_nil
  | cons env envs ih =>
    rw [List.foldlM_cons, Except.bind_eq_ok] at h
    obtain ⟨st₁, h₁, h⟩ := h
    have hrest := ih h fun b hb => hrev b (List.mem_cons_of_mem _ hb)
    have hfirst : env.context.recordID = id → ∀ b ∈ envs, b.context.recordID = id →
        b.digest C = env.digest C := by
      intro hid b hb hb'
      have hsame : ∀ c ∈ envs, c.context.recordID = id →
          toInt64 c.context.rev = toInt64 env.context.rev := fun c hc hc' => by
        rw [hrev c (List.mem_cons_of_mem _ hc) hc', hrev env List.mem_cons_self hid]
      obtain ⟨-, ⟨stored, hs, hr, hdig, rfl⟩ | ⟨-, -, rfl⟩ | ⟨-, -, -, -, -, rfl⟩⟩ :=
        putRecord_ok.1 h₁
      · rw [hdig]
        exact applyLocalBatch_again h (hid ▸ hs) (fun c hc hc' => (hsame c hc hc').trans hr) b hb hb'
      · exact applyLocalBatch_again h (by rw [head_writeHead, if_pos hid.symm]) hsame b hb hb'
      · exact applyLocalBatch_again h (by rw [head_writeHead, if_pos hid.symm]) hsame b hb hb'
    intro a ha b hb hida hidb
    rcases List.mem_cons.1 ha with rfl | ha' <;> rcases List.mem_cons.1 hb with rfl | hb'
    · rfl
    · exact (hfirst hida b hb' hidb).symm
    · exact hfirst hidb a ha' hida
    · exact hrest a ha' b hb' hida hidb

theorem NodupOutbox.applyLocalBatch {st st' : Store} {envs : List Envelope} (hn : st.NodupOutbox)
    (h : st.applyLocalBatch C envs = .ok st') : st'.NodupOutbox :=
  Except.foldlM_induct (P := NodupOutbox) h hn fun env _ _ _ hx hP =>
    (hP.enqueueOutbox env).of_eq (putRecord_outbox hx).1

/-- A page of changes: each head it replaces is one of the changes. -/
theorem applyRemoteBatch_ok {st st' : Store} {cursor : ℕ} {envs : List Envelope}
    (h : st.applyRemoteBatch C cursor envs = .ok st') :
    Installs envs st st' ∧ st'.outbox = st.outbox ∧ st'.cursor = some cursor := by
  simp only [applyRemoteBatch, Except.bind_eq_ok, Except.pure_eq_ok, Except.ok.injEq] at h
  obtain ⟨st₁, h₁, rfl⟩ := h
  have hfold : Installs envs st st₁ ∧ st₁.outbox = st.outbox := by
    refine Except.foldlM_induct (P := fun st₁ => Installs envs st st₁ ∧ st₁.outbox = st.outbox) h₁
      ⟨.refl _ _, rfl⟩ ?_
    rintro env henv a b hb ⟨ha, hout⟩
    exact ⟨ha.trans (.applyRemote henv hb), (applyRemote_outbox hb).1.trans hout⟩
  exact ⟨⟨hfold.1.head, ⟨hfold.1.same.1, hfold.1.same.2, hfold.1.same.3, hfold.1.same.4,
    hfold.1.same.5⟩⟩, hfold.2, rfl⟩

end Store

end Sshstate.Vault
