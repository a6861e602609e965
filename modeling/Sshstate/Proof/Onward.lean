/-
  The stored heads move on: a batch of edits or of changes never puts a head back.

  `Behind e h`: the version `e` of a record is older than `h`, or the same.  A store
  has `Reached` a version when its head of the record is not behind it.  As long as no
  revision comes to the end of `int64` (`Small`), `Writes` says what `putRecordTx` and
  `applyRemoteTx` do; from it come `Onward`, by which no head is put back, and
  `Advances`, which also follows the parents (`applyRemoteBatch_advances`).
-/
import Sshstate.Proof.Vault
import Sshstate.Protocol.Sample

namespace Sshstate

/-- `e` is an older version than `h`, or the same. -/
def Behind (C : Suite) (e h : Envelope) : Prop :=
  e.context.rev < h.context.rev ∨ e.context.rev = h.context.rev ∧ e.digest C = h.digest C

namespace Behind

variable {C : Suite} {e e' h : Envelope}

theorem refl (e : Envelope) : Behind C e e := Or.inr ⟨rfl, rfl⟩

theorem trans (h₁ : Behind C e e') (h₂ : Behind C e' h) : Behind C e h := by
  rcases h₁ with h₁ | ⟨hr₁, hd₁⟩ <;> rcases h₂ with h₂ | ⟨hr₂, hd₂⟩
  · exact Or.inl (h₁.trans h₂)
  · exact Or.inl (hr₂ ▸ h₁)
  · exact Or.inl (hr₁.symm ▸ h₂)
  · exact Or.inr ⟨hr₁.trans hr₂, hd₁.trans hd₂⟩

theorem rev_le (h₁ : Behind C e h) : e.context.rev ≤ h.context.rev := by
  rcases h₁ with h₁ | ⟨hr, -⟩
  · exact h₁.le
  · exact hr.le

end Behind

namespace Vault.Store

variable {C : Suite} {st st' st'' : Store} {env : Envelope}

/-- The stored heads have a next revision that fits an `int64`. -/
def Small (st : Store) : Prop := ∀ id h, st.head id = some h → h.context.rev < maxInt64

/-- The stored head of the record is not behind `e`. -/
def Reached (C : Suite) (st : Store) (e : Envelope) : Prop :=
  ∃ h, st.head e.context.recordID = some h ∧ Behind C e h

/-- No head is put back. -/
def Onward (C : Suite) (st st' : Store) : Prop :=
  ∀ id h, st.head id = some h → ∃ h', st'.head id = some h' ∧ Behind C h h'

theorem Onward.refl (st : Store) : Onward C st st := fun _ h hh => ⟨h, hh, .refl h⟩

theorem Onward.trans (h₁ : Onward C st st') (h₂ : Onward C st' st'') : Onward C st st'' := by
  intro id h hh
  obtain ⟨h', hh', hb⟩ := h₁ id h hh
  obtain ⟨h'', hh'', hb'⟩ := h₂ id h' hh'
  exact ⟨h'', hh'', hb.trans hb'⟩

theorem Reached.mono (h : Onward C st st') {e : Envelope} (he : st.Reached C e) : st'.Reached C e := by
  obtain ⟨x, hx, hb⟩ := he
  obtain ⟨x', hx', hb'⟩ := h _ x hx
  exact ⟨x', hx', hb.trans hb'⟩

/-- The head `env` is installed. -/
theorem Onward.writeHead (h : ∀ x, st.head env.context.recordID = some x → Behind C x env)
    (d : Bytes) : Onward C st (st.writeHead env d) := by
  intro id x hx
  rw [head_writeHead]
  by_cases hid : id = env.context.recordID
  · exact ⟨env, if_pos hid, h x (hid ▸ hx)⟩
  · exact ⟨x, (if_neg hid).trans hx, .refl x⟩

theorem Reached.writeHead (st : Store) (env : Envelope) (d : Bytes) :
    (st.writeHead env d).Reached C env :=
  ⟨env, by rw [head_writeHead, if_pos rfl], .refl env⟩

theorem Small.writeHead (h : st.Small) (henv : env.context.rev < maxInt64) (d : Bytes) :
    (st.writeHead env d).Small := by
  intro id x hx
  rw [head_writeHead] at hx
  split_ifs at hx with hid
  · cases hx; exact henv
  · exact h id x hx

/-- What a transaction on one version does: no head is put back, and the version is reached. -/
structure Takes (C : Suite) (st st' : Store) (env : Envelope) : Prop where
  onward : Onward C st st'
  reached : st'.Reached C env
  small : st'.Small

theorem Takes.writeHead (hs : st.Small) (henv : env.context.rev < maxInt64)
    (h : ∀ x, st.head env.context.recordID = some x → x.context.rev < env.context.rev) :
    Takes C st (st.writeHead env (env.digest C)) env :=
  ⟨.writeHead (fun x hx => Or.inl (h x hx)) _, .writeHead .., hs.writeHead henv _⟩

/-- What a transaction on one version does to the store, in exact revisions: the version is
    stored already, it is the first of its record that the store has, it follows the stored
    one, or it leaves revisions out. -/
inductive Writes (C : Suite) (st : Store) (env : Envelope) : Store → Prop
  | again {stored : Envelope} (head : st.head env.context.recordID = some stored)
      (rev : env.context.rev = stored.context.rev) (digest : env.digest C = stored.digest C) :
      Writes C st env st
  | first (head : st.head env.context.recordID = none) :
      Writes C st env (st.writeHead env (env.digest C))
  | next {stored : Envelope} (head : st.head env.context.recordID = some stored)
      (rev : env.context.rev = stored.context.rev + 1)
      (parent : env.context.parentDigest = some (stored.digest C)) :
      Writes C st env (st.writeHead env (env.digest C))
  | jump {stored : Envelope} (head : st.head env.context.recordID = some stored)
      (rev : stored.context.rev + 1 < env.context.rev) :
      Writes C st env (st.writeHead env (env.digest C))

/-- Below the end of `int64` the next revision is the next number. -/
theorem toInt64_succ {n : ℕ} (h : n < maxInt64) : toInt64 (toInt64 n + 1) = n + 1 := by
  unfold maxInt64 at h
  unfold toInt64
  omega

theorem writes_putRecord (hs : st.Small) (henv : env.context.rev < maxInt64)
    (h : st.putRecord C env = .ok st') : Writes C st env st' := by
  obtain ⟨-, ⟨stored, hh, hrev, hd, rfl⟩ | ⟨hh, -, rfl⟩ | ⟨stored, hh, -, hrev, hp, rfl⟩⟩ :=
    putRecord_ok.1 h
  · have hst := hs _ stored hh
    rw [toInt64_eq henv.le, toInt64_eq hst.le] at hrev
    exact .again hh (by exact_mod_cast hrev) hd
  · exact .first hh
  · rw [toInt64_eq henv.le, toInt64_succ (hs _ stored hh)] at hrev
    exact .next hh (by exact_mod_cast hrev) hp

theorem writes_applyRemote (hs : st.Small) (henv : env.context.rev < maxInt64)
    (h : st.applyRemote C env = .ok st') : Writes C st env st' := by
  unfold Store.applyRemote at h
  split at h <;> split_ifs at h with hc
  next hh => exact writes_putRecord hs henv h
  next hh =>
    obtain ⟨-, rfl⟩ := replaceHead_ok.1 h
    exact .first hh
  next stored hh =>
    obtain ⟨-, rfl⟩ := replaceHead_ok.1 h
    rw [toInt64_eq henv.le, toInt64_succ (hs _ stored hh)] at hc
    exact .jump hh (by exact_mod_cast hc)
  next => exact writes_putRecord hs henv h

theorem Writes.takes (hw : Writes C st env st') (hs : st.Small) (henv : env.context.rev < maxInt64) :
    Takes C st st' env := by
  cases hw with
  | again hh hrev hd => exact ⟨.refl _, ⟨_, hh, Or.inr ⟨hrev, hd⟩⟩, hs⟩
  | first hh => exact .writeHead hs henv fun x hx => by rw [hh] at hx; cases hx
  | next hh hrev hp =>
    refine .writeHead hs henv fun x hx => ?_
    obtain rfl := Option.some.inj (hh.symm.trans hx)
    omega
  | jump hh hrev =>
    refine .writeHead hs henv fun x hx => ?_
    obtain rfl := Option.some.inj (hh.symm.trans hx)
    omega

theorem takes_applyRemote (hs : st.Small) (henv : env.context.rev < maxInt64)
    (h : st.applyRemote C env = .ok st') : Takes C st st' env :=
  (writes_applyRemote hs henv h).takes hs henv

theorem onward_applyRemote {envs : List Envelope} (hs : st.Small)
    (henvs : ∀ e ∈ envs, e.context.rev < maxInt64)
    (h : envs.foldlM (fun st env => st.applyRemote C env) st = .ok st') :
    Onward C st st' ∧ ∀ e ∈ envs, st'.Reached C e := by
  induction envs generalizing st with
  | nil => cases h; exact ⟨.refl _, fun _ he => absurd he List.not_mem_nil⟩
  | cons env envs ih =>
    rw [List.foldlM_cons, Except.bind_eq_ok] at h
    obtain ⟨st₁, h₁, h⟩ := h
    have ht := takes_applyRemote hs (henvs env List.mem_cons_self) h₁
    obtain ⟨hon, hall⟩ := ih ht.small (fun e he => henvs e (List.mem_cons_of_mem _ he)) h
    refine ⟨ht.onward.trans hon, fun e he => ?_⟩
    rcases List.mem_cons.1 he with rfl | he
    · exact ht.reached.mono hon
    · exact hall e he

/-! ## Batches of changes -/

/-- No revision goes back, a head whose revision stays is not replaced, and one whose
    revision goes up by one is replaced by a version built on it. -/
def Advances (C : Suite) (st st' : Store) : Prop :=
  ∀ id h, st.head id = some h → ∃ h', st'.head id = some h' ∧ h.context.rev ≤ h'.context.rev ∧
    (h'.context.rev = h.context.rev → h' = h) ∧
    (h'.context.rev = h.context.rev + 1 → h'.context.parentDigest = some (h.digest C))

theorem Advances.refl (st : Store) : Advances C st st :=
  fun _ h hh => ⟨h, hh, Nat.le_refl _, fun _ => rfl, fun hr => by omega⟩

theorem Advances.trans (h₁ : Advances C st st') (h₂ : Advances C st' st'') : Advances C st st'' := by
  intro id h hh
  obtain ⟨h', hh', hle, hsame, hnext⟩ := h₁ id h hh
  obtain ⟨h'', hh'', hle', hsame', hnext'⟩ := h₂ id h' hh'
  refine ⟨h'', hh'', hle.trans hle', fun hr => ?_, fun hr => ?_⟩
  · rw [hsame' (by omega), hsame (by omega)]
  · -- one of the two revisions stays, so one of the two heads does
    rcases Nat.eq_or_lt_of_le hle with heq | hlt
    · rw [hsame heq.symm] at hnext'
      exact hnext' hr
    · rw [hsame' (by omega)]
      exact hnext (by omega)

theorem Writes.advances (hw : Writes C st env st') : Advances C st st' := by
  have write : (∀ x, st.head env.context.recordID = some x → x.context.rev < env.context.rev ∧
      (env.context.rev = x.context.rev + 1 → env.context.parentDigest = some (x.digest C))) →
      Advances C st (st.writeHead env (env.digest C)) := by
    intro hx id h hh
    rw [head_writeHead]
    by_cases hid : id = env.context.recordID
    · obtain ⟨hlt, hnext⟩ := hx h (hid ▸ hh)
      exact ⟨env, if_pos hid, hlt.le, fun hr => by omega, hnext⟩
    · obtain ⟨h', hh', hrest⟩ := Advances.refl (C := C) st id h hh
      exact ⟨h', (if_neg hid).trans hh', hrest⟩
  cases hw with
  | again => exact .refl st
  | first hh => exact write fun x hx => by rw [hh] at hx; cases hx
  | next hh hrev hp =>
    refine write fun x hx => ?_
    obtain rfl := Option.some.inj (hh.symm.trans hx)
    exact ⟨by omega, fun _ => hp⟩
  | jump hh hrev =>
    refine write fun x hx => ?_
    obtain rfl := Option.some.inj (hh.symm.trans hx)
    exact ⟨by omega, fun hr => by omega⟩

/-- Each turn of the loop of `ApplyRemoteBatch`, and the loop. -/
theorem advances_applyRemote {envs : List Envelope} (hs : st.Small)
    (henvs : ∀ e ∈ envs, e.context.rev < maxInt64)
    (h : envs.foldlM (fun st env => st.applyRemote C env) st = .ok st') :
    Advances C st st' ∧ st'.Small := by
  refine Except.foldlM_induct (P := fun x => Advances C st x ∧ x.Small) h ⟨.refl _, hs⟩ ?_
  rintro env henv x x' hx ⟨hadv, hsm⟩
  have hw := writes_applyRemote hsm (henvs env henv) hx
  exact ⟨hadv.trans hw.advances, (hw.takes hsm (henvs env henv)).small⟩

/-- **Main result.** Remote batches are monotone and atomic.  For revisions below the end of
    `int64`, a batch that is applied advances every record as a whole and in each of its
    steps, reaches the revision of each of its envelopes, and leaves the given cursor; one
    that fails leaves the store as it was. -/
theorem applyRemoteBatch_advances {batch : List Envelope} {cursor : ℕ} (hs : st.Small)
    (hbatch : ∀ e ∈ batch, e.context.rev < maxInt64) :
    (∀ st', st.transact (·.applyRemoteBatch C cursor batch) = (st', .ok ()) →
      Advances C st st' ∧
      (∀ pre env post s s', batch = pre ++ env :: post →
        pre.foldlM (fun st env => st.applyRemote C env) st = .ok s → s.applyRemote C env = .ok s' →
        Advances C s s') ∧
      (∀ e ∈ batch, ∃ h, st'.head e.context.recordID = some h ∧ e.context.rev ≤ h.context.rev) ∧
      st'.cursor = some cursor) ∧
    ∀ st' err, st.transact (·.applyRemoteBatch C cursor batch) = (st', .error err) → st' = st := by
  refine ⟨fun st' h => ?_, fun st' err h => (transact_error.1 h).2⟩
  have h := transact_ok.1 h
  have hcursor := (applyRemoteBatch_ok h).2.2
  simp only [applyRemoteBatch, Except.bind_eq_ok, Except.pure_eq_ok, Except.ok.injEq] at h
  obtain ⟨st₁, h₁, rfl⟩ := h
  refine ⟨(advances_applyRemote hs hbatch h₁).1, ?_, fun e he => ?_, hcursor⟩
  · rintro pre env post s s' rfl hpre henv
    have hsm := (advances_applyRemote hs (fun e he => hbatch e (List.mem_append_left _ he)) hpre).2
    exact (writes_applyRemote hsm (hbatch env (by simp)) henv).advances
  · obtain ⟨h, hh, hb⟩ := (onward_applyRemote hs hbatch h₁).2 e he
    exact ⟨h, hh, hb.rev_le⟩

namespace Batch01

/-- Three versions of a record; the store has the first. -/
def first : Envelope := Sample.version (Sample.id 0x0a) [10] (Sample.id 0x11) (Sample.id 0x21) 1 none

def second : Envelope :=
  Sample.version (Sample.id 0x0a) [10] (Sample.id 0x11) (Sample.id 0x22) 2 (some (first.digest sample))

def fifth : Envelope :=
  Sample.version (Sample.id 0x0a) [10] (Sample.id 0x11) (Sample.id 0x25) 5
    (some (List.replicate sha256Size 4))

def store : Store := Store.empty.writeHead first (first.digest sample)

/-- A batch with a repetition and a gap. -/
def batch : List Envelope := [first, second, second, fifth]

theorem small_store : store.Small := by
  have hempty : Store.empty.Small := fun _ _ h => absurd h (by simp [Store.head, Store.empty])
  exact hempty.writeHead (by decide) _

/-- The batch is applied, and the two versions in the wrong order are refused. -/
theorem applyRemoteBatch_advances_batch :
    (∃ st', store.transact (·.applyRemoteBatch sample 4 batch) = (st', .ok ()) ∧
      Advances sample store st' ∧ st'.head (Sample.id 0x11) = some fifth ∧ st'.cursor = some 4) ∧
    ∃ err, store.transact (·.applyRemoteBatch sample 4 [second, first]) = (store, .error err) := by
  have hrev : ∀ e ∈ batch, e.context.rev < maxInt64 := by decide
  constructor
  · have hok := Except.eq_ok_get (x := store.applyRemoteBatch sample 4 batch) (by decide)
    have h : store.transact (·.applyRemoteBatch sample 4 batch) = (_, .ok ()) := transact_ok.2 hok
    obtain ⟨hadv, -, -, hcursor⟩ := (applyRemoteBatch_advances small_store hrev).1 _ h
    exact ⟨_, h, hadv, by decide, hcursor⟩
  · have hfails : (store.transact (·.applyRemoteBatch sample 4 [second, first])).2.toBool = false := by
      decide
    rcases h : store.transact (·.applyRemoteBatch sample 4 [second, first]) with ⟨st', err | ⟨⟩⟩
    · exact ⟨err, by rw [(applyRemoteBatch_advances small_store (by decide)).2 st' err h]⟩
    · rw [h] at hfails; cases hfails

end Batch01

end Vault.Store

end Sshstate
