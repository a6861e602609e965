/-
  What one step of a Sync can do.

  `work_effect` says it for the store: four phases run a transaction on the
  records, every other step leaves records, outbox and cursor alone; `work_else`
  says it for the other tables.
  `work_advances` says it for the candidates and changes that a Sync holds.
  `work_chain` and `receive_chain` say that a Sync works with one chain from the
  moment it has accepted it.
-/
import Sshstate.Proof.Vault
import Sshstate.Sync.Engine

namespace Sshstate.Sync

open Vault (Store)

variable {C : Suite} {e : Engine} {d : Draw} {st st' : Store} {p p' : Phase}

/-! ## The store -/

/-- The effect of a step of phase `p` on the store. -/
inductive Effect (C : Suite) (st : Store) : Phase → Store → Prop
  | quiet {p : Phase} {st' : Store} (records : st'.records = st.records)
      (outbox : st'.outbox = st.outbox) (cursor : st'.cursor = st.cursor) : Effect C st p st'
  | accept {l : Locals} {c : Envelope} {seq : ℕ} {rest : List Envelope} {st' : Store}
      (h : st.acceptOutbox C c seq = .ok st') : Effect C st (.accept l c seq rest) st'
  | supersede {l : Locals} {c head : Envelope} {rest : List Envelope} {st' : Store}
      (h : st.supersede C none head = .ok st') : Effect C st (.supersede l c head rest) st'
  | resolve {l : Locals} {c k head : Envelope} {rest : List Envelope} {st' : Store}
      (h : st.resolveConflict C c.context.mutationID k head = .ok st') :
      Effect C st (.resolve l c k head rest) st'
  | apply {l : Locals} {page : RecordsResponse} {envs : List Envelope} {st' : Store}
      (h : st.applyRemoteBatch C page.nextCursor envs = .ok st') :
      Effect C st (.applyPage l page envs) st'

theorem Effect.same (p : Phase) (st : Store) : Effect C st p st := .quiet rfl rfl rfl

theorem commit_eq {tx : Except Error Store} {next : Phase} (h : commit st tx next = (st', p')) :
    tx = .ok st' ∧ p' = next ∨ st' = st ∧ ∃ err, p' = .failed err := by
  unfold commit at h
  split at h <;> simp only [Prod.mk.injEq] at h
  · exact Or.inl ⟨by rw [h.1], h.2.symm⟩
  · exact Or.inr ⟨h.1.symm, _, h.2.symm⟩

theorem putMembershipEvents_ok {events : List SignedMembershipEvent}
    (h : st.putMembershipEvents C events = .ok st') : st' = { st with membership := events } := by
  simp only [Store.putMembershipEvents, Except.bind_eq_ok, Except.pure_eq_ok, Except.ok.injEq] at h
  obtain ⟨_, -, rfl⟩ := h
  rfl

theorem work_effect (h : work C e d st p = some (st', p')) : Effect C st p st' := by
  cases p with
  | accept l c seq rest =>
    rcases commit_eq (Option.some.inj h) with ⟨htx, -⟩ | ⟨rfl, -⟩
    · exact .accept htx
    · exact .same _ _
  | supersede l c head rest =>
    rcases commit_eq (Option.some.inj h) with ⟨htx, -⟩ | ⟨rfl, -⟩
    · exact .supersede htx
    · exact .same _ _
  | resolve l c k head rest =>
    rcases commit_eq (Option.some.inj h) with ⟨htx, -⟩ | ⟨rfl, -⟩
    · exact .resolve htx
    · exact .same _ _
  | applyPage l page envs =>
    rcases commit_eq (Option.some.inj h) with ⟨htx, -⟩ | ⟨rfl, -⟩
    · exact .apply htx
    · exact .same _ _
  | putMembership known chain =>
    simp only [work] at h
    split at h <;> cases h
    · next htx => rw [putMembershipEvents_ok htx]; exact .quiet rfl rfl rfl
    · exact .same _ _
  | putDevice known chain dev todo newlyRevoked => cases h; exact .quiet rfl rfl rfl
  | noteRefusal err => cases h; exact .quiet rfl rfl rfl
  | recordHistory l history => cases h; exact .quiet rfl rfl rfl
  | writeRevocation l through id todo => cases h; exact .quiet rfl rfl rfl
  | compareMembership known events =>
    simp only [work] at h
    split at h <;> cases h <;> exact .same _ _
  | preserve l c head rest =>
    simp only [work] at h
    split at h <;> cases h <;> exact .same _ _
  | verifyChange l page env todo envs =>
    simp only [work] at h
    split at h <;> cases h <;> exact .same _ _
  | compareHead l page env todo envs =>
    simp only [work] at h
    split at h <;> cases h <;> exact .same _ _
  | start => cases h; exact .same _ _
  | revocationNoted known chain id todo newlyRevoked => cases h; exact .same _ _
  | readCursor l => cases h; exact .same _ _
  | checkLatest l since latest => cases h; exact .same _ _
  | readOutbox l => cases h; exact .same _ _
  | pullCursor l => cases h; exact .same _ _
  | noteRevocation l through id todo => cases h; exact .same _ _
  | fetchMembership known => cases h
  | fetchLatest l since => cases h
  | push l c rest => cases h
  | fetchPage l since through => cases h
  | done report => cases h
  | failed err => cases h

/-- The envelopes a phase may make heads of. -/
def Phase.installs : Phase → List Envelope
  | .accept _ c seq _ => [{ c with seq := seq }]
  | .supersede _ _ head _ => [head]
  | .resolve _ _ k head _ => [k, head]
  | .applyPage _ _ envs => envs
  | _ => []

theorem Effect.head (h : Effect C st p st') (id : ID) :
    st'.head id = st.head id ∨
      ∃ env ∈ p.installs, env.context.recordID = id ∧ st'.head id = some env := by
  cases h with
  | quiet records outbox cursor => left; rw [Store.head, records]; rfl
  | accept h =>
    obtain ⟨-, rfl⟩ := Store.acceptOutbox_ok.1 h
    rw [Store.head_dequeue, Store.head_writeHead]
    split_ifs with hid
    · exact Or.inr ⟨_, List.mem_cons_self, hid.symm, rfl⟩
    · exact Or.inl rfl
  | supersede h =>
    obtain ⟨-, rfl⟩ := Store.supersede_none_ok.1 h
    rw [Store.head_writeHead]
    split_ifs with hid
    · exact Or.inr ⟨_, List.mem_cons_self, hid.symm, rfl⟩
    · exact Or.inl rfl
  | resolve h =>
    obtain ⟨st₁, h₁, -, rfl⟩ := Store.resolveConflict_ok.1 h
    rw [Store.head_dequeue, Store.head_writeHead]
    split_ifs with hid
    · exact Or.inr ⟨_, List.mem_cons_of_mem _ List.mem_cons_self, hid.symm, rfl⟩
    · rcases (Store.Installs.putRecord List.mem_cons_self h₁).head id with heq | ⟨k, hk, hid, -, heq⟩
      · exact Or.inl (heq.trans (Store.head_enqueueOutbox ..))
      · exact Or.inr ⟨k, hk, hid, heq⟩
  | apply h =>
    rcases (Store.applyRemoteBatch_ok h).1.head id with heq | ⟨env, henv, hid, -, heq⟩
    · exact Or.inl heq
    · exact Or.inr ⟨env, henv, hid, heq⟩

/-- Only a conflict record enters the outbox. -/
theorem Effect.outbox (h : Effect C st p st') {env : Envelope} (henv : env ∈ st'.outbox) :
    env ∈ st.outbox ∨ ∃ l c head rest, p = .resolve l c env head rest := by
  cases h with
  | quiet records outbox cursor => exact Or.inl (outbox ▸ henv)
  | accept h =>
    obtain ⟨-, rfl⟩ := Store.acceptOutbox_ok.1 h
    exact Or.inl (Store.mem_dequeue.1 henv).1
  | supersede h =>
    obtain ⟨-, rfl⟩ := Store.supersede_none_ok.1 h
    exact Or.inl (Store.mem_dequeueRecord.1 henv).1
  | resolve h =>
    obtain ⟨st₁, h₁, -, rfl⟩ := Store.resolveConflict_ok.1 h
    have hmem := (Store.mem_dequeue.1 henv).1
    rw [Store.outbox_writeHead, (Store.putRecord_outbox h₁).1] at hmem
    rcases Store.mem_enqueueOutbox hmem with hmem | rfl
    · exact Or.inl hmem
    · exact Or.inr ⟨_, _, _, _, rfl⟩
  | apply h => exact Or.inl ((Store.applyRemoteBatch_ok h).2.1 ▸ henv)

theorem Effect.nodupOutbox (h : Effect C st p st') (hn : st.NodupOutbox) : st'.NodupOutbox := by
  cases h with
  | quiet records outbox cursor => exact hn.of_eq outbox
  | accept h =>
    obtain ⟨-, rfl⟩ := Store.acceptOutbox_ok.1 h
    exact hn.of_sublist List.filter_sublist
  | supersede h =>
    obtain ⟨-, rfl⟩ := Store.supersede_none_ok.1 h
    exact hn.of_sublist List.filter_sublist
  | resolve h =>
    obtain ⟨st₁, h₁, -, rfl⟩ := Store.resolveConflict_ok.1 h
    have hn₁ : st₁.NodupOutbox := (hn.enqueueOutbox _).of_eq (Store.putRecord_outbox h₁).1
    exact hn₁.of_sublist List.filter_sublist
  | apply h => exact hn.of_eq (Store.applyRemoteBatch_ok h).2.1

/-- What leaves the outbox: an accepted candidate, a rejected one, or, when a rejected
    candidate is a conflict record, every pending version of its record. -/
theorem Effect.dropped (h : Effect C st p st') {env : Envelope} (henv : env ∈ st.outbox)
    (hout : env ∉ st'.outbox) :
    (∃ l c seq rest, p = .accept l c seq rest ∧ env.context.mutationID = c.context.mutationID) ∨
    (∃ l c head rest, p = .supersede l c head rest ∧
      env.context.recordID = head.context.recordID ∧ st'.head head.context.recordID = some head) ∨
    (∃ l c k head rest, p = .resolve l c k head rest ∧
      env.context.mutationID = c.context.mutationID ∧
      st'.head head.context.recordID = some head) := by
  cases h with
  | quiet records outbox cursor => exact absurd (outbox ▸ henv) hout
  | accept h =>
    obtain ⟨-, rfl⟩ := Store.acceptOutbox_ok.1 h
    refine Or.inl ⟨_, _, _, _, rfl, by_contra fun hm => hout (Store.mem_dequeue.2 ⟨henv, hm⟩)⟩
  | supersede h =>
    obtain ⟨-, rfl⟩ := Store.supersede_none_ok.1 h
    refine Or.inr (Or.inl ⟨_, _, _, _, rfl, by_contra fun hr => hout ?_, ?_⟩)
    · exact Store.mem_dequeueRecord.2 ⟨henv, hr⟩
    · rw [Store.head_writeHead, if_pos rfl]
  | resolve h =>
    obtain ⟨st₁, h₁, -, rfl⟩ := Store.resolveConflict_ok.1 h
    refine Or.inr (Or.inr ⟨_, _, _, _, _, rfl, by_contra fun hm => hout ?_, ?_⟩)
    · refine Store.mem_dequeue.2 ⟨?_, hm⟩
      rw [Store.outbox_writeHead, (Store.putRecord_outbox h₁).1]
      exact Store.subset_enqueueOutbox _ _ henv
    · rw [Store.head_dequeue, Store.head_writeHead, if_pos rfl]
  | apply h => exact absurd ((Store.applyRemoteBatch_ok h).2.1 ▸ henv) hout

/-! ## The other tables -/

/-- The effect of a step of phase `p` on the tables that no transaction on records
    writes. -/
inductive Else (st : Store) : Phase → Store → Prop
  | same {p : Phase} {st' : Store} (h : Store.SameElse st st') : Else st p st'
  | putMembership {known : ℕ} {chain : Membership.Chain} :
      Else st (.putMembership known chain) { st with membership := chain.events }
  | putDevice {known : ℕ} {chain : Membership.Chain} {dev : Membership.Device}
      {todo : List Membership.Device} {newlyRevoked : List ID} :
      Else st (.putDevice known chain dev todo newlyRevoked) (st.putDevice (Vault.deviceRow dev))
  | noteRefusal {err : Error} : Else st (.noteRefusal err) st.setRevokedNotice
  | recordHistory {l : Locals} {history : String} :
      Else st (.recordHistory l history) (st.setHistory history)
  | writeRevocation {l : Locals} {through : ℕ} {id : ID} {todo : List ID} :
      Else st (.writeRevocation l through id todo) (st.setRevokedAt id through)

theorem Else.refl (p : Phase) (st : Store) : Else st p st := .same (.refl st)

theorem work_else (h : work C e d st p = some (st', p')) : Else st p st' := by
  cases p with
  | accept l c seq rest =>
    rcases commit_eq (Option.some.inj h) with ⟨htx, -⟩ | ⟨rfl, -⟩
    · obtain ⟨-, rfl⟩ := Store.acceptOutbox_ok.1 htx; exact .same ⟨rfl, rfl, rfl, rfl, rfl⟩
    · exact .refl _ _
  | supersede l c head rest =>
    rcases commit_eq (Option.some.inj h) with ⟨htx, -⟩ | ⟨rfl, -⟩
    · obtain ⟨-, rfl⟩ := Store.supersede_none_ok.1 htx; exact .same ⟨rfl, rfl, rfl, rfl, rfl⟩
    · exact .refl _ _
  | resolve l c k head rest =>
    rcases commit_eq (Option.some.inj h) with ⟨htx, -⟩ | ⟨rfl, -⟩
    · obtain ⟨st₁, h₁, -, rfl⟩ := Store.resolveConflict_ok.1 htx
      have hsame := (Store.sameElse_enqueueOutbox st k).trans
        (Store.Installs.putRecord (List.mem_singleton_self k) h₁).same
      exact .same (hsame.trans ⟨rfl, rfl, rfl, rfl, rfl⟩)
    · exact .refl _ _
  | applyPage l page envs =>
    rcases commit_eq (Option.some.inj h) with ⟨htx, -⟩ | ⟨rfl, -⟩
    · exact .same (Store.applyRemoteBatch_ok htx).1.same
    · exact .refl _ _
  | putMembership known chain =>
    simp only [work] at h
    split at h <;> cases h
    · next htx => rw [putMembershipEvents_ok htx]; exact .putMembership
    · exact .refl _ _
  | putDevice known chain dev todo newlyRevoked => cases h; exact .putDevice
  | noteRefusal err => cases h; exact .noteRefusal
  | recordHistory l history => cases h; exact .recordHistory
  | writeRevocation l through id todo => cases h; exact .writeRevocation
  | compareMembership known events =>
    simp only [work] at h
    split at h <;> cases h <;> exact .refl _ _
  | preserve l c head rest =>
    simp only [work] at h
    split at h <;> cases h <;> exact .refl _ _
  | verifyChange l page env todo envs =>
    simp only [work] at h
    split at h <;> cases h <;> exact .refl _ _
  | compareHead l page env todo envs =>
    simp only [work] at h
    split at h <;> cases h <;> exact .refl _ _
  | start => cases h; exact .refl _ _
  | revocationNoted known chain id todo newlyRevoked => cases h; exact .refl _ _
  | readCursor l => cases h; exact .refl _ _
  | checkLatest l since latest => cases h; exact .refl _ _
  | readOutbox l => cases h; exact .refl _ _
  | pullCursor l => cases h; exact .refl _ _
  | noteRevocation l through id todo => cases h; exact .refl _ _
  | fetchMembership known => cases h
  | fetchLatest l since => cases h
  | push l c rest => cases h
  | fetchPage l since through => cases h
  | done report => cases h
  | failed err => cases h

/-! ## The phases -/

/-- A phase that holds no candidate and no change. -/
def Phase.idle : Phase → Bool
  | .push _ _ _ | .accept _ _ _ _ | .supersede _ _ _ _ | .preserve _ _ _ _ | .resolve _ _ _ _ _
  | .verifyChange _ _ _ _ _ | .compareHead _ _ _ _ _ | .applyPage _ _ _ => false
  | _ => true

@[simp] theorem idle_nextDevice (known : ℕ) (chain : Membership.Chain) (newlyRevoked : List ID)
    (todo : List Membership.Device) : (nextDevice known chain newlyRevoked todo).idle = true := by
  cases todo <;> rfl

@[simp] theorem idle_failMembership (err : Error) : (failMembership err).idle = true := by
  unfold failMembership; split_ifs <;> rfl

@[simp] theorem idle_checkLatest (url : String) (l : Locals) (since : ℕ) (stored : String)
    (latest : RecordsResponse) : (checkLatest url l since stored latest).idle = true := by
  unfold checkLatest; split_ifs <;> rfl

@[simp] theorem idle_nextRevocation (l : Locals) (through : ℕ) (todo : List ID) :
    (nextRevocation l through todo).idle = true := by cases todo <;> rfl

@[simp] theorem idle_afterPage (l : Locals) (page : RecordsResponse) :
    (afterPage l page).idle = true := by
  unfold afterPage afterPull
  split_ifs
  · rfl
  · exact idle_nextRevocation ..
  · rfl

/-- How an access to the store moves a Sync through its candidates and changes. -/
inductive Advances (C : Suite) (e : Engine) (draw : Draw) (st : Store) : Phase → Store → Phase → Prop
  | idle {p p' : Phase} {st' : Store} (h : p'.idle = true) : Advances C e draw st p st' p'
  | readOutbox {l : Locals} :
      Advances C e draw st (.readOutbox l) st (nextCandidate l st.pending)
  | accept {l : Locals} {c : Envelope} {seq : ℕ} {rest : List Envelope} {st' : Store}
      (h : st.acceptOutbox C c seq = .ok st') :
      Advances C e draw st (.accept l c seq rest) st' (nextCandidate l.countPushed rest)
  | supersede {l : Locals} {c head : Envelope} {rest : List Envelope} {st' : Store}
      (h : st.supersede C none head = .ok st') :
      Advances C e draw st (.supersede l c head rest) st' (nextCandidate l rest)
  | preserve {l : Locals} {c head k : Envelope} {rest : List Envelope}
      (h : e.manager.preserveCandidate C st c head draw.now draw.mutationID draw.entropy = .ok k) :
      Advances C e draw st (.preserve l c head rest) st (.resolve l c k head rest)
  | resolve {l : Locals} {c k head : Envelope} {rest : List Envelope} {st' : Store}
      (h : st.resolveConflict C c.context.mutationID k head = .ok st') :
      Advances C e draw st (.resolve l c k head rest) st' (nextCandidate l.countPreserved rest)
  | verify {l : Locals} {page : RecordsResponse} {env : Envelope} {todo envs : List Envelope}
      (h : verify C e.manager.genesis st l.chain env = .ok ()) :
      Advances C e draw st (.verifyChange l page env todo envs) st
        (.compareHead l page env todo envs)
  | compare {l : Locals} {page : RecordsResponse} {env : Envelope} {todo envs : List Envelope}
      {apply : Bool} (h : ahead C st env = .ok apply) :
      Advances C e draw st (.compareHead l page env todo envs) st
        (nextChange l page (if apply then envs ++ [env] else envs) todo)

theorem work_advances (h : work C e d st p = some (st', p')) : Advances C e d st p st' p' := by
  cases p with
  | accept l c seq rest =>
    rcases commit_eq (Option.some.inj h) with ⟨htx, rfl⟩ | ⟨-, _, rfl⟩
    · exact .accept htx
    · exact .idle rfl
  | supersede l c head rest =>
    rcases commit_eq (Option.some.inj h) with ⟨htx, rfl⟩ | ⟨-, _, rfl⟩
    · exact .supersede htx
    · exact .idle rfl
  | resolve l c k head rest =>
    rcases commit_eq (Option.some.inj h) with ⟨htx, rfl⟩ | ⟨-, _, rfl⟩
    · exact .resolve htx
    · exact .idle rfl
  | applyPage l page envs =>
    rcases commit_eq (Option.some.inj h) with ⟨-, rfl⟩ | ⟨-, _, rfl⟩
    · exact .idle (idle_afterPage ..)
    · exact .idle rfl
  | compareMembership known events =>
    simp only [work] at h
    split at h <;> cases h
    · exact .idle rfl
    · exact .idle (idle_failMembership _)
  | putMembership known chain =>
    simp only [work] at h
    split at h <;> cases h
    · exact .idle (idle_nextDevice ..)
    · exact .idle (idle_failMembership _)
  | preserve l c head rest =>
    simp only [work] at h
    split at h <;> cases h
    · next hk => exact .preserve hk
    · exact .idle rfl
  | verifyChange l page env todo envs =>
    simp only [work] at h
    split at h <;> cases h
    · next hv => exact .verify hv
    · exact .idle rfl
  | compareHead l page env todo envs =>
    simp only [work] at h
    split at h <;> cases h
    · next ha => exact .compare ha
    · exact .idle rfl
  | putDevice known chain dev todo newlyRevoked =>
    cases h
    refine .idle ?_
    split_ifs
    · rfl
    · exact idle_nextDevice ..
  | noteRevocation l through id todo =>
    cases h
    refine .idle ?_
    split_ifs
    · exact idle_nextRevocation ..
    · rfl
  | revocationNoted known chain id todo newlyRevoked => cases h; exact .idle (idle_nextDevice ..)
  | checkLatest l since latest => cases h; exact .idle (idle_checkLatest ..)
  | writeRevocation l through id todo => cases h; exact .idle (idle_nextRevocation ..)
  | readOutbox l => cases h; exact .readOutbox
  | start => cases h; exact .idle rfl
  | noteRefusal err => cases h; exact .idle rfl
  | readCursor l => cases h; exact .idle rfl
  | recordHistory l history => cases h; exact .idle rfl
  | pullCursor l => cases h; exact .idle rfl
  | fetchMembership known => cases h
  | fetchLatest l since => cases h
  | push l c rest => cases h
  | fetchPage l since through => cases h
  | done report => cases h
  | failed err => cases h

/-! ## The chain -/

theorem compareMembership_ok {events stored : List SignedMembershipEvent} {chain : Membership.Chain} :
    compareMembership C e events stored = .ok chain ↔
      Membership.validate C e.manager.genesis events = .ok chain ∧ stored.length ≤ events.length ∧
        checkStored C 0 stored events = .ok () := by
  simp only [compareMembership, Except.bind_eq_ok, Except.mapError_eq_ok, Except.require_eq_ok,
    Except.pure_eq_ok, Except.ok.injEq]
  constructor
  · rintro ⟨chain, hv, _, hlen, _, hs, rfl⟩; exact ⟨hv, hlen, hs⟩
  · rintro ⟨hv, hlen, hs⟩; exact ⟨chain, hv, (), hlen, (), hs, rfl⟩

/-- The chain a phase works with. -/
def Phase.chain : Phase → Option Membership.Chain
  | .putMembership _ chain | .putDevice _ chain _ _ _ | .revocationNoted _ chain _ _ _ => some chain
  | .readCursor l | .fetchLatest l _ | .checkLatest l _ _ | .recordHistory l _ | .readOutbox l
  | .push l _ _ | .accept l _ _ _ | .supersede l _ _ _ | .preserve l _ _ _ | .resolve l _ _ _ _
  | .pullCursor l | .fetchPage l _ _ | .verifyChange l _ _ _ _ | .compareHead l _ _ _ _
  | .applyPage l _ _ | .noteRevocation l _ _ _ | .writeRevocation l _ _ _ => some l.chain
  | .start | .fetchMembership _ | .compareMembership _ _ | .noteRefusal _ | .done _ | .failed _ => none

/-- `p'` works with the chain of `p`, or with none. -/
def KeepsChain (p p' : Phase) : Prop := p'.chain = none ∨ p'.chain = p.chain

@[simp] theorem chain_failMembership (err : Error) : (failMembership err).chain = none := by
  unfold failMembership; split_ifs <;> rfl

@[simp] theorem chain_nextDevice (known : ℕ) (chain : Membership.Chain) (newlyRevoked : List ID)
    (todo : List Membership.Device) :
    (nextDevice known chain newlyRevoked todo).chain = some chain := by
  cases todo <;> rfl

@[simp] theorem chain_nextCandidate (l : Locals) (rest : List Envelope) :
    (nextCandidate l rest).chain = some l.chain := by cases rest <;> rfl

@[simp] theorem chain_nextChange (l : Locals) (page : RecordsResponse) (envs todo : List Envelope) :
    (nextChange l page envs todo).chain = some l.chain := by cases todo <;> rfl

theorem chain_nextRevocation (l : Locals) (through : ℕ) (todo : List ID) :
    (nextRevocation l through todo).chain = none ∨
      (nextRevocation l through todo).chain = some l.chain := by
  cases todo
  · exact Or.inl rfl
  · exact Or.inr rfl

theorem chain_afterPage (l : Locals) (page : RecordsResponse) :
    (afterPage l page).chain = none ∨ (afterPage l page).chain = some l.chain := by
  unfold afterPage afterPull
  split_ifs
  · exact Or.inr rfl
  · exact chain_nextRevocation (l.pulled page.nextCursor page.snapshotCursor) _ _
  · exact Or.inl rfl

theorem chain_checkLatest (url : String) (l : Locals) (since : ℕ) (stored : String)
    (latest : RecordsResponse) : (checkLatest url l since stored latest).chain = none ∨
      (checkLatest url l since stored latest).chain = some l.chain := by
  unfold checkLatest; split_ifs <;> simp [Phase.chain]

theorem chain_onResult (l : Locals) (c : Envelope) (rest : List Envelope) (r : PutResult) :
    (onResult l c rest r).chain = some l.chain := by
  cases r <;> simp only [onResult]
  · rfl
  · split_ifs <;> rfl

theorem receive_chain {r : Reply} (h : p.receive r = some p') : KeepsChain p p' := by
  unfold Phase.receive at h
  split at h
  · split at h <;> cases h
    · exact Or.inl rfl
    · exact Or.inl (chain_failMembership _)
  · split at h <;> cases h
    · exact Or.inr rfl
    · exact Or.inl rfl
  · split at h <;> cases h
    · exact Or.inr (chain_onResult ..)
    · exact Or.inl rfl
  · split at h <;> cases h
    · exact Or.inr (chain_nextChange ..)
    · exact Or.inl rfl
  · cases h

theorem keepsChain_commit {tx : Except Error Store} {next : Phase} (hn : KeepsChain p next)
    (h : commit st tx next = (st', p')) : KeepsChain p p' := by
  rcases commit_eq h with ⟨-, rfl⟩ | ⟨-, err, rfl⟩
  · exact hn
  · exact Or.inl rfl

/-- A step keeps the chain, or it is the one that accepts it. -/
theorem work_chain (h : work C e d st p = some (st', p')) :
    KeepsChain p p' ∨ ∃ known events chain, p = .compareMembership known events ∧
      compareMembership C e events st.membership = .ok chain ∧ p' = .putMembership known chain := by
  cases p with
  | compareMembership known events =>
    simp only [work] at h
    split at h <;> cases h
    · next chain hc => exact Or.inr ⟨known, events, chain, rfl, hc, rfl⟩
    · exact Or.inl (Or.inl (chain_failMembership _))
  | putMembership known chain =>
    simp only [work] at h
    split at h <;> cases h
    · exact Or.inl (Or.inr (chain_nextDevice ..))
    · exact Or.inl (Or.inl (chain_failMembership _))
  | putDevice known chain dev todo newlyRevoked =>
    cases h
    refine Or.inl (Or.inr ?_)
    split_ifs
    · rfl
    · exact chain_nextDevice ..
  | revocationNoted known chain id todo newlyRevoked =>
    cases h; exact Or.inl (Or.inr (chain_nextDevice ..))
  | checkLatest l since latest => cases h; exact Or.inl (chain_checkLatest ..)
  | readOutbox l => cases h; exact Or.inl (Or.inr (chain_nextCandidate ..))
  | accept l c seq rest =>
    exact Or.inl (keepsChain_commit (Or.inr (chain_nextCandidate l.countPushed rest))
      (Option.some.inj h))
  | supersede l c head rest =>
    exact Or.inl (keepsChain_commit (Or.inr (chain_nextCandidate ..)) (Option.some.inj h))
  | resolve l c k head rest =>
    exact Or.inl (keepsChain_commit (Or.inr (chain_nextCandidate l.countPreserved rest))
      (Option.some.inj h))
  | applyPage l page envs =>
    exact Or.inl (keepsChain_commit (chain_afterPage (l.countApplied envs.length) page)
      (Option.some.inj h))
  | preserve l c head rest =>
    simp only [work] at h
    split at h <;> cases h
    · exact Or.inl (Or.inr rfl)
    · exact Or.inl (Or.inl rfl)
  | verifyChange l page env todo envs =>
    simp only [work] at h
    split at h <;> cases h
    · exact Or.inl (Or.inr rfl)
    · exact Or.inl (Or.inl rfl)
  | compareHead l page env todo envs =>
    simp only [work] at h
    split at h <;> cases h
    · exact Or.inl (Or.inr (chain_nextChange ..))
    · exact Or.inl (Or.inl rfl)
  | noteRevocation l through id todo =>
    cases h
    refine Or.inl ?_
    split_ifs
    · exact chain_nextRevocation ..
    · exact Or.inr rfl
  | writeRevocation l through id todo => cases h; exact Or.inl (chain_nextRevocation ..)
  | start => cases h; exact Or.inl (Or.inl rfl)
  | noteRefusal err => cases h; exact Or.inl (Or.inl rfl)
  | readCursor l => cases h; exact Or.inl (Or.inr rfl)
  | recordHistory l history => cases h; exact Or.inl (Or.inr rfl)
  | pullCursor l => cases h; exact Or.inl (Or.inr rfl)
  | fetchMembership known => cases h
  | fetchLatest l since => cases h
  | push l c rest => cases h
  | fetchPage l since through => cases h
  | done report => cases h
  | failed err => cases h

end Sshstate.Sync
