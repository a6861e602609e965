/-
  What a client verifies, while others use the relay.

  An entry of the relay's log was written by a device of the chain, so a client rejects
  it in two cases only: it holds an older chain, in which the writer is missing, or it has
  noted a position for the writer, which was revoked, and the entry is past it
  (`verify_of_vouched`).  Positions are those of a history.  The relay starts a new one
  when a client that has its current one imports records, but not when the client comes
  from another history, and an import may carry what a revoked device wrote: then the
  entry lands past the position, and the client cannot go on (`import_blocks`).

  In runs whose submissions and imports keep clear of both cases (`Admits`) nothing in
  the log is rejected (`log_accepted`).
-/
import Sshstate.Lib.Run
import Sshstate.Proof.Exchange
import Sshstate.Proof.Mutations
import Sshstate.Sync.Fleet
import Sshstate.Sync.Shared

namespace Sshstate

/-! ## The relay -/

namespace Relay

variable {C : Suite}

variable (C) in
/-- A version of the vault `v`, signed by a device of the chain. -/
structure Vouched (chain : Membership.Chain) (v : ID) (env : Envelope) : Prop where
  valid : env.Valid
  vault : env.context.vaultID = v
  writer : ∃ d, chain.device env.context.updatedBy = some d ∧
    C.verify d.verifyKey recordSignatureDomain (env.signingInput C) env.signature = true

/-- The devices of a chain are in the longer one. -/
def KeepsDevices (c c' : Membership.Chain) : Prop :=
  ∀ id d, c.device id = some d → ∃ d', c'.device id = some d' ∧ d.Keeps d'

theorem KeepsDevices.refl (c : Membership.Chain) : KeepsDevices c c := fun _ d hd => ⟨d, hd, .refl d⟩

theorem KeepsDevices.trans {c c' c'' : Membership.Chain} (h : KeepsDevices c c')
    (h' : KeepsDevices c' c'') : KeepsDevices c c'' := by
  intro id d hd
  obtain ⟨d', hd', hk⟩ := h id d hd
  obtain ⟨d'', hd'', hk'⟩ := h' id d' hd'
  exact ⟨d'', hd'', hk.trans hk'⟩

theorem keepsDevices_of_prefix {g : Genesis} {events events' : List SignedMembershipEvent}
    {c c' : Membership.Chain} (hpre : events <+: events')
    (h : Membership.validate C g events = .ok c) (h' : Membership.validate C g events' = .ok c') :
    KeepsDevices c c' := by
  obtain ⟨more, rfl⟩ := hpre
  exact fun _ _ hd => Membership.keeps_of_validate h h' hd

theorem Vouched.mono {c c' : Membership.Chain} (hk : KeepsDevices c c') {v : ID} {env : Envelope}
    (h : Vouched C c v env) : Vouched C c' v env := by
  obtain ⟨d, hd, hsig⟩ := h.writer
  obtain ⟨d', hd', hkeep⟩ := hk _ d hd
  exact ⟨h.valid, h.vault, d', hd', hkeep.verifyKey ▸ hsig⟩

/-- A device that the shorter chain has too. -/
theorem Vouched.earlier {c c' : Membership.Chain} (hk : KeepsDevices c c') {v : ID} {env : Envelope}
    (hmem : (c.device env.context.updatedBy).isSome) (h : Vouched C c' v env) : Vouched C c v env := by
  obtain ⟨d, hd⟩ := Option.isSome_iff_exists.1 hmem
  obtain ⟨d', hd', hkeep⟩ := hk _ d hd
  obtain ⟨x, hx, hsig⟩ := h.writer
  obtain rfl : d' = x := Option.some.inj (hd'.symm.trans hx)
  exact ⟨h.valid, h.vault, d, hd, hkeep.verifyKey ▸ hsig⟩

theorem checkImport_vouched {chain : Membership.Chain} {v : ID} {epoch : ℕ} {env : Envelope}
    {d : Bytes} (h : Store.checkImport C chain v epoch env = .ok d) : Vouched C chain v env := by
  simp only [Store.checkImport, Except.bind_eq_ok, Except.mapError_eq_ok, Envelope.validate_eq_ok,
    Except.require_eq_ok] at h
  obtain ⟨-, -, -, hv, -, hvault, -, -, -, -, ⟨⟩, hw, -⟩ := h
  refine ⟨hv, hvault, ?_⟩
  unfold verifyWrittenByMember at hw
  split at hw
  · cases hw
  next dev hdev => exact ⟨dev, hdev, Except.require_eq_ok.1 hw⟩

variable (C) in
/-- Versions with `P` were appended to the log. -/
structure Adds (P : Envelope → Prop) (st st' : Store) : Prop where
  vault : st'.vault = st.vault
  membership : st'.membership = st.membership
  consistent : st.Consistent C → st'.Consistent C
  log : ∃ new, st'.log = st.log ++ new ∧ ∀ row ∈ new, P row.envelope

variable {P : Envelope → Prop}

theorem Adds.keep {st st' : Store} (hv : st'.vault = st.vault) (hm : st'.membership = st.membership)
    (hk : Store.Keeps st st') : Adds C P st st' :=
  ⟨hv, hm, fun h => h.keep hk, [], by simp [hk.log], fun _ h => absurd h List.not_mem_nil⟩

theorem Adds.append {st st' : Store} {env : Envelope} (hv : st'.vault = st.vault)
    (hm : st'.membership = st.membership) (ha : Store.Appends C st st' env) (hP : P env) :
    Adds C P st st' :=
  ⟨hv, hm, fun h => h.append ha, _, ha.log, fun _ hrow => List.mem_singleton.1 hrow ▸ hP⟩

theorem Adds.trans {st st' st'' : Store} (h : Adds C P st st') (h' : Adds C P st' st'') :
    Adds C P st st'' := by
  obtain ⟨new, hlog, hnew⟩ := h.log
  obtain ⟨new', hlog', hnew'⟩ := h'.log
  refine ⟨h'.vault.trans h.vault, h'.membership.trans h.membership,
    fun hc => h'.consistent (h.consistent hc), new ++ new', ?_, fun row hrow => ?_⟩
  · rw [hlog', hlog, List.append_assoc]
  · exact (List.mem_append.1 hrow).elim (hnew row) (hnew' row)

theorem adds_transact {st st' : Store} {v : ID} {env : Envelope} {now : String}
    {out : Store.PutOutcome} (hv : env.Valid) (hP : P env)
    (h : st.transact C v env (env.digest C) now = .ok (out, st')) :
    Adds C P st st' ∧ st'.history = st.history := by
  obtain ⟨-, -, -, -, rfl⟩ | ⟨-, -, -, rfl⟩ | ⟨-, -, -, -, -, rfl⟩ := Store.transact_cases h
  · exact ⟨.keep rfl rfl (.refl _), rfl⟩
  · exact ⟨.keep rfl rfl (Store.keeps_afterReject ..), rfl⟩
  · exact ⟨.append rfl rfl (Store.appends_afterAccept hv now) hP, rfl⟩

/-- An item adds its envelope, if it is imported. -/
theorem adds_importOne {st st' : Store} {chain : Membership.Chain} {v : ID} {epoch : ℕ}
    {item : ImportRecord} {now : String} {o : ImportOutcome}
    (hP : Vouched C chain v item.envelope → P item.envelope)
    (h : st.importOne C chain v epoch item now = .ok (o, st')) :
    Adds C P st st' ∧ st'.history = st.history ∧ (o.outcome ≠ .imported → st'.log = st.log) := by
  have hvouch : Vouched C chain v item.envelope := by
    rw [Store.importOne, Except.bind_eq_ok] at h
    obtain ⟨_, hcheck, -⟩ := h
    exact checkImport_vouched hcheck
  obtain ⟨hv, -, ⟨ho, -, -, rfl⟩ | ⟨head, -, ⟨-, -, rfl⟩ | ⟨-, -, ⟨-, -, rfl⟩ | ⟨-, -, rfl⟩⟩⟩⟩ :=
    Store.importOne_cases h
  · exact ⟨.append rfl rfl (Store.appends_afterImport hv now) (hP hvouch), rfl,
      fun hne => absurd ho hne⟩
  · exact ⟨.keep rfl rfl (Store.keeps_rememberAncestors ..), rfl, fun _ => rfl⟩
  · exact ⟨.keep rfl rfl (.refl _), rfl, fun _ => rfl⟩
  · exact ⟨.keep rfl rfl (.refl _), rfl, fun _ => rfl⟩

/-- An import either starts a new history, or keeps it; then it adds nothing if its
    client has the current one. -/
theorem adds_importTransaction {st st' : Store} {chain : Membership.Chain} {v : ID}
    {req : ImportRequest} {now freshID : String} {outs : List ImportOutcome}
    (hP : ∀ item ∈ req.records, Vouched C chain v item.envelope → P item.envelope)
    (h : st.importTransaction C chain v req now freshID = .ok (outs, st')) :
    Adds C P st st' ∧ (st'.history = freshID ∨
      st'.history = st.history ∧ (req.history = st.history → st'.log = st.log)) := by
  obtain ⟨row, st₁, -, hfold, hst⟩ := Store.importTransaction_eq_ok h
  obtain ⟨hadds, hhist, hlog⟩ := Except.foldlM_induct
    (P := fun acc : List ImportOutcome × Store => Adds C P st acc.2 ∧ acc.2.history = st.history ∧
      (acc.1.any (·.outcome = .imported) = false → acc.2.log = st.log)) hfold
    ⟨.keep rfl rfl (.refl _), rfl, fun _ => rfl⟩ (by
      rintro item hitem acc acc' hx ⟨hadds, hhist, hlog⟩
      obtain ⟨-, o, hone, houts⟩ := Store.importItem_eq_ok hx
      obtain ⟨hadds', hhist', hlog'⟩ := adds_importOne (hP item hitem) hone
      refine ⟨hadds.trans hadds', hhist'.trans hhist, fun hnone => ?_⟩
      rw [houts, List.any_append, Bool.or_eq_false_iff] at hnone
      rw [hlog' (by simpa using hnone.2), hlog hnone.1])
  rcases hst with ⟨-, -, rfl⟩ | ⟨hno, rfl⟩
  · exact ⟨hadds.trans (.keep rfl rfl ⟨rfl, rfl, fun _ h => h⟩), Or.inl rfl⟩
  · refine ⟨hadds, Or.inr ⟨hhist, fun hreq => hlog ?_⟩⟩
    exact Bool.eq_false_iff.2 fun hany => hno ⟨hany, hreq⟩

theorem Store.Consistent.seq_bounds {st : Store} (h : st.Consistent C) {row : LogRow}
    (hrow : row ∈ st.log) : 0 < row.seq ∧ row.seq ≤ st.log.length := by
  have hmem : row.seq ∈ List.range' 1 st.log.length := h.numbered ▸ List.mem_map_of_mem hrow
  rw [List.mem_range'_1] at hmem
  omega

end Relay

/-! ## What a step of a Sync does to the history and the positions -/

namespace Sync

open Vault (Store Manager)

variable {C : Suite} {e : Engine}

/-- The marks of a store. -/
def SameMarks (st st' : Store) : Prop := st'.history = st.history ∧ st'.revokedAt = st.revokedAt

/-- Only two phases of a Sync write them. -/
theorem work_marks {draw : Draw} {st st' : Store} {p p' : Phase}
    (h : work C e draw st p = some (st', p')) :
    SameMarks st st' ∨
    (∃ l history, p = .recordHistory l history ∧ st' = st.setHistory history) ∨
    ∃ l through id todo, p = .writeRevocation l through id todo ∧ st' = st.setRevokedAt id through := by
  cases work_else h with
  | same hs => exact Or.inl ⟨hs.history, hs.revokedAt⟩
  | putMembership => exact Or.inl ⟨rfl, rfl⟩
  | putDevice => exact Or.inl ⟨rfl, rfl⟩
  | noteRefusal => exact Or.inl ⟨rfl, rfl⟩
  | recordHistory => exact Or.inr (Or.inl ⟨_, _, rfl, rfl⟩)
  | writeRevocation => exact Or.inr (Or.inr ⟨_, _, _, _, rfl, rfl⟩)

namespace Shared

open Relay (Vouched KeepsDevices Adds)
open Relay.Store (decodeEnvelope)

/-! ## What a Sync knows -/

variable (C) in
/-- The chain of the membership that a Sync has fetched. -/
def held (g : Genesis) : Phase → Option Membership.Chain
  | .compareMembership _ events => (Membership.validate C g events).toOption
  | p => p.chain

/-- The end of the snapshot that a Sync pulls, once it has the first page. -/
def snapshot : Phase → Option ℕ
  | .fetchPage _ _ through => if through = 0 then none else some through
  | .verifyChange _ page _ _ _ | .compareHead _ page _ _ _ | .applyPage _ page _ =>
    some page.snapshotCursor
  | .noteRevocation _ through _ _ | .writeRevocation _ through _ _ => some through
  | _ => none

/-- A device that the chain has revoked. -/
def Revoked (chain : Membership.Chain) (id : ID) : Prop := ∃ d ∈ chain.device id, d.revoked = true

theorem Revoked.mono {c c' : Membership.Chain} (hk : KeepsDevices c c') {id : ID} (h : Revoked c id) :
    Revoked c' id := by
  obtain ⟨d, hd, hr⟩ := h
  obtain ⟨d', hd', hkeep⟩ := hk id d hd
  exact ⟨d', hd', hkeep.revoked hr⟩

variable (C e) in
/-- A chain that a Sync holds: a beginning of the relay's, with the client's device and
    with every writer of the log. -/
structure Knows (r : Relay.Store) (chain : Membership.Chain) : Prop where
  events : ∃ events, events <+: r.membership ∧
    Membership.validate C e.manager.genesis events = .ok chain
  self : (chain.device e.manager.deviceID).isSome
  writers : ∀ row ∈ r.log, (chain.device row.envelope.context.updatedBy).isSome

/-- What the devices revoked in the chain wrote is not past `through`, as long as the
    stored history is the relay's. -/
def Bounded (r : Relay.Store) (stored : Option String) (chain : Membership.Chain) (through : ℕ) :
    Prop :=
  stored = some r.history →
    ∀ row ∈ r.log, Revoked chain row.envelope.context.updatedBy → row.seq ≤ through

/-- The newly revoked devices of a Sync are revoked in its chain. -/
def Named (l : Locals) : Prop := ∀ id ∈ l.newlyRevoked, Revoked l.chain id

/-- The stored history is one that the relay has had. -/
def Past (stored : Option String) (hs : List String) : Prop := ∃ h ∈ hs, stored = some h

variable (C e) in
/-- What a phase has found out about the membership, the history and revoked devices. -/
def Timely (r : Relay.Store) (stored : Option String) (hs : List String) : Phase → Prop
  | .compareMembership _ events => ∀ chain,
    Membership.validate C e.manager.genesis events = .ok chain → Knows C e r chain
  | .putDevice _ chain d todo newly =>
    (∀ x ∈ d :: todo, x ∈ chain.devices) ∧ ∀ id ∈ newly, Revoked chain id
  | .revocationNoted _ chain id todo newly =>
    Revoked chain id ∧ (∀ x ∈ todo, x ∈ chain.devices) ∧ ∀ id ∈ newly, Revoked chain id
  | .readCursor l | .fetchLatest l _ => Named l
  | .checkLatest l _ latest => Named l ∧ latest.history ∈ hs
  | .recordHistory l history => Named l ∧ history ∈ hs ∧ stored.getD "" = ""
  | .readOutbox l | .push l _ _ | .accept l _ _ _ | .supersede l _ _ _ | .preserve l _ _ _
  | .resolve l _ _ _ _ | .pullCursor l => Named l ∧ Past stored hs
  | .fetchPage l _ through =>
    Named l ∧ Past stored hs ∧ (through ≠ 0 → Bounded r stored l.chain through)
  | .verifyChange l page _ _ _ | .compareHead l page _ _ _ | .applyPage l page _ =>
    Named l ∧ Past stored hs ∧ Bounded r stored l.chain page.snapshotCursor
  | .noteRevocation l through id todo | .writeRevocation l through id todo =>
    (∀ x ∈ id :: todo, Revoked l.chain x) ∧ Past stored hs ∧ Bounded r stored l.chain through
  | .start | .fetchMembership _ | .putMembership _ _ | .noteRefusal _ | .done _ | .failed _ => True

section
variable {r : Relay.Store} {stored : Option String} {hs : List String}

@[simp] theorem timely_failMembership (err : Error) : Timely C e r stored hs (failMembership err) := by
  unfold failMembership; split_ifs <;> trivial

theorem timely_nextDevice (known : ℕ) {chain : Membership.Chain} {newly : List ID}
    {todo : List Membership.Device} (hd : ∀ x ∈ todo, x ∈ chain.devices)
    (hn : ∀ id ∈ newly, Revoked chain id) : Timely C e r stored hs (nextDevice known chain newly todo) := by
  cases todo
  · exact hn
  · exact ⟨hd, hn⟩

theorem timely_nextCandidate {l : Locals} (h : Named l ∧ Past stored hs) (rest : List Envelope) :
    Timely C e r stored hs (nextCandidate l rest) := by cases rest <;> exact h

theorem timely_nextChange {l : Locals} {page : RecordsResponse}
    (h : Named l ∧ Past stored hs ∧ Bounded r stored l.chain page.snapshotCursor)
    (envs todo : List Envelope) : Timely C e r stored hs (nextChange l page envs todo) := by
  cases todo <;> exact h

theorem timely_nextRevocation {l : Locals} {through : ℕ} {todo : List ID}
    (hn : ∀ x ∈ todo, Revoked l.chain x) (hp : Past stored hs)
    (hb : Bounded r stored l.chain through) : Timely C e r stored hs (nextRevocation l through todo) := by
  cases todo
  · trivial
  · exact ⟨hn, hp, hb⟩

theorem timely_afterPage {l : Locals} {page : RecordsResponse}
    (h : Named l ∧ Past stored hs ∧ Bounded r stored l.chain page.snapshotCursor) :
    Timely C e r stored hs (afterPage l page) := by
  unfold afterPage afterPull
  split_ifs
  · exact ⟨h.1, h.2.1, fun _ => h.2.2⟩
  · exact timely_nextRevocation h.1 h.2.1 h.2.2
  · trivial

theorem timely_onResult {l : Locals} (h : Named l ∧ Past stored hs) (c : Envelope)
    (rest : List Envelope) (res : PutResult) : Timely C e r stored hs (onResult l c rest res) := by
  cases res <;> simp only [onResult]
  · exact h
  · split_ifs <;> exact h

theorem timely_commit {st st' : Store} {tx : Except Error Store} {next p' : Phase}
    (hn : Timely C e r stored hs next) (h : commit st tx next = (st', p')) : Timely C e r stored hs p' := by
  rcases commit_eq h with ⟨-, rfl⟩ | ⟨-, _, rfl⟩
  · exact hn
  · trivial

/-- The stored history is compared with the relay's, which is never blank. -/
theorem timely_checkLatest {l : Locals} {latest : RecordsResponse} (hblank : "" ∉ hs)
    (h : Named l ∧ latest.history ∈ hs) (url : String) (since : ℕ) :
    Timely C e r stored hs (checkLatest url l since (stored.getD "") latest) := by
  have hne : latest.history ≠ "" := fun heq => hblank (heq ▸ h.2)
  unfold checkLatest
  split_ifs with hchanged hbehind hrecord
  · trivial
  · trivial
  · exact ⟨h.1, h.2, hrecord.1⟩
  · refine ⟨h.1, latest.history, h.2, ?_⟩
    have hstored : stored.getD "" ≠ "" := fun heq => hrecord ⟨heq, hne⟩
    rcases stored with _ | s
    · exact absurd rfl hstored
    · by_contra hdiff
      exact hchanged ⟨hne, Or.inr ⟨hstored, fun heq => hdiff (congrArg some heq)⟩⟩

end

/-- An access to the store keeps what a Sync has found out. -/
theorem Timely.work {r : Relay.Store} {hs : List String} {draw : Draw} {st st' : Store} {p p' : Phase}
    (hblank : "" ∉ hs)
    (hk : ∀ chain, p.chain = some chain → Knows C e r chain)
    (ht : Timely C e r st.history hs p) (h : Sync.work C e draw st p = some (st', p')) :
    Timely C e r st'.history hs p' := by
  rcases work_marks h with hm | ⟨l, history, rfl, rfl⟩ | ⟨l, through, id, todo, rfl, rfl⟩
  rotate_left
  · cases h; exact ⟨ht.1, history, ht.2.1, rfl⟩
  · cases h
    exact timely_nextRevocation (fun x hx => ht.1 x (List.mem_cons_of_mem _ hx)) ht.2.1 ht.2.2
  rw [hm.1]
  cases p with
  | compareMembership known events =>
    simp only [Sync.work] at h
    split at h <;> cases h
    · trivial
    · exact timely_failMembership _
  | putMembership known chain =>
    simp only [Sync.work] at h
    split at h <;> cases h
    · exact timely_nextDevice known (fun _ hx => hx) fun _ hx => absurd hx List.not_mem_nil
    · exact timely_failMembership _
  | putDevice known chain dev todo newly =>
    cases h
    have htodo : ∀ x ∈ todo, x ∈ chain.devices := fun x hx => ht.1 x (List.mem_cons_of_mem _ hx)
    split_ifs with hrev
    · obtain ⟨_, -, hvalid⟩ := (hk chain rfl).events
      refine ⟨⟨dev, ?_, hrev⟩, htodo, ht.2⟩
      exact Membership.Chain.device_of_mem (Membership.sound_of_validate hvalid).ids
        (ht.1 dev List.mem_cons_self)
    · exact timely_nextDevice known htodo ht.2
  | revocationNoted known chain id todo newly =>
    cases h
    refine timely_nextDevice known ht.2.1 fun x hx => ?_
    split_ifs at hx
    · exact ht.2.2 x hx
    · rcases List.mem_append.1 hx with hx | hx
      · exact ht.2.2 x hx
      · exact List.mem_singleton.1 hx ▸ ht.1
  | checkLatest l since latest => cases h; exact timely_checkLatest hblank ht e.url since
  | readOutbox l => cases h; exact timely_nextCandidate ht _
  | accept l c seq rest =>
    exact timely_commit (timely_nextCandidate (l := l.countPushed) ht rest) (Option.some.inj h)
  | supersede l c head rest => exact timely_commit (timely_nextCandidate ht rest) (Option.some.inj h)
  | resolve l c k head rest =>
    exact timely_commit (timely_nextCandidate (l := l.countPreserved) ht rest) (Option.some.inj h)
  | applyPage l page envs =>
    exact timely_commit (timely_afterPage (l := l.countApplied envs.length) ht) (Option.some.inj h)
  | preserve l c head rest =>
    simp only [Sync.work] at h
    split at h <;> cases h
    · exact ht
    · trivial
  | verifyChange l page env todo envs =>
    simp only [Sync.work] at h
    split at h <;> cases h
    · exact ht
    · trivial
  | compareHead l page env todo envs =>
    simp only [Sync.work] at h
    split at h <;> cases h
    · exact timely_nextChange ht _ _
    · trivial
  | noteRevocation l through id todo =>
    cases h
    split_ifs
    · exact timely_nextRevocation (fun x hx => ht.1 x (List.mem_cons_of_mem _ hx)) ht.2.1 ht.2.2
    · exact ht
  | recordHistory l history => cases h; exact ⟨ht.1, history, ht.2.1, hm.1.symm⟩
  | writeRevocation l through id todo =>
    cases h
    exact timely_nextRevocation (fun x hx => ht.1 x (List.mem_cons_of_mem _ hx)) ht.2.1 ht.2.2
  | start => cases h; trivial
  | noteRefusal err => cases h; trivial
  | readCursor l => cases h; exact ht
  | pullCursor l => cases h; exact ⟨ht.1, ht.2, fun hne => absurd rfl hne⟩
  | fetchMembership known => cases h
  | fetchLatest l since => cases h
  | push l c rest => cases h
  | fetchPage l since through => cases h
  | done report => cases h
  | failed err => cases h

/-- What a Sync has to push, and what it has to verify. -/
def Content (r : Relay.Store) (id : ID) : Phase → Prop
  | .push _ c rest | .accept _ c _ rest | .supersede _ c _ rest | .preserve _ c _ rest
  | .resolve _ _ c _ rest => ∀ x ∈ c :: rest, x.context.updatedBy = id
  | .verifyChange _ _ env todo _ | .compareHead _ _ env todo _ => ∀ x ∈ env :: todo, Served r x
  | _ => True

section
variable {r : Relay.Store} {id : ID}

theorem Content.of_idle {p : Phase} (h : p.idle = true) : Content r id p := by cases p <;> trivial

theorem content_nextCandidate (l : Locals) {rest : List Envelope}
    (h : ∀ x ∈ rest, x.context.updatedBy = id) : Content r id (nextCandidate l rest) := by
  cases rest
  · trivial
  · exact h

theorem content_nextChange (l : Locals) (page : RecordsResponse) {envs todo : List Envelope}
    (h : ∀ x ∈ todo, Served r x) : Content r id (nextChange l page envs todo) := by
  cases todo
  · trivial
  · exact h

theorem Content.mono {r' : Relay.Store} (hlog : r.log <+: r'.log) {p : Phase} (h : Content r id p) :
    Content r' id p := by
  cases p with
  | verifyChange l page env todo envs => exact fun x hx => (h x hx).mono hlog
  | compareHead l page env todo envs => exact fun x hx => (h x hx).mono hlog
  | _ => exact h

theorem Content.work {draw : Draw} {st st' : Store} {p p' : Phase} (hid : e.manager.deviceID = id)
    (hout : ∀ x ∈ st.outbox, x.context.updatedBy = id) (hc : Content r id p)
    (h : Sync.work C e draw st p = some (st', p')) : Content r id p' := by
  cases work_advances h with
  | idle hi => exact .of_idle hi
  | readOutbox => exact content_nextCandidate _ fun c hx => hout c (Store.mem_pending.1 hx)
  | accept _ => exact content_nextCandidate _ fun x hx => hc x (List.mem_cons_of_mem _ hx)
  | supersede _ => exact content_nextCandidate _ fun x hx => hc x (List.mem_cons_of_mem _ hx)
  | resolve _ => exact content_nextCandidate _ fun x hx => hc x (List.mem_cons_of_mem _ hx)
  | preserve hk =>
    obtain ⟨_, _, -, hs⟩ := Vault.Manager.preserveCandidate_ok hk
    intro x hx
    rcases List.mem_cons.1 hx with rfl | hx
    · rw [hs.context]; exact hid
    · exact hc x (List.mem_cons_of_mem _ hx)
  | verify _ => exact hc
  | compare _ => exact content_nextChange _ _ fun x hx => hc x (List.mem_cons_of_mem _ hx)

end

/-! ## The invariant -/

variable (C e) in
/-- A call that has read the chain has checked against a beginning of `c`. -/
def Passed (c : Membership.Chain) : Checked → Prop
  | .put _ env digest => digest = env.digest C ∧ Vouched C c e.manager.vaultID env
  | .importBatch v _ chain => v = e.manager.vaultID ∧ KeepsDevices chain c

variable (C e) in
/-- The relay and the calls that are under way. -/
structure RelayOK (r : Relay.Store) (calls : List Checked) : Prop where
  vault : ∃ epoch, r.vault = some { genesis := e.manager.genesis, keyEpoch := epoch }
  consistent : r.Consistent C
  chain : ∃ c, Membership.validate C e.manager.genesis r.membership = .ok c ∧
    (∀ row ∈ r.log, Vouched C c e.manager.vaultID row.envelope) ∧ ∀ call ∈ calls, Passed C e c call

variable (C e) in
/-- A noted position: the device was revoked, and what it wrote is not past it. -/
structure Noted (r : Relay.Store) (stored : Option String) (hs : List String) (id : ID) (pos : ℕ) :
    Prop where
  revoked : ∃ c, Membership.validate C e.manager.genesis r.membership = .ok c ∧ Revoked c id
  past : Past stored hs
  bound : stored = some r.history →
    ∀ row ∈ r.log, row.envelope.context.updatedBy = id → row.seq ≤ pos

variable (C e) in
structure PhaseOK (r : Relay.Store) (stored : Option String) (hs : List String) (p : Phase) : Prop where
  knows : ∀ chain, p.chain = some chain → Knows C e r chain
  timely : Timely C e r stored hs p
  content : Content r e.manager.deviceID p

theorem PhaseOK.held {r : Relay.Store} {stored : Option String} {hs : List String} {p : Phase}
    (h : PhaseOK C e r stored hs p) {chain : Membership.Chain}
    (hheld : Shared.held C e.manager.genesis p = some chain) : Knows C e r chain := by
  cases p with
  | compareMembership known events => exact h.timely chain (Except.toOption_eq_some.1 hheld)
  | _ => exact h.knows chain hheld

theorem held_of_chain {g : Genesis} {p : Phase} {chain : Membership.Chain} (h : p.chain = some chain) :
    Shared.held C g p = some chain := by
  cases p with
  | compareMembership known events => cases h
  | _ => exact h

variable (C e) in
structure Inv (W : World) : Prop where
  relay : RelayOK C e W.relay W.calls
  history : W.relay.history ∈ W.histories
  blank : "" ∉ W.histories
  outbox : ∀ x ∈ W.store.outbox, x.context.updatedBy = e.manager.deviceID
  noted : ∀ id pos, W.store.revokedAt.lookup id = some pos →
    Noted C e W.relay W.store.history W.histories id pos
  phase : ∀ p, W.sync = some p → PhaseOK C e W.relay W.store.history W.histories p

/-! ## Changes of the relay -/

variable (C e) in
/-- A version that the client will not reject: a Sync that holds a chain finds the writer
    in it; and if the history stays, the client has no position for the writer, and its
    Sync, once it pulls, does not know of a revocation. -/
def Fits (W : World) (stays : Prop) (env : Envelope) : Prop :=
  (∀ p ∈ W.sync, ∀ chain ∈ held C e.manager.genesis p,
    (chain.device env.context.updatedBy).isSome) ∧
  (stays → W.store.revokedAt.lookup env.context.updatedBy = none ∧
    ∀ p ∈ W.sync, (snapshot p).isSome → ∀ chain ∈ held C e.manager.genesis p,
      ¬ Revoked chain env.context.updatedBy)

variable (C e) in
structure Shift (W : World) (r : Relay.Store) (calls : List Checked) : Prop where
  relay : RelayOK C e r calls
  membership : W.relay.membership <+: r.membership
  history : r.history = W.relay.history ∨ r.history ∉ W.histories ∧ r.history ≠ ""
  log : ∃ new, r.log = W.relay.log ++ new ∧
    ∀ row ∈ new, Fits C e W (r.history = W.relay.history) row.envelope

section
variable {W : World} {r : Relay.Store} {calls : List Checked} (hs : Shift C e W r calls)
include hs

/-- A history that the relay has had before is not a new one. -/
theorem Shift.stays {stored : Option String} (hp : Past stored W.histories)
    (h : stored = some r.history) : r.history = W.relay.history := by
  obtain ⟨x, hx, rfl⟩ := hp
  cases h
  exact hs.history.resolve_right fun hn => hn.1 hx

theorem Knows.shift {p : Phase} (hsync : W.sync = some p) {chain : Membership.Chain}
    (hheld : held C e.manager.genesis p = some chain) (h : Knows C e W.relay chain) :
    Knows C e r chain := by
  obtain ⟨events, hpre, hvalid⟩ := h.events
  obtain ⟨new, hlog, hnew⟩ := hs.log
  refine ⟨⟨events, hpre.trans hs.membership, hvalid⟩, h.self, fun row hrow => ?_⟩
  rw [hlog] at hrow
  rcases List.mem_append.1 hrow with hrow | hrow
  · exact h.writers row hrow
  · exact (hnew row hrow).1 p hsync chain hheld

theorem Bounded.shift {p : Phase} (hsync : W.sync = some p) {chain : Membership.Chain}
    (hheld : held C e.manager.genesis p = some chain) (hsnap : (snapshot p).isSome)
    {stored : Option String} (hp : Past stored W.histories) {through : ℕ}
    (h : Bounded W.relay stored chain through) : Bounded r stored chain through := by
  intro hstored row hrow hrev
  have hstay := hs.stays hp hstored
  obtain ⟨new, hlog, hnew⟩ := hs.log
  rw [hlog] at hrow
  rcases List.mem_append.1 hrow with hrow | hrow
  · exact h (hstay ▸ hstored) row hrow hrev
  · exact absurd hrev (((hnew row hrow).2 hstay).2 p hsync hsnap chain hheld)

theorem Timely.shift {p : Phase} (hsync : W.sync = some p) {stored : Option String}
    (h : Timely C e W.relay stored W.histories p) : Timely C e r stored (r.history :: W.histories) p := by
  have hpast : Past stored W.histories → Past stored (r.history :: W.histories) := by
    rintro ⟨x, hx, h⟩; exact ⟨x, List.mem_cons_of_mem _ hx, h⟩
  cases p with
  | compareMembership known events =>
    exact fun chain hvalid =>
      (h chain hvalid).shift hs hsync (Except.toOption_eq_some.2 hvalid)
  | checkLatest l since latest => exact ⟨h.1, List.mem_cons_of_mem _ h.2⟩
  | recordHistory l history => exact ⟨h.1, List.mem_cons_of_mem _ h.2.1, h.2.2⟩
  | readOutbox l => exact ⟨h.1, hpast h.2⟩
  | push l c rest => exact ⟨h.1, hpast h.2⟩
  | accept l c seq rest => exact ⟨h.1, hpast h.2⟩
  | supersede l c head rest => exact ⟨h.1, hpast h.2⟩
  | preserve l c head rest => exact ⟨h.1, hpast h.2⟩
  | resolve l c k head rest => exact ⟨h.1, hpast h.2⟩
  | pullCursor l => exact ⟨h.1, hpast h.2⟩
  | fetchPage l since through =>
    refine ⟨h.1, hpast h.2.1, fun hne => (h.2.2 hne).shift hs hsync rfl ?_ h.2.1⟩
    rw [snapshot, if_neg hne]; rfl
  | verifyChange l page env todo envs =>
    exact ⟨h.1, hpast h.2.1, h.2.2.shift hs hsync rfl rfl h.2.1⟩
  | compareHead l page env todo envs =>
    exact ⟨h.1, hpast h.2.1, h.2.2.shift hs hsync rfl rfl h.2.1⟩
  | applyPage l page envs => exact ⟨h.1, hpast h.2.1, h.2.2.shift hs hsync rfl rfl h.2.1⟩
  | noteRevocation l through id todo =>
    exact ⟨h.1, hpast h.2.1, h.2.2.shift hs hsync rfl rfl h.2.1⟩
  | writeRevocation l through id todo =>
    exact ⟨h.1, hpast h.2.1, h.2.2.shift hs hsync rfl rfl h.2.1⟩
  | _ => exact h

theorem Noted.shift {id : ID} {pos : ℕ} (hpos : W.store.revokedAt.lookup id = some pos)
    (h : Noted C e W.relay W.store.history W.histories id pos) :
    Noted C e r W.store.history (r.history :: W.histories) id pos := by
  obtain ⟨c, hc, hrev⟩ := h.revoked
  obtain ⟨c', hc', -⟩ := hs.relay.chain
  obtain ⟨x, hx, hstored⟩ := h.past
  obtain ⟨new, hlog, hnew⟩ := hs.log
  refine ⟨⟨c', hc', hrev.mono (Relay.keepsDevices_of_prefix hs.membership hc hc')⟩,
    ⟨x, List.mem_cons_of_mem _ hx, hstored⟩, fun heq row hrow hid => ?_⟩
  have hstay := hs.stays h.past heq
  rw [hlog] at hrow
  rcases List.mem_append.1 hrow with hrow | hrow
  · exact h.bound (hstay ▸ heq) row hrow hid
  · have hnone := ((hnew row hrow).2 hstay).1
    rw [hid, hpos] at hnone
    cases hnone

theorem Inv.shift (h : Inv C e W) : Inv C e ({ W with calls := calls }.setRelay r) := by
  obtain ⟨new, hlog, -⟩ := hs.log
  refine ⟨hs.relay, List.mem_cons_self, fun hmem => ?_, h.outbox,
    fun id pos hpos => (h.noted id pos hpos).shift hs hpos, fun p hp => ?_⟩
  · rcases List.mem_cons.1 hmem with hblank | hmem
    · rcases hs.history with heq | hne
      · exact h.blank (hblank ▸ heq ▸ h.history)
      · exact hne.2 hblank.symm
    · exact h.blank hmem
  · obtain ⟨hk, ht, hc⟩ := h.phase p hp
    exact ⟨fun chain hch => (hk chain hch).shift hs hp (held_of_chain hch), ht.shift hs hp,
      hc.mono (hlog ▸ List.prefix_append ..)⟩

end

/-! ## Calls of others -/

/-- The versions a call carries. -/
def Checked.records : Checked → List Envelope
  | .put _ env _ => [env]
  | .importBatch _ req _ => req.records.map (·.envelope)

/-- An import from the current history; it starts a new one if it adds anything. -/
def Checked.restarts (r : Relay.Store) : Checked → Prop
  | .put _ _ _ => False
  | .importBatch _ req _ => req.history = r.history

variable (C e) in
/-- The condition: the versions of a call fit what the client knows. -/
def Admits (W : World) : Label → Prop
  | .transact i _ _ => ∀ c ∈ W.calls[i]?, ∀ env ∈ c.records, Fits C e W (¬ c.restarts W.relay) env
  | _ => True

/-- The ids of histories are never drawn twice. -/
def Fresh (W : World) : Label → Prop
  | .transact _ _ freshID => freshID ∉ W.histories ∧ freshID ≠ ""
  | _ => True

theorem Fits.mono {W : World} {stays stays' : Prop} (himp : stays' → stays) {env : Envelope}
    (h : Fits C e W stays env) : Fits C e W stays' env := ⟨h.1, fun hs => h.2 (himp hs)⟩

theorem Passed.mono {c c' : Membership.Chain} (hk : KeepsDevices c c') {call : Checked}
    (h : Passed C e c call) : Passed C e c' call := by
  cases call with
  | put v env digest => exact ⟨h.1, h.2.mono hk⟩
  | importBatch v req chain => exact ⟨h.1, h.2.trans hk⟩

theorem shift_of_adds {W : World} (h : Inv C e W) {c : Membership.Chain}
    (hc : Membership.validate C e.manager.genesis W.relay.membership = .ok c) {calls : List Checked}
    (hcalls : calls ⊆ W.calls) {r : Relay.Store} (stays : Prop)
    (ha : Adds C (fun env => Vouched C c e.manager.vaultID env ∧ Fits C e W stays env) W.relay r)
    (hh : r.history = W.relay.history ∧ (¬ stays → r.log = W.relay.log) ∨
      r.history ∉ W.histories ∧ r.history ≠ "") : Shift C e W r calls := by
  obtain ⟨c', hc', hrows, hpassed⟩ := h.relay.chain
  obtain rfl : c = c' := Except.ok.inj (hc.symm.trans hc')
  obtain ⟨epoch, hvault⟩ := h.relay.vault
  obtain ⟨new, hlog, hnew⟩ := ha.log
  refine ⟨⟨⟨epoch, ha.vault.trans hvault⟩, ha.consistent h.relay.consistent, c,
    ha.membership.symm ▸ hc, fun row hrow => ?_, fun call hcall => hpassed call (hcalls hcall)⟩,
    ha.membership ▸ List.prefix_rfl, hh.imp_left (·.1), new, hlog, fun row hrow => ?_⟩
  · rw [hlog] at hrow
    exact (List.mem_append.1 hrow).elim (hrows row) fun hrow => (hnew row hrow).1
  · have hfits := (hnew row hrow).2
    rcases hh with ⟨-, hsame⟩ | ⟨hnot, -⟩
    · by_cases hstay : stays
      · exact hfits.mono fun _ => hstay
      · obtain rfl : new = [] := by simpa [hlog] using hsame hstay
        exact absurd hrow List.not_mem_nil
    · exact hfits.mono fun heq => absurd (heq ▸ h.history) hnot

/-- The transaction of a call that meets the condition. -/
theorem Inv.transact {W : World} (h : Inv C e W) {i : ℕ} {call : Checked} (hi : W.calls[i]? = some call)
    {now freshID : String}
    (hok : ∀ env ∈ call.records, Fits C e W (¬ call.restarts W.relay) env)
    (hfresh : freshID ∉ W.histories ∧ freshID ≠ "") {calls : List Checked} (hcalls : calls ⊆ W.calls) :
    Shift C e W (call.transact C W.relay now freshID) calls := by
  obtain ⟨c, hc, -, hpassed⟩ := h.relay.chain
  have hpass := hpassed call (List.mem_of_getElem? hi)
  have hnone : Shift C e W W.relay calls :=
    shift_of_adds h hc hcalls True (.keep rfl rfl (.refl _)) (Or.inl ⟨rfl, fun _ => rfl⟩)
  cases call with
  | put v env digest =>
    obtain ⟨rfl, hvouch⟩ := hpass
    simp only [Checked.transact]
    split
    next out r' htx =>
      obtain ⟨hadds, hhist⟩ := Relay.adds_transact hvouch.valid
        (P := fun env => Vouched C c e.manager.vaultID env ∧ Fits C e W (¬ False) env)
        ⟨hvouch, hok env List.mem_cons_self⟩ htx
      exact shift_of_adds h hc hcalls _ hadds (Or.inl ⟨hhist, fun hf => absurd not_false hf⟩)
    next => exact hnone
  | importBatch v req chain =>
    obtain ⟨rfl, hkeeps⟩ := hpass
    simp only [Checked.transact]
    split
    next outs r' htx =>
      obtain ⟨hadds, hhist⟩ := Relay.adds_importTransaction
        (P := fun env => Vouched C c e.manager.vaultID env ∧
          Fits C e W (¬ req.history = W.relay.history) env)
        (fun item hitem hvouch => ⟨hvouch.mono hkeeps, hok _ (List.mem_map_of_mem hitem)⟩) htx
      refine shift_of_adds h hc hcalls _ hadds ?_
      rcases hhist with hnew | ⟨hsame, hlog⟩
      · exact Or.inr (hnew ▸ hfresh)
      · exact Or.inl ⟨hsame, fun hnot => hlog (not_not.1 hnot)⟩
    next => exact hnone

theorem vault_of_chain {r : Relay.Store} {epoch : ℕ} {g : Genesis} {v : ID} {c : Membership.Chain}
    (hv : r.vault = some { genesis := g, keyEpoch := epoch }) (h : r.chain C v = .ok c) :
    g.vaultID = v ∧ Membership.validate C g r.membership = .ok c := by
  obtain ⟨row, hrow, hid, hval⟩ := Relay.Store.chain_eq_ok.1 h
  obtain rfl := Option.some.inj (hv.symm.trans hrow)
  exact ⟨hid, hval⟩

theorem Inv.append {W : World} (h : Inv C e W) {v : ID} {ev : SignedMembershipEvent}
    {next : Membership.Chain} {r : Relay.Store}
    (happ : W.relay.appendMembership C v ev = .ok (next, r)) : Shift C e W r W.calls := by
  obtain ⟨epoch, hvault⟩ := h.relay.vault
  obtain ⟨c, hc, hrows, hpassed⟩ := h.relay.chain
  obtain ⟨chain, hchain, happly, rfl⟩ := Relay.Store.appendMembership_ok happ
  obtain ⟨-, hval⟩ := vault_of_chain hvault hchain
  obtain rfl : c = chain := Except.ok.inj (hc.symm.trans hval)
  have hnext := Membership.validate_concat hc happly
  have hkeeps : KeepsDevices c next :=
    Relay.keepsDevices_of_prefix (List.prefix_append ..) hc hnext
  refine ⟨⟨⟨epoch, hvault⟩, h.relay.consistent.keep ⟨rfl, rfl, fun _ hp => hp⟩, next, hnext,
    fun row hrow => (hrows row hrow).mono hkeeps, fun call hcall => (hpassed call hcall).mono hkeeps⟩,
    List.prefix_append .., Or.inl rfl, [], (List.append_nil _).symm,
    fun _ hrow => absurd hrow List.not_mem_nil⟩

/-- A call of another client passes its checks. -/
theorem Inv.addCall {W : World} (h : Inv C e W) {call : Checked}
    (hpass : ∀ c, Membership.validate C e.manager.genesis W.relay.membership = .ok c →
      Passed C e c call) : Inv C e { W with calls := W.calls ++ [call] } := by
  obtain ⟨c, hc, hrows, hpassed⟩ := h.relay.chain
  refine { h with relay := { h.relay with chain := ⟨c, hc, hrows, fun x hx => ?_⟩ } }
  rcases List.mem_append.1 hx with hx | hx
  · exact hpassed x hx
  · rw [List.mem_singleton.1 hx]; exact hpass c hc

/-! ## The Sync of the client -/

/-- What the client submits was written by its own device, which is active if the relay
    accepts it. -/
theorem Inv.submit {W : World} (h : Inv C e W) {l : Locals} {x : Envelope} {rest : List Envelope}
    (hsync : W.sync = some (.push l x rest)) {now : String} {res : Except Error PutResult}
    {r : Relay.Store} (hsub : W.relay.submitRecord C (Rejoin.sender C e) x now = (res, r)) :
    Shift C e W r W.calls := by
  obtain ⟨epoch, hvault⟩ := h.relay.vault
  obtain ⟨c, hc, -⟩ := h.relay.chain
  have hphase := h.phase _ hsync
  have hwriter : x.strip.context.updatedBy = e.manager.deviceID :=
    hphase.content x List.mem_cons_self
  rcases Relay.Store.submitRecord_cases hsub with ⟨_, -, rfl⟩ | ⟨out, -, hput, -⟩
  · exact shift_of_adds h hc (fun _ hx => hx) True (.keep rfl rfl (.refl _))
      (Or.inl ⟨rfl, fun _ => rfl⟩)
  rw [Relay.Store.putRecord_eq, Except.bind_eq_ok] at hput
  obtain ⟨digest, hcheck, htx⟩ := hput
  obtain ⟨hs, rfl⟩ := Relay.Store.checkSubmission_eq_ok.1 hcheck
  obtain ⟨chain, d, hchain, hd, hactive, hsig⟩ := hs.writer
  obtain rfl : c = chain := Except.ok.inj (hc.symm.trans (vault_of_chain hvault hchain).2)
  have hfits : Fits C e W True x.strip := by
    refine ⟨fun p hp chain hheld => ?_, fun _ => ⟨?_, fun p hp hsnap => ?_⟩⟩
    · obtain rfl := Option.some.inj (hsync.symm.trans hp)
      rw [hwriter]
      exact (hphase.held hheld).self
    · rcases hpos : W.store.revokedAt.lookup x.strip.context.updatedBy with _ | pos
      · rfl
      · -- a noted device is revoked, and the relay has just accepted this one
        obtain ⟨c', hc', d', hd', hrev⟩ := (h.noted _ pos hpos).revoked
        obtain rfl : c = c' := Except.ok.inj (hc.symm.trans hc')
        obtain rfl : d = d' := Option.some.inj (hd.symm.trans hd')
        rw [hactive] at hrev
        cases hrev
    · obtain rfl := Option.some.inj (hsync.symm.trans hp)
      exact absurd hsnap Bool.false_ne_true
  have hvouch : Vouched C c e.manager.vaultID x.strip := ⟨hs.valid, hs.vault, d, hd, hsig⟩
  obtain ⟨hadds, hhist⟩ := Relay.adds_transact hs.valid
    (P := fun env => Vouched C c e.manager.vaultID env ∧ Fits C e W True env) ⟨hvouch, hfits⟩ htx
  exact shift_of_adds h hc (fun _ hx => hx) True hadds (Or.inl ⟨hhist, fun hf => absurd trivial hf⟩)

theorem Inv.called {W : World} (h : Inv C e W) {p p' : Phase} (hsync : W.sync = some p)
    {now : String} {r : Relay.Store} (hc : Called C W.relay (Rejoin.sender C e) now p r p') :
    Shift C e W r W.calls := by
  obtain ⟨c, hchain, -⟩ := h.relay.chain
  have hnone : Shift C e W W.relay W.calls :=
    shift_of_adds h hchain (fun _ hx => hx) True (.keep rfl rfl (.refl _))
      (Or.inl ⟨rfl, fun _ => rfl⟩)
  cases hc with
  | put hsub => exact h.submit hsync hsub
  | putFailed hsub => exact h.submit hsync hsub
  | _ => exact hnone

/-- What the answer to a request tells a Sync. -/
theorem PhaseOK.call {r r' : Relay.Store} {calls : List Checked} {stored : Option String}
    {hs : List String} {p p' : Phase} {now : String} (hr : RelayOK C e r' calls)
    (hh : r'.history ∈ hs) (hkeep : KeepsChain p p') (hp : PhaseOK C e r' stored hs p)
    (h : Called C r (Rejoin.sender C e) now p r' p') : PhaseOK C e r' stored hs p' := by
  obtain ⟨hk, ht, hc⟩ := hp
  have hknows : ∀ chain, p'.chain = some chain → Knows C e r' chain := by
    intro chain hch
    rcases hkeep with hnone | hsame
    · exact absurd (hnone.symm.trans hch).symm (Option.some_ne_none chain)
    · exact hk chain (hsame ▸ hch)
  cases h with
  | membership auth =>
    refine ⟨hknows, fun chain hvalid => ?_, trivial⟩
    obtain ⟨epoch, hvault⟩ := hr.vault
    obtain ⟨c, hc, hrows, -⟩ := hr.chain
    obtain rfl : chain = c := Except.ok.inj (hvalid.symm.trans hc)
    obtain ⟨chain', d, hchain', hd, -⟩ := Relay.Store.authenticate_eq_ok.1 auth
    obtain rfl : chain = chain' := Except.ok.inj (hvalid.symm.trans (vault_of_chain hvault hchain').2)
    refine ⟨⟨_, List.prefix_rfl, hvalid⟩, Option.isSome_iff_exists.2 ⟨d, hd⟩, fun row hrow => ?_⟩
    obtain ⟨x, hx, -⟩ := (hrows row hrow).writer
    exact Option.isSome_iff_exists.2 ⟨x, hx⟩
  | refused auth => exact ⟨hknows, timely_failMembership _, .of_idle (idle_failMembership _)⟩
  | latest auth hl =>
    obtain ⟨_, -, rfl⟩ := Relay.Store.records_ok hl
    exact ⟨hknows, ⟨ht, hh⟩, trivial⟩
  | @page l since through page auth hpage =>
    obtain ⟨pg, hpg, rfl⟩ := Relay.Store.records_ok hpage
    obtain ⟨hsnap, -, -, -, hserved, -⟩ := Relay.Store.changes_ok hr.consistent hpg
    refine ⟨hknows, timely_nextChange ⟨ht.1, ht.2.1, ?_⟩ _ _, content_nextChange _ _ fun x hx => ?_⟩
    · -- the first page fixes the end of the snapshot at the end of the log
      by_cases hz : through = 0
      · rw [if_pos hz] at hsnap
        intro _ row hrow _
        exact hsnap ▸ (hr.consistent.seq_bounds hrow).2
      · rw [if_neg hz] at hsnap
        exact hsnap ▸ ht.2.2 hz
    · exact Relay.Store.mem_served (hserved ▸ hx)
  | @put l x rest res r' hsub =>
    refine ⟨hknows, timely_onResult ht _ _ _, ?_⟩
    cases res with
    | accepted seq digest => exact hc
    | rejected head =>
      simp only [onResult]
      split_ifs <;> exact hc
  | putFailed hsub => exact ⟨hknows, trivial, trivial⟩
  | latestFailed hl => exact ⟨hknows, trivial, trivial⟩
  | pageFailed hl => exact ⟨hknows, trivial, trivial⟩

theorem PhaseOK.work {r : Relay.Store} {hs : List String} {draw : Draw} {st st' : Store} {p p' : Phase}
    (hblank : "" ∉ hs) (hout : ∀ x ∈ st.outbox, x.context.updatedBy = e.manager.deviceID)
    (hp : PhaseOK C e r st.history hs p) (h : Sync.work C e draw st p = some (st', p')) :
    PhaseOK C e r st'.history hs p' := by
  refine ⟨fun chain hch => ?_, hp.timely.work hblank hp.knows h, hp.content.work rfl hout h⟩
  rcases work_chain h with (hnone | hsame) | ⟨known, events, chain', rfl, hcmp, rfl⟩
  · exact absurd (hnone.symm.trans hch).symm (Option.some_ne_none chain)
  · exact hp.knows chain (hsame ▸ hch)
  · cases hch
    exact hp.timely chain (compareMembership_ok.1 hcmp).1

/-- An access of the Sync to its store. -/
theorem Inv.work {W : World} (h : Inv C e W) {p p' : Phase} (hsync : W.sync = some p) {draw : Draw}
    {st : Store} (hw : Sync.work C e draw W.store p = some (st, p')) :
    Inv C e { W with store := st, sync := some p' } := by
  have hp := h.phase p hsync
  refine ⟨h.relay, h.history, h.blank, fun x hx => ?_, fun id pos hpos => ?_, fun q hq => ?_⟩
  · rcases (work_effect hw).outbox hx with hx | ⟨l, c, head, rest, rfl⟩
    · exact h.outbox x hx
    · exact hp.content x List.mem_cons_self
  · rcases work_marks hw with ⟨hhist, hrev⟩ | ⟨l, history, rfl, rfl⟩ | ⟨l, through, x, todo, rfl, rfl⟩
    · rw [hrev] at hpos
      rw [hhist]
      exact h.noted id pos hpos
    · -- the first history to be stored: there is no position yet
      obtain ⟨y, hy, hstored⟩ := (h.noted id pos hpos).past
      have hempty : y = "" := by simpa [hstored] using hp.timely.2.2
      exact absurd (hempty ▸ hy) h.blank
    · obtain ⟨hnew, hpast, hbound⟩ := hp.timely
      by_cases hid : id = x
      · subst hid
        have hlookup : (W.store.revokedAt.insert id through).lookup id = some pos := hpos
        rw [AList.lookup_insert] at hlookup
        cases hlookup
        obtain ⟨c, hc, -⟩ := h.relay.chain
        obtain ⟨events, hpre, hvalid⟩ := (hp.knows l.chain rfl).events
        have hrev := hnew id List.mem_cons_self
        exact ⟨⟨c, hc, hrev.mono (Relay.keepsDevices_of_prefix hpre hvalid hc)⟩, hpast,
          fun heq row hrow hwriter => hbound heq row hrow (hwriter ▸ hrev)⟩
      · have hlookup : (W.store.revokedAt.insert x through).lookup id = some pos := hpos
        rw [AList.lookup_insert_ne hid] at hlookup
        exact h.noted id pos hlookup
  · cases hq
    exact hp.work h.blank h.outbox hw

/-! ## Runs -/

theorem updatedBy_of_sealEdits {m : Manager} {st : Store} {edits : List Manager.Edit}
    {envs : List Envelope} (h : edits.mapM (m.sealEdit C st) = .ok envs) :
    ∀ x ∈ envs, x.context.updatedBy = m.deviceID := by
  have hsealed := Except.mapM_eq_ok.1 h
  clear h
  induction hsealed with
  | nil => exact fun x hx => absurd hx List.not_mem_nil
  | cons hseal _ ih =>
    intro x hx
    obtain ⟨_, _, hw, -⟩ := Vault.Manager.sealEdit_ok hseal
    rcases List.mem_cons.1 hx with rfl | hx
    · rw [hw.context]; rfl
    · exact ih x hx

theorem Inv.step {W W' : World} {l : Label} (h : Inv C e W) (hok : Admits C e W l) (hfresh : Fresh W l)
    (hs : W.step C e l = some W') : Inv C e W' := by
  obtain ⟨epoch, hvault⟩ := h.relay.vault
  cases l with
  | put v env =>
    obtain ⟨digest, hcheck, hs⟩ := Option.bind_eq_some_iff.1 hs
    cases hs
    obtain ⟨hsub, rfl⟩ := Relay.Store.checkSubmission_eq_ok.1 (Except.toOption_eq_some.1 hcheck)
    refine h.addCall fun c hc => ⟨rfl, hsub.valid, ?_, ?_⟩
    · obtain ⟨_, _, hchain, -⟩ := hsub.writer
      exact hsub.vault.trans (vault_of_chain hvault hchain).1.symm
    · obtain ⟨chain, d, hchain, hd, -, hsig⟩ := hsub.writer
      obtain rfl : c = chain := Except.ok.inj (hc.symm.trans (vault_of_chain hvault hchain).2)
      exact ⟨d, hd, hsig⟩
  | importBatch v req =>
    obtain ⟨chain, hchain, hs⟩ := Option.bind_eq_some_iff.1 hs
    cases hs
    obtain ⟨hid, hval⟩ := vault_of_chain hvault (Except.toOption_eq_some.1 hchain)
    refine h.addCall fun c hc => ⟨hid.symm, ?_⟩
    obtain rfl : c = chain := Except.ok.inj (hc.symm.trans hval)
    exact .refl c
  | transact i now freshID =>
    obtain ⟨call, hi, hs⟩ := Option.bind_eq_some_iff.1 hs
    cases hs
    exact h.shift (h.transact hi (hok call hi) hfresh fun _ hx => List.mem_of_mem_eraseIdx hx)
  | append v ev =>
    obtain ⟨⟨next, r⟩, happ, hs⟩ := Option.bind_eq_some_iff.1 hs
    cases hs
    exact h.shift (h.append (Except.toOption_eq_some.1 happ))
  | edit edits =>
    obtain ⟨envs, henvs, hs⟩ := Option.bind_eq_some_iff.1 hs
    obtain ⟨st, hst, hs⟩ := Option.bind_eq_some_iff.1 hs
    cases hs
    obtain ⟨hinst, -, -, hmem, -⟩ := Store.applyLocalBatch_ok (Except.toOption_eq_some.1 hst)
    have hsame := hinst.same
    refine ⟨h.relay, h.history, h.blank, fun x hx => ?_, fun id pos hpos => ?_, fun p hp => ?_⟩
    · rcases hmem x hx with hx | hx
      · exact h.outbox x hx
      · exact updatedBy_of_sealEdits (Except.toOption_eq_some.1 henvs) x hx
    · have hrev : st.revokedAt = W.store.revokedAt := hsame.revokedAt
      exact hsame.history.symm ▸ h.noted id pos (hrev ▸ hpos)
    · exact hsame.history.symm ▸ h.phase p hp
  | start =>
    simp only [World.step] at hs
    split_ifs at hs with hsome
    cases hs
    refine { h with phase := fun p hp => ?_ }
    cases hp
    exact ⟨fun _ hch => absurd hch.symm (Option.some_ne_none _), trivial, trivial⟩
  | work draw =>
    obtain ⟨p, hp, hs⟩ := Option.bind_eq_some_iff.1 hs
    obtain ⟨⟨st, p'⟩, hw, hs⟩ := Option.bind_eq_some_iff.1 hs
    cases hs
    exact h.work hp hw
  | call now =>
    obtain ⟨p, hp, hs⟩ := Option.bind_eq_some_iff.1 hs
    obtain ⟨req, hreq, hs⟩ := Option.bind_eq_some_iff.1 hs
    obtain ⟨p', hrecv, hs⟩ := Option.bind_eq_some_iff.1 hs
    cases hs
    have hcalled := called_of_receive hreq rfl hrecv
    have h' := h.shift (h.called hp hcalled)
    refine ⟨h'.relay, h'.history, h'.blank, h'.outbox, h'.noted, fun q hq => ?_⟩
    cases hq
    exact (h'.phase p hp).call h'.relay h'.history (receive_chain hrecv) hcalled
  | stop =>
    cases hs
    exact { h with phase := fun p hp => absurd hp.symm (Option.some_ne_none p) }

theorem Inv.start {events : List SignedMembershipEvent} {c : Membership.Chain}
    (hc : Membership.validate C e.manager.genesis events = .ok c) {history : String}
    (hne : history ≠ "") (origin : String) {st : Store} (hst : st.revokedAt = ∅)
    (hout : ∀ x ∈ st.outbox, x.context.updatedBy = e.manager.deviceID) :
    Inv C e (World.start e events history origin st) where
  relay := ⟨⟨1, rfl⟩, .created .., c, hc, fun _ hrow => absurd hrow List.not_mem_nil,
    fun _ hcall => absurd hcall List.not_mem_nil⟩
  history := List.mem_cons_self
  blank := fun h => hne (List.mem_singleton.1 h).symm
  outbox := hout
  noted := fun id pos hpos => by
    have hlookup : st.revokedAt.lookup id = some pos := hpos
    rw [hst, AList.lookup_empty] at hlookup
    cases hlookup
  phase := fun p hp => absurd hp.symm (Option.some_ne_none p)

/-- An entry with a writer of the chain that is not past a position noted for it. -/
theorem verify_of_vouched {g : Genesis} {st : Store} {chain : Membership.Chain} {env : Envelope}
    (hv : Vouched C chain g.vaultID env) (hseq : env.seq ≠ 0)
    (hpos : ∀ pos, st.revokedAt.lookup env.context.updatedBy = some pos → env.seq ≤ pos) :
    verify C g st chain env = .ok () := by
  obtain ⟨d, hd, hsig⟩ := hv.writer
  have hcheck : checkRevokedWriter st d.id env.seq = .ok () := by
    rw [checkRevokedWriter, Membership.Chain.device_id hd]
    rcases hlookup : st.revokedAt.lookup env.context.updatedBy with _ | pos
    · rfl
    · exact Except.require_eq_ok.2 (hpos pos hlookup)
  simp only [verify, Except.bind_eq_ok, Except.require_eq_ok, Envelope.validate_eq_ok, hd]
  refine ⟨(), hv.valid, (), hv.vault, (), hseq, (), ?_, hsig⟩
  split_ifs
  · exact hcheck
  · rfl

/-- The log of the relay, under a chain that the client holds or may fetch now. -/
theorem Inv.verify {W : World} (h : Inv C e W) (hh : W.store.history = some W.relay.history)
    {chain : Membership.Chain} (hchain : W.relay.chain C e.manager.vaultID = .ok chain ∨
      ∃ p ∈ W.sync, held C e.manager.genesis p = some chain) {env : Envelope}
    (henv : Served W.relay env) : Sync.verify C e.manager.genesis W.store chain env = .ok () := by
  obtain ⟨epoch, hvault⟩ := h.relay.vault
  obtain ⟨c, hc, hrows, -⟩ := h.relay.chain
  obtain ⟨row, hrow, rfl⟩ := henv
  have hvouch : Vouched C chain e.manager.vaultID row.envelope := by
    rcases hchain with hchain | ⟨p, hp, hheld⟩
    · obtain rfl : c = chain := Except.ok.inj (hc.symm.trans (vault_of_chain hvault hchain).2)
      exact hrows row hrow
    · have hk := (h.phase p hp).held hheld
      obtain ⟨events, hpre, hvalid⟩ := hk.events
      exact (hrows row hrow).earlier (Relay.keepsDevices_of_prefix hpre hvalid hc)
        (hk.writers row hrow)
  refine verify_of_vouched ⟨⟨hvouch.valid.context, hvouch.valid.nonce, hvouch.valid.ciphertext,
    hvouch.valid.signature⟩, hvouch.vault, hvouch.writer⟩ ?_ fun pos hpos => ?_
  · exact (h.relay.consistent.seq_bounds hrow).1.ne'
  · exact (h.noted _ pos hpos).bound hh row hrow rfl

/-- **Main result.**  A client syncs with an honest relay while others submit records,
    rejoin and append membership events at any time.  In a run in which the records that
    they send fit what the client knows at that moment, and as long as the client has
    stored the relay's history: no entry of the log is rejected under a chain that the
    client holds or may fetch, and so none that it is about to verify. -/
theorem log_accepted {events : List SignedMembershipEvent} {c : Membership.Chain}
    (hc : Membership.validate C e.manager.genesis events = .ok c) {history : String}
    (hne : history ≠ "") (origin : String) {st : Store} (hst : st.revokedAt = ∅)
    (hout : ∀ x ∈ st.outbox, x.context.updatedBy = e.manager.deviceID) {W : World}
    (hW : Run.Reach (World.step C e) (fun W l => Admits C e W l ∧ Fresh W l)
      (World.start e events history origin st) W)
    (hh : W.store.history = some W.relay.history) :
    (∀ chain, (W.relay.chain C e.manager.vaultID = .ok chain ∨
        ∃ p ∈ W.sync, held C e.manager.genesis p = some chain) →
      ∀ row ∈ W.relay.log, Sync.verify C e.manager.genesis W.store chain
        (decodeEnvelope row.envelope row.seq) = .ok ()) ∧
    ∀ l page env todo envs, W.sync = some (.verifyChange l page env todo envs) →
      Sync.verify C e.manager.genesis W.store l.chain env = .ok () := by
  have hinv : Inv C e W := hW.invariant (.start hc hne origin hst hout)
    fun s l s' h hok hs => h.step hok.1 hok.2 hs
  refine ⟨fun chain hchain row hrow => hinv.verify hh hchain ⟨row, hrow, rfl⟩, ?_⟩
  intro l page env todo envs hsync
  exact hinv.verify hh (Or.inr ⟨_, hsync, rfl⟩)
    ((hinv.phase _ hsync).content env List.mem_cons_self)

/-! ## Runs of the sample vault -/

instance decidableRevoked (chain : Membership.Chain) (id : ID) : Decidable (Revoked chain id) :=
  inferInstanceAs (Decidable (∃ d ∈ chain.device id, d.revoked = true))

instance decidableFits (C : Suite) (e : Engine) (W : World) (stays : Prop) [Decidable stays]
    (env : Envelope) : Decidable (Fits C e W stays env) :=
  inferInstanceAs (Decidable ((∀ p ∈ W.sync, ∀ chain ∈ held C e.manager.genesis p,
      (chain.device env.context.updatedBy).isSome) ∧
    (stays → W.store.revokedAt.lookup env.context.updatedBy = none ∧
      ∀ p ∈ W.sync, (snapshot p).isSome → ∀ chain ∈ held C e.manager.genesis p,
        ¬ Revoked chain env.context.updatedBy)))

instance decidableRestarts (r : Relay.Store) : (c : Checked) → Decidable (c.restarts r)
  | .put _ _ _ => isFalse not_false
  | .importBatch _ req _ => inferInstanceAs (Decidable (req.history = r.history))

instance decidableAdmits (C : Suite) (e : Engine) (W : World) : (l : Label) →
    Decidable (Admits C e W l)
  | .transact i _ _ => inferInstanceAs (Decidable (∀ c ∈ W.calls[i]?, ∀ env ∈ c.records,
      Fits C e W (¬ c.restarts W.relay) env))
  | .put _ _ | .importBatch _ _ | .append _ _ | .edit _ | .start | .work _ | .call _ | .stop =>
    isTrue trivial

instance decidableFresh (W : World) : (l : Label) → Decidable (Fresh W l)
  | .transact _ _ freshID => inferInstanceAs (Decidable (freshID ∉ W.histories ∧ freshID ≠ ""))
  | .put _ _ | .importBatch _ _ | .append _ _ | .edit _ | .start | .work _ | .call _ | .stop =>
    isTrue trivial

namespace Vault01

open Sync.Vault01

/-- The device `0a`, and the membership of its vault: `0b` was enrolled and revoked. -/
def engine : Engine :=
  { manager := { genesis := Sample.genesis, deviceID := Sample.id 0x0a, signing := [10],
                 keys := setup.keys },
    url := setup.url }

def events : List SignedMembershipEvent :=
  [Sample.root (Sample.id 0x0a) [10] "A", Sample.enrolment, Sample.revocation]

def chain : Membership.Chain :=
  (Membership.validate sample Sample.genesis events).get (by decide)

/-- `0a` has joined the history `h2` of a new relay. -/
def joined : Store := founding.store.restartHistory "h2"

def start : World := World.start engine events "h2" historySeeded joined

/-- Another device still has the history `h1`, in which `0b` wrote the host `20`. -/
def elsewhere : Store :=
  ((founding.store.setHistory "h1").applyRemoteBatch sample 1
    [{ Sample.version (Sample.id 0x0b) [11] (Sample.id 0x20) (Sample.id 0x30) 1 none with
       seq := 1 }]).get (by decide)

/-- The import that its Rejoin sends. -/
def rejoins : List Label :=
  [.importBatch (Sample.id 0x01)
    { history := elsewhere.history.getD "", records := elsewhere.heads.map (Rejoin.itemOf elsewhere) },
   .transact 0 "t0" "h3"]

/-- A Sync of `0a` up to its first page. -/
def untilPage : List Label :=
  let w : Label := .work (draw 0xff)
  let c : Label := .call "t0"
  [.start, w, c, w, w, w, w, w, w, c, w, w, w, c]

/-- The end of a Sync that got an empty page: the position of `0b` is noted. -/
def afterEmptyPage : List Label :=
  let w : Label := .work (draw 0xff)
  [w, w, w, .stop]

/-- The import comes before the first Sync of `0a`. -/
def early : World :=
  (Run.replay (World.step sample engine) (fun W l => Admits sample engine W l ∧ Fresh W l) start
    (rejoins ++ untilPage)).get (by decide)

/-- The import comes after the first Sync of `0a`. -/
def blocked : World :=
  (Run.replay (World.step sample engine) Fresh start
    (untilPage ++ afterEmptyPage ++ rejoins ++ untilPage)).get (by decide)

/-- What a Sync is about to verify. -/
def verifying : Option Phase → Option (Locals × Envelope)
  | some (.verifyChange l _ env _ _) => some (l, env)
  | _ => none

theorem sync_of_verifying {s : Option Phase} {x : Locals × Envelope} (h : verifying s = some x) :
    ∃ page todo envs, s = some (.verifyChange x.1 page x.2 todo envs) := by
  unfold verifying at h
  split at h
  · cases h; exact ⟨_, _, _, rfl⟩
  · cases h

end Vault01

open Shared.Vault01 in
/-- A record of the revoked device `0b` that is imported before `0a` has noted its
    position. -/
theorem log_accepted_early : ∃ l page env todo envs,
    early.sync = some (.verifyChange l page env todo envs) ∧
      Revoked l.chain env.context.updatedBy ∧
      Sync.verify sample Sample.genesis early.store l.chain env = .ok () := by
  have hrev : ∃ x ∈ verifying early.sync, Revoked x.1.chain x.2.context.updatedBy := by decide
  obtain ⟨⟨l, env⟩, hx, hrev⟩ := hrev
  obtain ⟨page, todo, envs, hsync⟩ := sync_of_verifying hx
  refine ⟨l, page, env, todo, envs, hsync, hrev, ?_⟩
  have hchain : Membership.validate sample engine.manager.genesis events = .ok chain :=
    Except.eq_ok_get _
  have hrun : Run.Reach (World.step sample engine)
      (fun W l => Admits sample engine W l ∧ Fresh W l) start early :=
    Run.reach_of_replay (Option.some_get _).symm
  exact (log_accepted hchain (by decide) historySeeded rfl (by decide) hrun
    (by decide)).2 l page env todo envs hsync

open Shared.Vault01 in
/-- `0a` has noted the position of `0b`; then a device from another history imports what
    `0b` wrote.  The relay keeps its history, and `0a` rejects the entry. -/
theorem import_blocks :
    Run.Reach (World.step sample engine) Fresh start blocked ∧
    blocked.store.history = some blocked.relay.history ∧
    ∃ l page env todo envs err, blocked.sync = some (.verifyChange l page env todo envs) ∧
      Served blocked.relay env ∧
      Sync.verify sample Sample.genesis blocked.store l.chain env = .error err := by
  refine ⟨Run.reach_of_replay (Option.some_get _).symm, by decide, ?_⟩
  have hrej : ∃ x ∈ verifying blocked.sync,
      (∃ row ∈ blocked.relay.log, x.2 = decodeEnvelope row.envelope row.seq) ∧
      (Sync.verify sample Sample.genesis blocked.store x.1.chain x.2).toBool = false := by
    decide
  obtain ⟨⟨l, env⟩, hx, hserved, hbad⟩ := hrej
  obtain ⟨page, todo, envs, hsync⟩ := sync_of_verifying hx
  rcases hverify : Sync.verify sample Sample.genesis blocked.store l.chain env with err | ⟨⟩
  · exact ⟨l, page, env, todo, envs, err, hsync, hserved, hverify⟩
  · rw [hverify] at hbad; cases hbad

end Shared

end Sync

end Sshstate
