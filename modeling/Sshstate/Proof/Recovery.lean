/-
  A recovery challenge admits one request.

  `Ledger.Sound` is what the relay keeps: a stored nonce was issued and not consumed, a
  request is admitted with a challenge that was issued before and is not expired, and an
  event is appended only for an admitted request whose admission the recovery key signs.
  `RecoveryTask.Relies` is what a request knows between two of its statements.

  `handleRecoveryComplete` compares the device and the authority of the event with the
  admission, and not its action: the recovery key can revoke a device by this way
  (`revocation_appended`).  Where no request carries a revocation, the relay only enrols
  (`recovery_admits`).
-/
import Sshstate.Relay.Recovery
import Sshstate.Proof.Concurrent
import Sshstate.Proof.Replay

namespace Sshstate.Relay

variable {C : Suite}

open Except (bind_eq_ok require_eq_ok mapError_eq_ok)

/-- An event of the recovery authority is signed by the key that genesis pins. -/
theorem apply_recovery {c c' : Membership.Chain} {s : SignedMembershipEvent}
    (h : c.apply C s = .ok c') (ha : s.event.authority = .recovery) :
    Membership.SignedUnder C c.genesis.recoveryVerifyKey s := by
  simp only [Membership.Chain.apply, bind_eq_ok, mapError_eq_ok] at h
  obtain ⟨-, -, -, -, -, -, -, -, signer, hsigner, _, hsig, -⟩ := h
  rw [Membership.Chain.signerKey, if_pos ha] at hsigner
  obtain ⟨-, rfl⟩ := (Suite.verifyKeyFromBytes_eq_ok C).1 hsigner
  exact hsig

/-! ## Statements -/

/-- The challenge is for the nonce of the request, and was issued and not expired when the
    request was admitted. -/
structure Issued.Covers (i : Issued) (a : Admitted) : Prop where
  vaultID : i.row.vaultID = a.request.admission.vaultID
  nonce : i.row.nonce = a.request.admission.nonce
  issued : i.time ≤ a.time
  unexpired : unix a.time < i.row.expiresAt
  lifetime : i.row.expiresAt ≤ unix (i.time + recoveryChallengeTTL)

/-- The recovery key of `g` signs the admission, which names the device of the event. -/
structure RecoveryCompleteRequest.Proven (C : Suite) (g : Genesis) (req : RecoveryCompleteRequest) :
    Prop where
  vaultID : req.admission.vaultID = g.vaultID
  signed : C.verify g.recoveryVerifyKey recoveryAdmitDomain
    (C.canonical (.recoveryAdmission req.admission)) req.signature = true
  device : req.membershipEvent.event.deviceID = req.admission.deviceID
  authority : req.membershipEvent.event.authority = .recovery

theorem checkAdmission_ok {v : ID} {g : Genesis} {a : RecoveryAdmission} {u : Unit}
    (h : checkAdmission C v g a = .ok u) : a.vaultID = v := by
  simp only [checkAdmission, bind_eq_ok, require_eq_ok, exists_const] at h
  exact h.2.1

theorem checkProof_ok {g : Genesis} {req : RecoveryCompleteRequest} {u : Unit}
    (h : checkProof C g req = .ok u) (hv : req.admission.vaultID = g.vaultID) :
    req.Proven C g := by
  simp only [checkProof, bind_eq_ok, require_eq_ok, exists_const] at h
  obtain ⟨key, hkey, hsig, hdev, hauth⟩ := h
  obtain ⟨-, rfl⟩ := (Suite.verifyKeyFromBytes_eq_ok C).1 hkey
  exact ⟨hv, hsig, hdev, hauth⟩

theorem insertChallenge_ok {rows rows' : List RecoveryRow} {now : ℤ} {row : RecoveryRow}
    (h : insertChallenge rows now row = .ok rows') :
    rows' = (rows.filter fun r => unix now < r.expiresAt) ++ [row] := by
  simp only [insertChallenge] at h
  split at h
  · cases h
  · exact (Except.ok.inj h).symm

/-- Nothing is added to the table, whether or not the challenge is found. -/
theorem consume_sublist (rows : List RecoveryRow) (now : ℤ) (v : ID) (n : String) :
    List.Sublist (consumeRecoveryChallenge rows now v n).2 rows := by
  unfold consumeRecoveryChallenge
  split
  · exact List.Sublist.refl _
  · exact List.filter_sublist

/-- A challenge that is consumed leaves the table. -/
theorem consume_ok {rows rows' : List RecoveryRow} {now : ℤ} {v : ID} {n : String} {u : Unit}
    (h : consumeRecoveryChallenge rows now v n = (.ok u, rows')) :
    ∃ r ∈ rows, r.vaultID = v ∧ r.nonce = n ∧ unix now < r.expiresAt ∧ rows.Perm (r :: rows') := by
  unfold consumeRecoveryChallenge at h
  split at h
  · cases h
  obtain ⟨hone, rfl⟩ := Prod.mk.inj h
  rw [require_eq_ok, List.countP_eq_length_filter, List.length_eq_one_iff] at hone
  obtain ⟨r, hr⟩ := hone
  obtain ⟨hmem, hkey⟩ := List.mem_filter.1 (hr ▸ List.mem_singleton_self r)
  obtain ⟨hv, hn, ht⟩ := of_decide_eq_true hkey
  refine ⟨r, hmem, hv, hn, ht, ?_⟩
  have hsplit := (List.filter_append_perm (·.consumedBy now v n) rows).symm
  rwa [hr] at hsplit

theorem vaultID_ok {st : Store} {v : ID} {g : Genesis} (h : st.genesis v = .ok g) :
    (∃ row, st.vault = some row ∧ row.genesis = g) ∧ v = g.vaultID := by
  rcases hrow : st.vault with _ | row
  · simp [Store.genesis, hrow] at h
  · obtain ⟨rfl, hv⟩ := Store.genesis_ok ⟨row, hrow, rfl⟩ h
    exact ⟨⟨row, rfl, rfl⟩, hv⟩

/-! ## The invariant -/

/-- The request that `a` stands for carries an event that was appended for it. -/
structure Admitted.Appends (C : Suite) (g : Genesis) (a : Admitted) : Prop where
  proven : a.request.Proven C g
  signed : Membership.SignedUnder C g.recoveryVerifyKey a.request.membershipEvent
  action : a.request.membershipEvent.event.action = .enroll ∨
    a.request.membershipEvent.event.action = .revoke

section Runs

variable (C) (asked : RecoveryCompleteRequest → Prop) (st₀ : Store)

/-- `g` is the genesis of the relay's vault. -/
def Store.Founded (st : Store) (g : Genesis) : Prop := ∃ row, st.vault = some row ∧ row.genesis = g

/-- What the relay keeps from the store `st₀` on, where every request meets `asked`. -/
structure Ledger.Sound (clock : ℤ) (L : Ledger) : Prop where
  vault : L.store.vault = st₀.vault
  membership : L.store.membership.Perm
    (st₀.membership ++ L.appended.map (·.request.membershipEvent))
  issued : ∀ i ∈ L.issued, i.time ≤ clock ∧ i.row.expiresAt ≤ unix (i.time + recoveryChallengeTTL)
  nonces : ∀ r ∈ L.nonces, ∃ i ∈ L.issued, i.row = r
  once : List.Subperm (L.admitted.map (·.request.admission.nonce) ++ L.nonces.map (·.nonce))
    (L.issued.map (·.row.nonce))
  admitted : ∀ a ∈ L.admitted, asked a.request ∧ ∃ i ∈ L.issued, i.Covers a
  appended : ∀ a ∈ L.appended, a ∈ L.admitted ∧ ∃ g, st₀.Founded g ∧ a.Appends C g

/-- A call of `AppendMembership` at work on an event. -/
def Task.Appending (g : Genesis) (ev : SignedMembershipEvent) : Task → Prop
  | .append v ev' => ev' = ev ∧ v = g.vaultID
  | .appendGenesis ev' g' => ev' = ev ∧ g' = g
  | .appendChecked ev' next => ev' = ev ∧
      ∃ c : Membership.Chain, c.genesis = g ∧ c.apply C ev = .ok next
  | _ => False

/-- What a request relies on between two of its statements. -/
def RecoveryTask.Relies (clock : ℤ) (L : Ledger) : RecoveryTask → Prop
  | .challengeDrawn row => ∃ t ≤ clock, row.expiresAt = unix (t + recoveryChallengeTTL)
  | .complete req => asked req
  | .completeVault req _ => asked req
  | .completeChecked req v g => asked req ∧ st₀.Founded g ∧ v = g.vaultID ∧
      req.admission.vaultID = v
  | .appending a task => a ∈ L.admitted ∧ ∃ g, st₀.Founded g ∧ a.request.Proven C g ∧
      task.Appending C g a.request.membershipEvent
  | _ => True

variable {C asked st₀} {clock now : ℤ} {L L' : Ledger} {t t' : RecoveryTask}

theorem Ledger.Sound.later (h : L.Sound C asked st₀ clock) (hclock : clock ≤ now) :
    L.Sound C asked st₀ now :=
  { h with issued := fun i hi => ⟨(h.issued i hi).1.trans hclock, (h.issued i hi).2⟩ }

theorem RecoveryTask.Relies.later (h : t.Relies C asked st₀ clock L) (hclock : clock ≤ now)
    (hadm : ∀ a ∈ L.admitted, a ∈ L'.admitted) : t.Relies C asked st₀ now L' := by
  cases t with
  | challengeDrawn row =>
    obtain ⟨t, ht, hexp⟩ := h
    exact ⟨t, ht.trans hclock, hexp⟩
  | appending a task => exact ⟨hadm a h.1, h.2⟩
  | _ => exact h

/-- A challenge is stored. -/
theorem Ledger.Sound.issue {row : RecoveryRow} {rows : List RecoveryRow} {t : ℤ}
    (h : L.Sound C asked st₀ now) (ht : t ≤ now)
    (hexp : row.expiresAt = unix (t + recoveryChallengeTTL))
    (hins : insertChallenge L.nonces now row = .ok rows) :
    Ledger.Sound C asked st₀ now
      { L with nonces := rows, issued := L.issued ++ [⟨row, now⟩] } := by
  obtain rfl := insertChallenge_ok hins
  refine ⟨h.vault, h.membership, fun i hi => ?_, fun r hr => ?_, ?_, fun a ha => ?_, h.appended⟩
  · rcases List.mem_append.1 hi with hi | hi
    · exact h.issued i hi
    · obtain rfl := List.mem_singleton.1 hi
      refine ⟨le_rfl, ?_⟩
      rw [hexp]
      exact unix_mono (Int.add_le_add_right ht _)
  · rcases List.mem_append.1 hr with hr | hr
    · obtain ⟨i, hi, heq⟩ := h.nonces r (List.mem_filter.1 hr).1
      exact ⟨i, List.mem_append_left _ hi, heq⟩
    · obtain rfl := List.mem_singleton.1 hr
      exact ⟨⟨_, now⟩, by simp, rfl⟩
  · -- some old challenges are forgotten, and the new one is issued
    simp only [List.map_append, List.map_cons, List.map_nil, ← List.append_assoc]
    refine (List.subperm_append_right _).2 (List.Subperm.trans ?_ h.once)
    exact ((List.filter_sublist.map _).append_left _).subperm
  · obtain ⟨hask, i, hi, hcov⟩ := h.admitted a ha
    exact ⟨hask, i, List.mem_append_left _ hi, hcov⟩

/-- A challenge is asked for that is not there. -/
theorem Ledger.Sound.forget {rows : List RecoveryRow} (h : L.Sound C asked st₀ now)
    (hsub : List.Sublist rows L.nonces) : Ledger.Sound C asked st₀ now { L with nonces := rows } :=
  { h with
    nonces := fun r hr => h.nonces r (hsub.subset hr)
    once := ((hsub.map _).append_left _).subperm.trans h.once }

/-- A request is admitted. -/
theorem Ledger.Sound.admit {req : RecoveryCompleteRequest} {rows : List RecoveryRow} {v : ID}
    {u : Unit} (h : L.Sound C asked st₀ now) (hask : asked req) (hv : req.admission.vaultID = v)
    (hcons : consumeRecoveryChallenge L.nonces now v req.admission.nonce = (.ok u, rows)) :
    Ledger.Sound C asked st₀ now
      { L with nonces := rows, admitted := L.admitted ++ [⟨req, now⟩] } := by
  obtain ⟨r, hr, hrv, hrn, hexp, hperm⟩ := consume_ok hcons
  have hsub : List.Sublist rows L.nonces := by
    have := consume_sublist L.nonces now v req.admission.nonce
    rwa [hcons] at this
  refine ⟨h.vault, h.membership, h.issued, fun r hr => h.nonces r (hsub.subset hr), ?_,
    fun a ha => ?_, fun a ha => ?_⟩
  · -- the nonce goes over from the table to the admitted requests
    have hkey : (L.nonces.map (·.nonce)).Perm (req.admission.nonce :: rows.map (·.nonce)) := by
      rw [← hrn]; exact hperm.map _
    simp only [List.map_append, List.map_cons, List.map_nil, List.append_assoc,
      List.singleton_append]
    exact (hkey.symm.append_left _).subperm.trans h.once
  · rcases List.mem_append.1 ha with ha | ha
    · exact h.admitted a ha
    · obtain rfl := List.mem_singleton.1 ha
      obtain ⟨i, hi, rfl⟩ := h.nonces r hr
      exact ⟨hask, i, hi, hrv.trans hv.symm, hrn, (h.issued i hi).1, hexp, (h.issued i hi).2⟩
  · obtain ⟨hadm, hg⟩ := h.appended a ha
    exact ⟨List.mem_append_left _ hadm, hg⟩

/-- An event is appended. -/
theorem Ledger.Sound.append {a : Admitted} {st : Store} {g : Genesis}
    (h : L.Sound C asked st₀ now) (ha : a ∈ L.admitted) (hg : st₀.Founded g)
    (happ : a.Appends C g) (hins : L.store.insertMembership a.request.membershipEvent = .ok st) :
    Ledger.Sound C asked st₀ now { L with store := st, appended := L.appended ++ [a] } := by
  simp only [Store.insertMembership, Except.require_bind_eq_ok, Except.pure_eq_ok,
    Except.ok.injEq] at hins
  obtain ⟨-, rfl⟩ := hins
  refine ⟨h.vault, ?_, h.issued, h.nonces, h.once, h.admitted, fun b hb => ?_⟩
  · simp only [List.map_append, List.map_cons, List.map_nil, ← List.append_assoc]
    refine (List.perm_orderedInsert _ _ _).trans ?_
    exact (h.membership.cons _).trans (List.perm_append_singleton _ _).symm
  · rcases List.mem_append.1 hb with hb | hb
    · exact h.appended b hb
    · obtain rfl := List.mem_singleton.1 hb
      exact ⟨ha, g, hg, happ⟩

/-- A step of `AppendMembership`: nothing is stored and the call goes on or fails, or the
    event is inserted. -/
theorem Task.Appending.next {task task' : Task} {st st' : Store} {g : Genesis}
    {ev : SignedMembershipEvent} (h : task.Appending C g ev) (hg : st.Founded g)
    (hnext : task.next C st = some (task', st')) :
    (st' = st ∧ (task'.Appending C g ev ∨ ∃ err, task' = .appendDone (.error err))) ∨
    ∃ (c next : Membership.Chain), c.genesis = g ∧ c.apply C ev = .ok next ∧
      st.insertMembership ev = .ok st' ∧ task' = .appendDone (.ok next) := by
  cases task with
  | append v ev' =>
    obtain ⟨rfl, rfl⟩ := h
    obtain ⟨rfl, ⟨err, -, rfl⟩ | ⟨g', hg', rfl⟩⟩ := Task.append_next hnext
    · exact .inl ⟨rfl, .inr ⟨err, rfl⟩⟩
    · exact .inl ⟨rfl, .inl ⟨rfl, (Store.genesis_ok hg hg').1⟩⟩
  | appendGenesis ev' g' =>
    obtain ⟨rfl, rfl⟩ := h
    rcases hval : Membership.validate C g' st.membership with err | c
    · simp only [Task.next, Store.readChain, hval, Except.mapError, Except.bind_error',
        Option.some.injEq, Prod.mk.injEq] at hnext
      obtain ⟨rfl, rfl⟩ := hnext
      exact .inl ⟨rfl, .inr ⟨_, rfl⟩⟩
    · obtain ⟨rfl, ⟨err, -, rfl⟩ | ⟨next, happ, -, rfl⟩⟩ := Task.appendGenesis_next hval hnext
      · exact .inl ⟨rfl, .inr ⟨err, rfl⟩⟩
      · exact .inl ⟨rfl, .inl ⟨rfl, c, (Membership.validate_events hval).2.1, happ⟩⟩
  | appendChecked ev' next =>
    obtain ⟨rfl, c, hc, happ⟩ := h
    obtain ⟨rfl, err, -, rfl⟩ | ⟨hins, rfl⟩ := Task.appendChecked_next hnext
    · exact .inl ⟨rfl, .inr ⟨err, rfl⟩⟩
    · exact .inr ⟨c, next, hc, happ, hins, rfl⟩
  | _ => exact h.elim

/-- An event that `AppendMembership` accepts for a request with a proof. -/
theorem RecoveryCompleteRequest.Proven.appends {a : Admitted} {g : Genesis}
    {c next : Membership.Chain} (h : a.request.Proven C g) (hc : c.genesis = g)
    (happ : c.apply C a.request.membershipEvent = .ok next) : a.Appends C g := by
  refine ⟨h, hc ▸ apply_recovery happ h.authority, ?_⟩
  obtain ⟨-, -, -, -, ⟨henroll, -⟩ | ⟨hrevoke, -⟩⟩ := Membership.Chain.apply_ok happ
  · exact .inl henroll
  · exact .inr hrevoke

/-- What a step of a request does to the ledger: it is sound again, no admitted request is
    forgotten, and the request can rely on what it knows. -/
def RecoveryTask.Keeps (C : Suite) (asked : RecoveryCompleteRequest → Prop) (st₀ : Store) (now : ℤ)
    (L L' : Ledger) (t' : RecoveryTask) : Prop :=
  L'.Sound C asked st₀ now ∧ (∀ a ∈ L.admitted, a ∈ L'.admitted) ∧ t'.Relies C asked st₀ now L'

theorem Ledger.Sound.same (h : L.Sound C asked st₀ now) (ht : t'.Relies C asked st₀ now L) :
    t'.Keeps C asked st₀ now L L :=
  ⟨h, fun _ ha => ha, ht⟩

theorem Ledger.Sound.founded {g : Genesis} (h : L.Sound C asked st₀ clock) :
    L.store.Founded g ↔ st₀.Founded g := by
  simp only [Store.Founded, h.vault]

/-- A step of a challenge. -/
theorem Ledger.Sound.next_challengeDrawn {row : RecoveryRow} (h : L.Sound C asked st₀ now)
    (ht : (RecoveryTask.challengeDrawn row).Relies C asked st₀ now L)
    (hnext : (RecoveryTask.challengeDrawn row).next C now L = some (t', L')) :
    t'.Keeps C asked st₀ now L L' := by
  obtain ⟨t, hle, hexp⟩ := ht
  simp only [RecoveryTask.next] at hnext
  split at hnext
  · cases hnext; exact h.same trivial
  · rename_i hins
    cases hnext
    exact ⟨h.issue hle hexp hins, fun _ ha => ha, trivial⟩

/-- The step that consumes the nonce. -/
theorem Ledger.Sound.next_completeChecked {req : RecoveryCompleteRequest} {v : ID} {g : Genesis}
    (h : L.Sound C asked st₀ now)
    (ht : (RecoveryTask.completeChecked req v g).Relies C asked st₀ now L)
    (hnext : (RecoveryTask.completeChecked req v g).next C now L = some (t', L')) :
    t'.Keeps C asked st₀ now L L' := by
  obtain ⟨hask, hg, rfl, hv⟩ := ht
  simp only [RecoveryTask.next] at hnext
  split at hnext
  · rename_i hcons
    cases hnext
    refine ⟨h.forget ?_, fun _ ha => ha, trivial⟩
    have hsub := consume_sublist L.nonces now g.vaultID req.admission.nonce
    rwa [hcons] at hsub
  · rename_i hcons
    have hadm := h.admit hask hv hcons
    split at hnext
    · cases hnext
      exact ⟨hadm, fun _ ha => List.mem_append_left _ ha, trivial⟩
    · rename_i hproof
      cases hnext
      exact ⟨hadm, fun _ ha => List.mem_append_left _ ha, by simp, g, hg,
        checkProof_ok hproof hv, rfl, rfl⟩

/-- A step of `AppendMembership`. -/
theorem Ledger.Sound.next_appending {a : Admitted} {task : Task} (h : L.Sound C asked st₀ now)
    (ht : (RecoveryTask.appending a task).Relies C asked st₀ now L)
    (hnext : (RecoveryTask.appending a task).next C now L = some (t', L')) :
    t'.Keeps C asked st₀ now L L' := by
  obtain ⟨ha, g, hg, hproof, hwork⟩ := ht
  rcases hstep : task.next C L.store with _ | ⟨task', st⟩
  · simp [RecoveryTask.next, hstep] at hnext
  obtain ⟨rfl, hwork' | ⟨err, rfl⟩⟩ | ⟨c, next, hc, happ, hins, rfl⟩ :=
    hwork.next (h.founded.2 hg) hstep
  · -- the call has not returned, so that it is not one of the two answers
    have hgo : (RecoveryTask.appending a task).next C now L = some (.appending a task', L) := by
      cases task' <;> first | exact hwork'.elim | simp [RecoveryTask.next, hstep]
    cases hgo.symm.trans hnext
    exact h.same ⟨ha, g, hg, hproof, hwork'⟩
  · simp only [RecoveryTask.next, hstep] at hnext
    cases hnext
    exact h.same trivial
  · simp only [RecoveryTask.next, hstep] at hnext
    cases hnext
    exact ⟨h.append ha hg (hproof.appends hc happ) hins, fun _ ha => ha, trivial⟩

/-- One statement of one request. -/
theorem Ledger.Sound.next (h : L.Sound C asked st₀ now) (ht : t.Relies C asked st₀ now L)
    (hnext : t.next C now L = some (t', L')) : t'.Keeps C asked st₀ now L L' := by
  cases t with
  | challenge v n =>
    simp only [RecoveryTask.next] at hnext
    split at hnext <;> cases hnext <;> exact h.same trivial
  | challengeVault v n =>
    simp only [RecoveryTask.next] at hnext
    split at hnext <;> cases hnext <;> exact h.same trivial
  | challengeGenesis v n =>
    simp only [RecoveryTask.next] at hnext
    split at hnext <;> cases hnext
    · exact h.same trivial
    · exact h.same ⟨now, le_rfl, rfl⟩
  | challengeDrawn row => exact h.next_challengeDrawn ht hnext
  | challengeDone r => cases hnext
  | complete req =>
    simp only [RecoveryTask.next] at hnext
    split at hnext <;> cases hnext
    · exact h.same trivial
    · exact h.same ht
  | completeVault req v =>
    simp only [RecoveryTask.next] at hnext
    split at hnext
    · cases hnext; exact h.same trivial
    · rename_i hread
      cases hnext
      simp only [bind_eq_ok, Except.pure_eq_ok, Except.ok.injEq] at hread
      obtain ⟨g, hgen, _, hadm, rfl⟩ := hread
      obtain ⟨hg, hv⟩ := vaultID_ok hgen
      exact h.same ⟨ht, h.founded.1 hg, hv, checkAdmission_ok hadm⟩
  | completeChecked req v g => exact h.next_completeChecked ht hnext
  | appending a task => exact h.next_appending ht hnext
  | completeDone r => cases hnext

/-! ## Runs -/

/-- A completed recovery that is asked for meets `asked`. -/
def RecoveryTurn.Asks (asked : RecoveryCompleteRequest → Prop) : RecoveryTurn → Prop
  | .complete req => asked req
  | _ => True

instance RecoveryTurn.decidableAsks (asked : RecoveryCompleteRequest → Prop) [DecidablePred asked] :
    (l : RecoveryTurn) → Decidable (l.Asks asked)
  | .complete req => inferInstanceAs (Decidable (asked req))
  | .challenge _ _ => isTrue trivial
  | .advance _ _ => isTrue trivial

variable (C asked st₀) in
/-- The ledger is sound, and every request can rely on what it knows. -/
structure RecoveryDesk.Sound (D : RecoveryDesk) : Prop where
  ledger : D.ledger.Sound C asked st₀ D.clock
  tasks : ∀ t ∈ D.tasks, t.Relies C asked st₀ D.clock D.ledger

theorem RecoveryDesk.Sound.start (now : ℤ) :
    (RecoveryDesk.start st₀ now).Sound C asked st₀ where
  ledger :=
    { vault := rfl
      membership := by simp [RecoveryDesk.start]
      issued := fun _ hi => absurd hi List.not_mem_nil
      nonces := fun _ hr => absurd hr List.not_mem_nil
      once := List.nil_subperm
      admitted := fun _ ha => absurd ha List.not_mem_nil
      appended := fun _ ha => absurd ha List.not_mem_nil }
  tasks := fun _ ht => absurd ht List.not_mem_nil

theorem RecoveryDesk.Sound.step {D D' : RecoveryDesk} {l : RecoveryTurn}
    (hD : D.Sound C asked st₀) (hask : l.Asks asked) (h : D.step C l = some D') :
    D'.Sound C asked st₀ := by
  cases l with
  | challenge v n =>
    cases h
    exact ⟨hD.ledger, List.forall_mem_append.2 ⟨hD.tasks, by simp [RecoveryTask.Relies]⟩⟩
  | complete req =>
    cases h
    refine ⟨hD.ledger, List.forall_mem_append.2 ⟨hD.tasks, fun t ht => ?_⟩⟩
    obtain rfl := List.mem_singleton.1 ht
    exact hask
  | advance i now =>
    simp only [RecoveryDesk.step, Option.bind_eq_bind, Option.ite_none_right_eq_some,
      Option.bind_eq_some_iff] at h
    obtain ⟨hclock, t, ht, ⟨t', L'⟩, hnext, hD'⟩ := h
    cases hD'
    have hrel := (hD.tasks t (List.mem_of_getElem? ht)).later hclock fun _ ha => ha
    obtain ⟨hL, hadm, ht'⟩ := (hD.ledger.later hclock).next hrel hnext
    refine ⟨hL, fun x hx => ?_⟩
    rcases List.mem_or_eq_of_mem_set hx with hx | rfl
    · exact (hD.tasks x hx).later hclock hadm
    · exact ht'

theorem RecoveryDesk.Sound.of_reach {now : ℤ} {D : RecoveryDesk}
    (h : Run.Reach (RecoveryDesk.step C) (fun _ l => l.Asks asked) (.start st₀ now) D) :
    D.Sound C asked st₀ :=
  h.invariant (.start now) fun _ _ _ hD hask hstep => hD.step hask hstep

end Runs

/-- The request does not carry a revocation. -/
def RecoveryCompleteRequest.NoRevocation (req : RecoveryCompleteRequest) : Prop :=
  req.membershipEvent.event.action ≠ .revoke

instance : DecidablePred RecoveryCompleteRequest.NoRevocation := fun req =>
  inferInstanceAs (Decidable (req.membershipEvent.event.action ≠ .revoke))

/-- Recovery, from the store `st₀` on, admits with each challenge once and only enrols. -/
structure RecoveryDesk.Admits (C : Suite) (st₀ : Store) (D : RecoveryDesk) : Prop where
  /-- The chain has the appended events, and no others, beyond those of `st₀`. -/
  membership : D.ledger.store.membership.Perm
    (st₀.membership ++ D.ledger.appended.map (·.request.membershipEvent))
  /-- An appended event enrols the device that its admission names; the recovery key that
      genesis pins signs both. -/
  enrols : ∀ a ∈ D.ledger.appended, a ∈ D.ledger.admitted ∧ ∃ g, st₀.Founded g ∧
    a.request.membershipEvent.event.action = .enroll ∧
    Membership.SignedUnder C g.recoveryVerifyKey a.request.membershipEvent ∧ a.request.Proven C g
  /-- Every nonce that was admitted had been issued, and was not expired. -/
  covered : ∀ a ∈ D.ledger.admitted, ∃ i ∈ D.ledger.issued, i.Covers a
  /-- Different requests are admitted with different challenges. -/
  once : List.Subperm (D.ledger.admitted.map (·.request.admission.nonce))
    (D.ledger.issued.map (·.row.nonce))
  /-- So no nonce is admitted twice, as no nonce is drawn twice. -/
  nodup : (D.ledger.issued.map (·.row.nonce)).Nodup →
    (D.ledger.admitted.map (·.request.admission.nonce)).Nodup

/-- **Main result.**  In every interleaving of recovery requests none of which carries a
    revocation, each challenge admits at most one request, and what is appended enrols the
    device of an admission that the recovery key signs. -/
theorem recovery_admits {st₀ : Store} {now : ℤ} {D : RecoveryDesk}
    (h : Run.Reach (RecoveryDesk.step C)
      (fun _ l => l.Asks RecoveryCompleteRequest.NoRevocation) (.start st₀ now) D) :
    D.Admits C st₀ := by
  have hL := (RecoveryDesk.Sound.of_reach h).ledger
  have hsub : List.Subperm (D.ledger.admitted.map (·.request.admission.nonce))
      (D.ledger.issued.map (·.row.nonce)) :=
    (List.sublist_append_left _ _).subperm.trans hL.once
  refine ⟨hL.membership, fun a ha => ?_, fun a ha => (hL.admitted a ha).2, hsub, fun hnodup => ?_⟩
  · obtain ⟨hadm, g, hg, happ⟩ := hL.appended a ha
    have henroll := happ.action.resolve_right (hL.admitted a hadm).1
    exact ⟨hadm, g, hg, henroll, happ.signed, happ.proven⟩
  · obtain ⟨l, hperm, hl⟩ := hsub
    exact hperm.nodup_iff.1 (hl.nodup hnodup)

/-! ## The vault of `0a` and `0b` -/

namespace Recovery01

/-- 32 zero bytes. -/
def nonce : String := String.ofList (List.replicate 43 'A')

/-- An admission of the device `dev`, signed by the recovery key, with an event. -/
def request (dev : ID) (ev : SignedMembershipEvent) : RecoveryCompleteRequest :=
  let admission : RecoveryAdmission :=
    { domain := recoveryAdmitDomain, formatVersion := 1, vaultID := Sample.id 0x01,
      genesisDigest := Sample.genesis.digest sample, nonce := nonce, deviceID := dev,
      deviceVerifyKey := [11], deviceRecipient := "B", createdAt := "t0" }
  { admission := admission
    signature := sample.sign [12] [] recoveryAdmitDomain
      (sample.canonical (.recoveryAdmission admission))
    membershipEvent := ev }

/-- The recovery key revokes `0b`. -/
def revocation : SignedMembershipEvent :=
  Membership.sign sample
    { domain := membershipDomain, formatVersion := 1, suite := suiteID, vaultID := Sample.id 0x01,
      eventID := [], chainSeq := 3, parentDigest := some Sample.pairChain.head, action := .revoke,
      deviceID := Sample.id 0x0b, deviceVerifyKey := none, deviceRecipient := none,
      transcriptDigest := none, authority := .recovery, authorizedBy := Sample.id 0x01,
      createdAt := "t0" } [12] (Sample.id 0x09) []

/-- The recovery key enrols `0d`. -/
def enrolment : SignedMembershipEvent :=
  Sample.pairChain.recoveryEnroll sample [12]
    { id := Sample.id 0x0d, verifyKey := [13], recipient := "D" } 0 (Sample.id 0x09) []

/-- A challenge, and then two requests with its nonce that overlap. -/
def turns (req : RecoveryCompleteRequest) : List RecoveryTurn :=
  [.challenge (Sample.id 0x01) nonce, .advance 0 0, .advance 0 0, .advance 0 0, .advance 0 0,
   .complete req, .complete req, .advance 1 0, .advance 2 0, .advance 1 0, .advance 2 0,
   .advance 1 0, .advance 2 0, .advance 1 0, .advance 1 0, .advance 1 0]

def revoked : RecoveryDesk :=
  (Run.replay (RecoveryDesk.step sample) (fun _ _ => True) (.start pairRelay 0)
    (turns (request (Sample.id 0x0b) revocation))).get (by decide)

/-- A completed recovery revokes `0b`. -/
theorem revocation_appended :
    Run.Reach (RecoveryDesk.step sample) (fun _ _ => True) (.start pairRelay 0) revoked ∧
    (∃ a ∈ revoked.ledger.appended, a.request.membershipEvent.event.action = .revoke) ∧
    ¬ revoked.Admits sample pairRelay := by
  have hmem : (⟨request (Sample.id 0x0b) revocation, 0⟩ : Admitted) ∈ revoked.ledger.appended := by
    decide
  refine ⟨Run.reach_of_replay (Option.some_get _).symm, ⟨_, hmem, by decide⟩, fun h => ?_⟩
  obtain ⟨-, -, -, henroll, -⟩ := h.enrols _ hmem
  exact absurd henroll (by decide)

def enrolled : RecoveryDesk :=
  (Run.replay (RecoveryDesk.step sample)
    (fun _ l => l.Asks RecoveryCompleteRequest.NoRevocation) (.start pairRelay 0)
    (turns (request (Sample.id 0x0d) enrolment))).get (by decide)

theorem recovery_admits_enrolment :
    enrolled.ledger.admitted.length = 1 ∧
    enrolled.ledger.appended = [⟨request (Sample.id 0x0d) enrolment, 0⟩] ∧
    enrolled.Admits sample pairRelay :=
  ⟨by decide, by decide,
    recovery_admits (Run.reach_of_replay (Option.some_get _).symm)⟩

end Recovery01

end Sshstate.Relay
