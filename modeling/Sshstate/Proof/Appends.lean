/-
  Membership events that are appended at the same time.

  `AppendMembership` checks its event against a chain that may be out of date when
  the event is inserted.  The chain it was checked against is always a beginning of
  the stored one, and the place of the event is the first one after it, so that the
  key of the table admits the event only if nothing was added (`Serial`).  Hence the
  stored chain stays valid and only grows, and of the calls for one place at most
  one succeeds (`appends_serialize`).
-/
import Sshstate.Proof.Concurrent

namespace Sshstate.Relay

variable {C : Suite}

/-! ## The calls and their tasks -/

variable (C) in
/-- How far a task has come with its call. -/
def Task.Serves (g : Genesis) (membership : List SignedMembershipEvent) : Turn → Task → Prop
  | .appendMembership v ev, .append v' ev' => v' = v ∧ ev' = ev
  | .appendMembership v ev, .appendGenesis ev' g' => ev' = ev ∧ g' = g ∧ v = g.vaultID
  | .appendMembership v ev, .appendChecked ev' next =>
      ev' = ev ∧ v = g.vaultID ∧ ev.event.chainSeq ≤ maxInt64 ∧ ∃ events c, events <+: membership ∧
        Membership.validate C g events = .ok c ∧ c.apply C ev = .ok next
  | .appendMembership v ev, .appendDone (.ok _) =>
      v = g.vaultID ∧ ev.event.chainSeq ≤ maxInt64 ∧ ev.event.chainSeq ≤ membership.length
  | .appendMembership v ev, .appendDone (.error err) =>
      v = g.vaultID → ev.event.chainSeq ≤ maxInt64 → err.codeOf = .chainMismatch
  | .putRecord _ _ _, .put _ _ _ => True
  | .putRecord _ _ _, .putGenesis _ env _ digest _ => env.Valid ∧ digest = env.digest C
  | .putRecord _ _ _, .putChecked _ env _ digest => env.Valid ∧ digest = env.digest C
  | .putRecord _ _ _, .putDone _ => True
  | _, _ => False

/-- The `i`-th call has appended `ev`. -/
def Journal.Appended (J : Journal) (i : ℕ) (ev : SignedMembershipEvent) : Prop :=
  ∃ v next, J.calls[i]? = some (.appendMembership v ev) ∧
    J.busy.tasks[i]? = some (.appendDone (.ok next))

variable (C) in
/-- The stored chain is valid, every task is at work on its call, and no two calls have
    appended at one place. -/
structure Serial (g : Genesis) (J : Journal) : Prop where
  vault : ∃ row, J.busy.store.vault = some row ∧ row.genesis = g
  chain : ∃ c, Membership.validate C g J.busy.store.membership = .ok c
  length : J.calls.length = J.busy.tasks.length
  serves : ∀ {i : ℕ} {call t}, J.calls[i]? = some call → J.busy.tasks[i]? = some t →
    Task.Serves C g J.busy.store.membership call t
  once : ∀ {i j : ℕ} {ev ev'}, J.Appended i ev → J.Appended j ev' →
    ev.event.chainSeq = ev'.event.chainSeq → i = j

/-- A longer chain takes nothing from a task. -/
theorem Task.Serves.grow {g : Genesis} {membership : List SignedMembershipEvent} {call : Turn}
    {t : Task} (h : t.Serves C g membership call) (ev : SignedMembershipEvent) :
    t.Serves C g (membership ++ [ev]) call := by
  cases call with
  | putRecord v env now => cases t <;> exact h
  | advance i => cases t <;> exact h
  | appendMembership v ev' =>
    cases t with
    | appendChecked ev'' next =>
      obtain ⟨heq, hv, hseq, events, c, hpre, hrest⟩ := h
      exact ⟨heq, hv, hseq, events, c, hpre.trans (List.prefix_append ..), hrest⟩
    | appendDone r =>
      cases r with
      | error err => exact h
      | ok next =>
        obtain ⟨hv, hmax, hlen⟩ := h
        exact ⟨hv, hmax, hlen.trans (by simp)⟩
    | _ => exact h

/-- An event whose place is free when it is read is refused with `chain_mismatch`
    if at all. -/
theorem Store.checkAppend_error {chain : Membership.Chain} {ev : SignedMembershipEvent} {err : Error}
    (h : Store.checkAppend C chain ev = .error err) (hmax : ev.event.chainSeq ≤ maxInt64) :
    err.codeOf = .chainMismatch := by
  unfold Store.checkAppend at h
  rcases ha : chain.append C ev with e | next
  · simp only [ha, Except.mapError, Except.bind_error'] at h
    rw [← Except.error.inj h]; rfl
  · simp [ha, Except.mapError, Except.require, hmax] at h

theorem Store.insertMembership_error {st : Store} {ev : SignedMembershipEvent} {err : Error}
    (h : st.insertMembership ev = .error err) : err.codeOf = .chainMismatch := by
  unfold Store.insertMembership Except.require at h
  split_ifs at h
  · cases h; rfl
  · cases h

theorem Store.genesis_error {st : Store} {g : Genesis} {v : ID} {err : Error}
    (hrow : ∃ row, st.vault = some row ∧ row.genesis = g) (h : st.genesis v = .error err) :
    v ≠ g.vaultID := by
  obtain ⟨row, hrow, rfl⟩ := hrow
  rintro rfl
  simp [Store.genesis, hrow] at h

/-- What a step of a task does: nothing to the store, the transaction of a submission,
    which leaves vault and chain alone, or the insertion of its event. -/
theorem Task.Serves.next {g : Genesis} {st st' : Store} {call : Turn} {t t' : Task}
    (hvault : ∃ row, st.vault = some row ∧ row.genesis = g)
    (hchain : ∃ c, Membership.validate C g st.membership = .ok c)
    (ht : t.Serves C g st.membership call) (h : t.next C st = some (t', st')) :
    (st' = st ∧ t'.Serves C g st.membership call ∧ ∀ next, t' ≠ .appendDone (.ok next)) ∨
    (∃ v env now out, call = .putRecord v env now ∧ t' = .putDone (.ok out) ∧
      st'.vault = st.vault ∧ st'.membership = st.membership) ∨
    (∃ ev next c, call = .appendMembership g.vaultID ev ∧ ev.event.chainSeq ≤ maxInt64 ∧
      Membership.validate C g st.membership = .ok c ∧ c.apply C ev = .ok next ∧
      st' = { st with membership := st.membership ++ [ev] } ∧ t' = .appendDone (.ok next)) := by
  obtain ⟨c, hval⟩ := hchain
  cases call with
  | advance i => cases t <;> cases ht
  | putRecord v env now =>
    cases t with
    | put v' env' now' =>
      obtain ⟨rfl, ⟨err, rfl⟩ | ⟨g', hv, -, rfl⟩⟩ := Task.put_next h
      · exact Or.inl ⟨rfl, trivial, by simp⟩
      · exact Or.inl ⟨rfl, ⟨hv, rfl⟩, by simp⟩
    | putGenesis v' env' now' digest g' =>
      obtain ⟨rfl, ⟨err, rfl⟩ | ⟨chain, d, -, -, -, rfl⟩⟩ := Task.putGenesis_next h
      · exact Or.inl ⟨rfl, trivial, by simp⟩
      · exact Or.inl ⟨rfl, ht, by simp⟩
    | putChecked v' env' now' digest =>
      obtain ⟨hv, rfl⟩ := ht
      obtain ⟨rfl, err, rfl⟩ | ⟨out, htx, rfl⟩ := Task.putChecked_next h
      · exact Or.inl ⟨rfl, trivial, by simp⟩
      · obtain ⟨hvault', hmembers, -⟩ := Store.transact_frame htx hv
        exact Or.inr (Or.inl ⟨v, env, now, out, rfl, rfl, hvault', hmembers⟩)
    | putDone r => cases h
    | _ => cases ht
  | appendMembership v ev =>
    cases t with
    | append v' ev' =>
      obtain ⟨rfl, rfl⟩ := ht
      obtain ⟨rfl, ⟨err, herr, rfl⟩ | ⟨g', hg, rfl⟩⟩ := Task.append_next h
      · exact Or.inl ⟨rfl, fun hv _ => absurd hv (Store.genesis_error hvault herr), by simp⟩
      · obtain ⟨rfl, rfl⟩ := Store.genesis_ok hvault hg
        exact Or.inl ⟨rfl, ⟨rfl, rfl, rfl⟩, by simp⟩
    | appendGenesis ev' g' =>
      obtain ⟨rfl, rfl, rfl⟩ := ht
      obtain ⟨rfl, ⟨err, herr, rfl⟩ | ⟨next, happ, hmax, rfl⟩⟩ := Task.appendGenesis_next hval h
      · exact Or.inl ⟨rfl, fun _ hmax => Store.checkAppend_error herr hmax, by simp⟩
      · exact Or.inl ⟨rfl, ⟨rfl, rfl, hmax, _, c, List.prefix_refl _, hval, happ⟩, by simp⟩
    | appendChecked ev' next =>
      obtain ⟨rfl, rfl, hmax, events, c', hpre, hval', happ⟩ := ht
      obtain ⟨rfl, err, herr, rfl⟩ | ⟨hins, rfl⟩ := Task.appendChecked_next h
      · exact Or.inl ⟨rfl, fun _ _ => Store.insertMembership_error herr, by simp⟩
      · obtain ⟨rfl, rfl⟩ := (Store.insertMembership_eq_ok hpre hval' happ hval).1 hins
        exact Or.inr (Or.inr ⟨ev', next, c', rfl, hmax, hval', happ, rfl, rfl⟩)
    | appendDone r => cases h
    | _ => cases ht

/-! ## Runs -/

/-- What a step of the relay is: a new call with its task, or a step of a task. -/
theorem Journal.step_cases {J J' : Journal} {l : Turn} (h : J.step C l = some J') :
    (∃ t, J'.busy.store = J.busy.store ∧ J'.busy.tasks = J.busy.tasks ++ [t] ∧
      J'.calls = J.calls ++ [l] ∧ (∀ g membership, t.Serves C g membership l) ∧
      ∀ next, t ≠ .appendDone (.ok next)) ∨
    ∃ i t t' st', l = .advance i ∧ J.busy.tasks[i]? = some t ∧
      t.next C J.busy.store = some (t', st') ∧
      J' = { J with busy := { store := st', tasks := J.busy.tasks.set i t' } } := by
  simp only [Journal.step, Option.bind_eq_bind, Option.bind_eq_some_iff] at h
  obtain ⟨b, hb, h⟩ := h
  cases l with
  | putRecord v env now =>
    cases hb; cases h
    exact Or.inl ⟨.put v env now, rfl, rfl, rfl, fun _ _ => trivial, by simp⟩
  | appendMembership v ev =>
    cases hb; cases h
    exact Or.inl ⟨.append v ev, rfl, rfl, rfl, fun _ _ => ⟨rfl, rfl⟩, by simp⟩
  | advance i =>
    cases h
    simp only [Busy.step, Option.bind_eq_bind, Option.bind_eq_some_iff] at hb
    obtain ⟨t, ht, ⟨t', st'⟩, hnext, hb'⟩ := hb
    cases hb'
    exact Or.inr ⟨i, t, t', st', rfl, ht, hnext, rfl⟩

theorem getElem?_set_cases {α : Type} {l : List α} {a b : α} {i j : ℕ}
    (h : (l.set i a)[j]? = some b) : (j ≠ i ∧ l[j]? = some b) ∨ (j = i ∧ b = a) := by
  rcases eq_or_ne j i with rfl | hne
  · rw [List.getElem?_set_self' ] at h
    simp only [Option.map_eq_map, Option.map_eq_some_iff] at h
    obtain ⟨_, -, rfl⟩ := h
    exact Or.inr ⟨rfl, rfl⟩
  · rw [List.getElem?_set_ne hne.symm] at h
    exact Or.inl ⟨hne, h⟩

theorem Serial.callOf {g : Genesis} {J : Journal} {i : ℕ} {t : Task} (hJ : Serial C g J)
    (ht : J.busy.tasks[i]? = some t) : ∃ call, J.calls[i]? = some call := by
  have hi := (List.getElem?_eq_some_iff.1 ht).1
  rw [← hJ.length] at hi
  exact ⟨_, List.getElem?_eq_getElem hi⟩

/-- What a call has appended is at its place. -/
theorem Serial.place {g : Genesis} {J : Journal} {i : ℕ} {ev : SignedMembershipEvent}
    (hJ : Serial C g J) (h : J.Appended i ev) :
    ev.event.chainSeq ≤ J.busy.store.membership.length := by
  obtain ⟨v, next, hcall, htask⟩ := h
  exact (hJ.serves hcall htask).2.2

/-- A new call has appended nothing. -/
theorem Serial.call {g : Genesis} {J J' : Journal} {l : Turn} {t : Task} (hJ : Serial C g J)
    (hstore : J'.busy.store = J.busy.store) (htasks : J'.busy.tasks = J.busy.tasks ++ [t])
    (hcalls : J'.calls = J.calls ++ [l]) (hserves : ∀ g membership, t.Serves C g membership l)
    (hnot : ∀ next, t ≠ .appendDone (.ok next)) : Serial C g J' := by
  have hpair : ∀ {k : ℕ} {call t₀}, J'.calls[k]? = some call → J'.busy.tasks[k]? = some t₀ →
      (J.calls[k]? = some call ∧ J.busy.tasks[k]? = some t₀) ∨ (call = l ∧ t₀ = t) := by
    intro k call t₀ hcall htask
    rw [hcalls] at hcall
    rw [htasks] at htask
    rcases Membership.Chain.getElem?_concat_cases hcall with hc | ⟨hk, hc⟩ <;>
      rcases Membership.Chain.getElem?_concat_cases htask with ht | ⟨hk', ht⟩
    · exact Or.inl ⟨hc, ht⟩
    · have := (List.getElem?_eq_some_iff.1 hc).1
      rw [hJ.length] at this
      omega
    · have := (List.getElem?_eq_some_iff.1 ht).1
      rw [← hJ.length] at this
      omega
    · exact Or.inr ⟨hc, ht⟩
  have hold : ∀ {k : ℕ} {ev}, J'.Appended k ev → J.Appended k ev := by
    rintro k ev ⟨v, next, hcall, htask⟩
    rcases hpair hcall htask with ⟨hc, ht⟩ | ⟨-, ht⟩
    · exact ⟨v, next, hc, ht⟩
    · exact absurd ht.symm (hnot next)
  refine ⟨hstore ▸ hJ.vault, hstore ▸ hJ.chain, by simp [hcalls, htasks, hJ.length], ?_,
    fun ha hb => hJ.once (hold ha) (hold hb)⟩
  intro k call t₀ hcall htask
  rw [hstore]
  rcases hpair hcall htask with ⟨hc, ht⟩ | ⟨rfl, rfl⟩
  · exact hJ.serves hc ht
  · exact hserves g _

/-- A step of the `i`-th task, which appends at most behind the stored chain. -/
theorem Serial.advance {g : Genesis} {J : Journal} {i : ℕ} {call : Turn} {t' : Task} {st' : Store}
    (hJ : Serial C g J) (hcall : J.calls[i]? = some call)
    (hvault : ∃ row, st'.vault = some row ∧ row.genesis = g)
    (hchain : ∃ c, Membership.validate C g st'.membership = .ok c)
    (hgrow : ∀ {call t}, Task.Serves C g J.busy.store.membership call t →
      t.Serves C g st'.membership call)
    (ht' : t'.Serves C g st'.membership call)
    (hnew : ∀ v ev next, call = .appendMembership v ev → t' = .appendDone (.ok next) →
      J.busy.store.membership.length < ev.event.chainSeq) :
    Serial C g { J with busy := { store := st', tasks := J.busy.tasks.set i t' } } := by
  have hset : ∀ {k : ℕ} {ev}, Journal.Appended ⟨⟨st', J.busy.tasks.set i t'⟩, J.calls⟩ k ev →
      J.Appended k ev ∨ (k = i ∧ J.busy.store.membership.length < ev.event.chainSeq) := by
    rintro k ev ⟨v, next, hcall', htask⟩
    rcases getElem?_set_cases htask with ⟨-, ht⟩ | ⟨rfl, ht⟩
    · exact Or.inl ⟨v, next, hcall', ht⟩
    · exact Or.inr ⟨rfl, hnew v ev next (Option.some.inj (hcall.symm.trans hcall')) ht.symm⟩
  refine ⟨hvault, hchain, by simp [hJ.length], ?_, ?_⟩
  · intro k call' t₀ hcall' htask
    rcases getElem?_set_cases htask with ⟨-, ht⟩ | ⟨rfl, rfl⟩
    · exact hgrow (hJ.serves hcall' ht)
    · obtain rfl := Option.some.inj (hcall.symm.trans hcall')
      exact ht'
  · intro a b ev ev' ha hb hseq
    rcases hset ha with hold | ⟨rfl, hlt⟩ <;> rcases hset hb with hold' | ⟨rfl, hlt'⟩
    · exact hJ.once hold hold' hseq
    · have := hJ.place hold
      omega
    · have := hJ.place hold'
      omega
    · rfl

theorem Serial.step {g : Genesis} {J J' : Journal} {l : Turn} (hJ : Serial C g J)
    (h : J.step C l = some J') : Serial C g J' := by
  rcases Journal.step_cases h with ⟨t, hst, htasks, hcalls, hserves, hnot⟩ |
    ⟨i, t, t', st', rfl, ht, hnext, rfl⟩
  · exact hJ.call hst htasks hcalls hserves hnot
  obtain ⟨call, hcall⟩ := hJ.callOf ht
  rcases (hJ.serves hcall ht).next hJ.vault hJ.chain hnext with ⟨rfl, hserves, hnot⟩ |
    ⟨v, env, now, out, rfl, rfl, hvault, hmembers⟩ | ⟨ev, next, c, rfl, hmax, hval, happ, rfl, rfl⟩
  · exact hJ.advance hcall hJ.vault hJ.chain id hserves
      fun v ev next _ hdone => absurd hdone (hnot next)
  · exact hJ.advance hcall (hvault ▸ hJ.vault) (hmembers ▸ hJ.chain) (hmembers ▸ id) trivial
      fun v' ev next hc => by cases hc
  · have hseq : ev.event.chainSeq = J.busy.store.membership.length + 1 := by
      rw [Membership.Chain.apply_chainSeq happ, (Membership.validate_events hval).1]
    refine hJ.advance hcall hJ.vault ⟨next, Membership.validate_concat hval happ⟩
      (fun hs => hs.grow ev) ⟨rfl, hmax, by simp [hseq]⟩ ?_
    intro v ev' next' hc _
    cases hc
    omega

/-- One step of the `i`-th call inserts its event or leaves the store as it is. -/
theorem Serial.step_call {g : Genesis} {J J' : Journal} {i : ℕ} {v : ID} {ev : SignedMembershipEvent}
    (hJ : Serial C g J) (hcall : J.calls[i]? = some (.appendMembership v ev))
    (h : J.step C (.advance i) = some J') :
    J'.busy.store = J.busy.store ∨ (J'.Appended i ev ∧
      J'.busy.store = { J.busy.store with membership := J.busy.store.membership ++ [ev] }) := by
  rcases Journal.step_cases h with ⟨t, hst, -⟩ | ⟨_, t, t', st', hl, ht, hnext, rfl⟩
  · exact Or.inl hst
  cases hl
  rcases (hJ.serves hcall ht).next hJ.vault hJ.chain hnext with ⟨rfl, -⟩ | ⟨_, _, _, _, hc, -⟩ |
    ⟨ev', next, c, hc, -, -, -, rfl, rfl⟩
  · exact Or.inl rfl
  · cases hc
  · cases hc
    refine Or.inr ⟨⟨_, next, hcall, ?_⟩, rfl⟩
    exact List.getElem?_set_self (List.getElem?_eq_some_iff.1 ht).1

theorem Serial.prefix_step {g : Genesis} {J J' : Journal} {l : Turn} (hJ : Serial C g J)
    (h : J.step C l = some J') : J.busy.store.membership <+: J'.busy.store.membership := by
  rcases Journal.step_cases h with ⟨t, hst, -⟩ | ⟨i, t, t', st', rfl, ht, hnext, rfl⟩
  · rw [hst]
  obtain ⟨call, hcall⟩ := hJ.callOf ht
  rcases (hJ.serves hcall ht).next hJ.vault hJ.chain hnext with ⟨rfl, -⟩ |
    ⟨_, _, _, _, -, -, -, hmembers⟩ | ⟨ev, next, c, -, -, -, -, rfl, rfl⟩
  · exact List.prefix_refl _
  · exact hmembers ▸ List.prefix_refl _
  · exact List.prefix_append ..

/-- **Main result.**  In every run of overlapping calls, from a relay with a valid chain:
    the stored events, in the order of `chain_seq`, are a valid chain, of which every
    chain stored before is a beginning; a step of a call inserts its event or changes
    nothing; and once a call has appended, every other call for the same place that
    has returned was refused with `chain_mismatch`. -/
theorem appends_serialize (C : Suite) {st₀ : Store} {v : ID} {c₀ : Membership.Chain}
    (hchain : st₀.chain C v = .ok c₀) {J : Journal}
    (h : Run.Reach (Journal.step C) (fun _ _ => True) ⟨⟨st₀, []⟩, []⟩ J) :
    (∃ c, J.busy.store.chain C v = .ok c) ∧
    J.busy.store.membership.map (·.event.chainSeq) =
      List.range' 1 J.busy.store.membership.length ∧
    (∀ J', Run.Reach (Journal.step C) (fun _ _ => True) J J' →
      J.busy.store.membership <+: J'.busy.store.membership) ∧
    (∀ i v' ev J', J.calls[i]? = some (.appendMembership v' ev) →
      J.step C (.advance i) = some J' →
      J'.busy.store = J.busy.store ∨ (J'.Appended i ev ∧
        J'.busy.store = { J.busy.store with membership := J.busy.store.membership ++ [ev] })) ∧
    ∀ i j ev ev' r, i ≠ j → J.Appended i ev → J.calls[j]? = some (.appendMembership v ev') →
      ev.event.chainSeq = ev'.event.chainSeq → J.busy.tasks[j]? = some (.appendDone r) →
      ∃ err, r = .error err ∧ err.codeOf = .chainMismatch := by
  obtain ⟨row, hrow, hid, hval⟩ := Store.chain_eq_ok.1 hchain
  have hstart : Serial C row.genesis ⟨⟨st₀, []⟩, []⟩ :=
    { vault := ⟨row, hrow, rfl⟩
      chain := ⟨c₀, hval⟩
      length := rfl
      serves := fun hc => by simp at hc
      once := fun ⟨_, _, hc, _⟩ => by simp at hc }
  have hJ : Serial C row.genesis J := h.invariant hstart fun _ _ _ hs _ hst => hs.step hst
  obtain ⟨row', hrow', hg⟩ := hJ.vault
  obtain ⟨c, hc⟩ := hJ.chain
  refine ⟨⟨c, Store.chain_eq_ok.2 ⟨row', hrow', hg ▸ hid, hg ▸ hc⟩⟩,
    Membership.chainSeq_of_validate hc, fun J' hrun => ?_,
    fun i v' ev J' hcall hst => hJ.step_call hcall hst, ?_⟩
  · refine (hrun.invariant (P := fun K => Serial C row.genesis K ∧
      J.busy.store.membership <+: K.busy.store.membership) ⟨hJ, List.prefix_refl _⟩ ?_).2
    exact fun K l K' ⟨hK, hpre⟩ _ hst => ⟨hK.step hst, hpre.trans (hK.prefix_step hst)⟩
  · intro i j ev ev' r hij happ hcall hseq htask
    have hserved := hJ.serves hcall htask
    cases r with
    | error err =>
      obtain ⟨v', next, hcall', htask'⟩ := happ
      obtain ⟨-, hmax, -⟩ := hJ.serves hcall' htask'
      exact ⟨err, rfl, hserved hid.symm (hseq ▸ hmax)⟩
    | ok next => exact absurd (hJ.once happ ⟨v, next, hcall, htask⟩ hseq) hij

/-- The relay of the device `0a`, without calls. -/
def soleRelay : Store :=
  Store.created Sample.genesis [Sample.root (Sample.id 0x0a) [10] "A"] "h" historyCreated

/-- `0b` and `0c` are enrolled at one place; both events are checked before one of them
    is inserted. -/
def contended : Journal :=
  (Run.replay (Journal.step sample) (fun _ _ => True) ⟨⟨soleRelay, []⟩, []⟩
    [.appendMembership (Sample.id 0x01) Sample.enrolment,
     .appendMembership (Sample.id 0x01) Sample.otherEnrolment, .advance 0, .advance 1, .advance 0,
     .advance 1, .advance 1, .advance 0]).get (by decide)

def appendedChain : Membership.Chain :=
  (Sample.firstChain.append sample Sample.otherEnrolment).get (by decide)

/-- The enrolment of `0c` is inserted first, so that the one of `0b` is refused. -/
theorem appends_serialize_contended :
    contended.Appended 1 Sample.otherEnrolment ∧
    contended.busy.tasks[0]? = some (.appendDone
      (.error (.protocol .chainMismatch "another event was appended first" []))) ∧
    (∃ c, contended.busy.store.chain sample (Sample.id 0x01) = .ok c) ∧
    ∃ err, Except.error (Error.protocol .chainMismatch "another event was appended first" []) =
      (.error err : Except Error Membership.Chain) ∧ err.codeOf = .chainMismatch := by
  have hrun : Run.Reach (Journal.step sample) (fun _ _ => True) ⟨⟨soleRelay, []⟩, []⟩ contended :=
    Run.reach_of_replay (Option.some_get _).symm
  have happ : contended.Appended 1 Sample.otherEnrolment :=
    ⟨Sample.id 0x01, appendedChain, by decide, by decide⟩
  have hdone : contended.busy.tasks[0]? = some (.appendDone
      (.error (.protocol .chainMismatch "another event was appended first" []))) := by
    decide
  obtain ⟨hchain, -, -, -, hothers⟩ := appends_serialize sample
    (Except.eq_ok_get (x := soleRelay.chain sample (Sample.id 0x01)) (by decide)) hrun
  exact ⟨happ, hdone, hchain, hothers 1 0 _ Sample.enrolment _ (by decide) happ (by decide)
    (by decide) hdone⟩

end Sshstate.Relay
