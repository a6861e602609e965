/-
  What is copied from one device to another: the heads a query of a copy takes
  (`Copy.read_cases`) and the store that is installed from them (`install_ok`).
-/
import Sshstate.Proof.Engine

namespace Sshstate.Vault

variable {C : Suite}

namespace Store

theorem mem_allRecords {st : Store} {t : RecordType} {e : Envelope} :
    e ∈ st.allRecords t ↔ (∃ id, st.head id = some e) ∧ e.context.recordType = t := by
  simp only [allRecords, List.mem_insertionSort, List.mem_filter, List.mem_map, decide_eq_true_eq,
    head, ← Option.mem_def, AList.mem_lookup_iff]
  refine and_congr_left fun _ => ⟨?_, ?_⟩
  · rintro ⟨⟨id, x⟩, hx, rfl⟩
    exact ⟨id, hx⟩
  · rintro ⟨id, hx⟩
    exact ⟨⟨id, e⟩, hx, rfl⟩

end Store

namespace Copy

theorem take_eq_some {unpublished : List ID} {rows rows' : List Envelope}
    (h : take unpublished rows = some rows') :
    (∀ e ∈ rows, e.context.mutationID ∈ unpublished → e.context.rev ≤ 1) ∧
      rows' = rows.filter (·.context.mutationID ∉ unpublished) := by
  unfold take at h
  split_ifs at h with hc
  exact ⟨fun e he hm => Nat.le_of_not_lt fun hrev => hc ⟨e, he, hm, hrev⟩,
    (Option.some.inj h).symm⟩

/-- The queries of a copy: the outbox, the heads of one type, the cursor. -/
theorem read_cases {c c' : Copy} {st : Store} (h : c.read st = some c') :
    (c.unpublished = none ∧
      c' = { c with unpublished := some (st.pending.map (·.context.mutationID)) }) ∨
    (∃ unpublished t todo, c.unpublished = some unpublished ∧ c.todo = t :: todo ∧
      (∀ e ∈ st.allRecords t, e.context.mutationID ∈ unpublished → e.context.rev ≤ 1) ∧
      c' = { c with
        todo := todo,
        heads := c.heads ++ (st.allRecords t).filter (·.context.mutationID ∉ unpublished) }) ∨
    (∃ unpublished, c.unpublished = some unpublished ∧ c.todo = [] ∧ c.cursor = none ∧
      c' = { c with cursor := some (st.cursor.getD 0) }) := by
  unfold read at h
  split at h
  next hu => cases h; exact Or.inl ⟨hu, rfl⟩
  next unpublished t todo hu ht =>
    obtain ⟨rows, hrows, rfl⟩ := Option.map_eq_some_iff.1 h
    obtain ⟨hrev, rfl⟩ := take_eq_some hrows
    exact Or.inr (Or.inl ⟨unpublished, t, todo, hu, ht, hrev, rfl⟩)
  next unpublished hu ht =>
    split_ifs at h with hc
    cases h
    exact Or.inr (Or.inr ⟨unpublished, hu, ht, hc, rfl⟩)

/-- A head that a query adds to a copy is a stored head. -/
theorem mem_heads_of_read {c c' : Copy} {st : Store} (h : c.read st = some c') {e : Envelope}
    (he : e ∈ c'.heads) : e ∈ c.heads ∨ ∃ id, st.head id = some e := by
  obtain ⟨-, rfl⟩ | ⟨_, t, _, -, -, -, rfl⟩ | ⟨_, -, -, -, rfl⟩ := read_cases h
  · exact Or.inl he
  · rcases List.mem_append.1 he with he | he
    · exact Or.inl he
    · exact Or.inr (Store.mem_allRecords.1 (List.mem_of_mem_filter he)).1
  · exact Or.inl he

end Copy

/-! ## Installation -/

theorem installHeads_ok {st st' : Store} {seen : List ID} {heads : List Envelope}
    (h : installHeads C st seen heads = .ok st') :
    (∀ id, id ∈ seen → st'.head id = st.head id) ∧
    (∀ id, st'.head id = st.head id ∨ ∃ e ∈ heads, e.context.recordID = id ∧ st'.head id = some e) ∧
    (∀ e ∈ heads, st'.head e.context.recordID = some e) ∧
    st'.outbox = st.outbox ∧ st'.cursor = st.cursor ∧ Store.SameElse st st' := by
  induction heads generalizing st seen with
  | nil => cases h; exact ⟨fun _ _ => rfl, fun _ => Or.inl rfl, nofun, rfl, rfl, .refl _⟩
  | cons env heads ih =>
    simp only [installHeads, Except.bind_eq_ok, Except.require_eq_ok, Except.mapError_eq_ok,
      Store.replaceHead_ok] at h
    obtain ⟨-, hnew, _, ⟨-, rfl⟩, h⟩ := h
    obtain ⟨hseen, hcases, hall, hout, hcur, hsame⟩ := ih h
    have hhead := Store.head_writeHead st env (env.digest C)
    refine ⟨fun id hid => ?_, fun id => ?_, fun e he => ?_, hout, hcur,
      (Store.sameElse_writeHead ..).trans hsame⟩
    · rw [hseen id (List.mem_cons_of_mem _ hid), hhead, if_neg]
      rintro rfl; exact hnew hid
    · rcases hcases id with heq | ⟨e, he, hid, heq⟩
      · rw [heq, hhead]
        by_cases hid : id = env.context.recordID
        · exact Or.inr ⟨env, List.mem_cons_self, hid.symm, if_pos hid⟩
        · exact Or.inl (if_neg hid)
      · exact Or.inr ⟨e, List.mem_cons_of_mem _ he, hid, heq⟩
    · rcases List.mem_cons.1 he with rfl | he
      · rw [hseen _ List.mem_cons_self, hhead, if_pos rfl]
      · exact hall e he

theorem foldl_putDevice (devices : List Membership.Device) (st : Store) :
    ∃ table, devices.foldl (fun st d => st.putDevice (deviceRow d)) st =
      { st with devices := table } := by
  induction devices generalizing st with
  | nil => exact ⟨st.devices, rfl⟩
  | cons d devices ih =>
    obtain ⟨table, htable⟩ := ih (st.putDevice (deviceRow d))
    exact ⟨table, htable⟩

/-- The rows of devices depend on those before them only. -/
theorem devices_foldl_putDevice (devices : List Membership.Device) {st st' : Store}
    (h : st.devices = st'.devices) :
    (devices.foldl (fun st d => st.putDevice (deviceRow d)) st).devices =
      (devices.foldl (fun st d => st.putDevice (deviceRow d)) st').devices := by
  induction devices generalizing st st' with
  | nil => exact h
  | cons d devices ih => exact ih (by simp only [Store.putDevice, h])

/-- The installed store holds the copied heads, the cursor, the chain and nothing else. -/
theorem install_ok {chain : Membership.Chain} {heads : List Envelope} {cursor : ℕ} {st : Store}
    (h : install C chain heads cursor = .ok st) :
    (∀ id e, st.head id = some e → e ∈ heads ∧ e.context.recordID = id) ∧
    (∀ e ∈ heads, st.head e.context.recordID = some e) ∧
    st.outbox = [] ∧ st.cursor = some cursor ∧ st.membership = chain.events ∧
    st.devices = (chain.devices.foldl (fun st d => st.putDevice (deviceRow d)) Store.empty).devices ∧
    st.history = none ∧ st.revokedAt = ∅ := by
  simp only [install, Except.bind_eq_ok, Except.pure_eq_ok, Except.ok.injEq] at h
  obtain ⟨st₁, h₁, st₂, h₂, rfl⟩ := h
  have hst₁ := Sync.putMembershipEvents_ok h₁
  subst hst₁
  obtain ⟨-, hcases, hall, hout, -, hsame⟩ := installHeads_ok h₂
  have hdev := devices_foldl_putDevice chain.devices
    (show ({ Store.empty with membership := chain.events } : Store).devices = Store.empty.devices
      from rfl)
  obtain ⟨table, htable⟩ := foldl_putDevice chain.devices
    { Store.empty with membership := chain.events }
  rw [htable] at hcases hout hsame hdev
  refine ⟨fun id e he => ?_, hall, hout, rfl, hsame.membership, hsame.devices.trans hdev,
    hsame.history, hsame.revokedAt⟩
  rcases hcases id with heq | ⟨e', he', hid, heq⟩
  · rw [show st₂.head id = some e from he] at heq
    cases heq
  · rw [show st₂.head id = some e from he] at heq
    cases heq
    exact ⟨he', hid⟩

end Sshstate.Vault
