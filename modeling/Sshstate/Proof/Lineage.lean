/-
  Which versions of a record can become its head.

  A version that was the head and was replaced is in the log, and the log holds no
  envelope twice (`Once`).  That is so because a submission cannot repeat an entry
  (its mutation is recorded) and an import does not either, provided that it does
  not claim the relay's head as an ancestor of a version that the relay had before
  (`KeepsLineage`).  So in the runs whose imports meet this condition a record is
  never rolled back (`replaced_stays`); without it, it can be (`rolled_back`),
  because `importOne` asks for the claimed ancestors before it asks for its own.
-/
import Sshstate.Lib.Run
import Sshstate.Proof.Mutations

namespace Sshstate.Relay.Store

variable {C : Suite}

/-! ## The rows of one record -/

/-- The rows of a record are the same in two stores. -/
structure SameRecord (id : ID) (st st' : Store) : Prop where
  head : st'.heads.lookup id = st.heads.lookup id
  log : KeyedLog.ofKey LogRow.recordID id st'.log = KeyedLog.ofKey LogRow.recordID id st.log
  ancestors : ∀ d, (id, d) ∈ st'.ancestors ↔ (id, d) ∈ st.ancestors

theorem SameRecord.refl (id : ID) (st : Store) : SameRecord id st st :=
  ⟨rfl, rfl, fun _ => Iff.rfl⟩

theorem SameRecord.trans {id : ID} {st st' st'' : Store} (h : SameRecord id st st')
    (h' : SameRecord id st' st'') : SameRecord id st st'' :=
  ⟨h'.head.trans h.head, h'.log.trans h.log, fun d => (h'.ancestors d).trans (h.ancestors d)⟩

theorem SameRecord.mem_log {id : ID} {st st' : Store} (h : SameRecord id st st') {e : LogRow}
    (he : e.recordID = id) : e ∈ st'.log ↔ e ∈ st.log := by
  have h' : e ∈ KeyedLog.ofKey LogRow.recordID id st'.log ↔
      e ∈ KeyedLog.ofKey LogRow.recordID id st.log := by rw [h.log]
  simpa [KeyedLog.mem_ofKey, he] using h'

theorem sameRecord_rememberAncestors {st : Store} {id id' : ID} (ds : List Bytes) (hid : id ≠ id') :
    SameRecord id st (st.rememberAncestors id' ds) :=
  ⟨rfl, rfl, fun d => by simp [mem_rememberAncestors, hid]⟩

/-- An item touches only the rows of its record. -/
theorem importOne_frame {st st' : Store} {chain : Membership.Chain} {v : ID} {epoch : ℕ}
    {item : ImportRecord} {now : String} {o : ImportOutcome}
    (h : st.importOne C chain v epoch item now = .ok (o, st')) {id : ID}
    (hid : id ≠ item.envelope.context.recordID) : SameRecord id st st' := by
  obtain ⟨hv, -, ⟨-, -, -, rfl⟩ | ⟨head, -, ⟨-, -, rfl⟩ | ⟨-, -, ⟨-, -, rfl⟩ | ⟨-, -, rfl⟩⟩⟩⟩ :=
    importOne_cases h
  · have ha : Appends C st (st.afterImport C item now) item.envelope := appends_afterImport hv now
    refine ⟨?_, ?_, fun d => ?_⟩
    · rw [ha.heads, AList.lookup_insert_ne hid]
    · rw [ha.log, KeyedLog.ofKey_concat, if_neg fun he => hid he.symm]
    · simp [afterImport, mem_rememberAncestors, insertVersion, hid]
  · exact sameRecord_rememberAncestors _ hid
  · exact .refl id _
  · exact .refl id _

/-- The loop of `ImportRecords` leaves the records alone whose turn has not come. -/
theorem importItems_frame {chain : Membership.Chain} {v : ID} {epoch : ℕ} {now : String}
    {items : List ImportRecord} {acc acc' : List ImportOutcome × Store}
    (h : items.foldlM (importItem C chain v epoch now) acc = .ok acc') :
    acc.1 ⊆ acc'.1 ∧ ∀ id, (id ∈ acc.1.map (·.recordID) ∨ id ∉ acc'.1.map (·.recordID)) →
      SameRecord id acc.2 acc'.2 := by
  induction items generalizing acc with
  | nil => cases h; exact ⟨fun _ ho => ho, fun id _ => .refl id _⟩
  | cons item items ih =>
    rw [List.foldlM_cons, Except.bind_eq_ok] at h
    obtain ⟨acc₁, h₁, h⟩ := h
    obtain ⟨hnew, o, hone, hacc⟩ := importItem_eq_ok h₁
    obtain ⟨hsub, hsame⟩ := ih h
    have hid := (importOne_cases hone).2.1
    rw [hacc] at hsub hsame
    refine ⟨fun x hx => hsub (List.mem_append_left _ hx), fun id hcase => ?_⟩
    have hne : id ≠ item.envelope.context.recordID := by
      rintro rfl
      rcases hcase with hcase | hcase
      · exact hnew hcase
      · exact hcase (List.mem_map.2 ⟨o, hsub (by simp), hid⟩)
    refine (importOne_frame hone hne).trans (hsame id (hcase.imp_left fun hmem => ?_))
    rw [List.map_append]
    exact List.mem_append_left _ hmem

/-- The turn of an item in a batch: until then and after it the rows of its record
    stay as they are. -/
theorem importRecords_item {st st' : Store} {v : ID} {req : ImportRequest} {now freshID : String}
    {outs : List ImportOutcome} (h : st.importRecords C v req now freshID = .ok (outs, st'))
    {item : ImportRecord} (hitem : item ∈ req.records) :
    ∃ chain epoch s s' o, s.importOne C chain v epoch item now = .ok (o, s') ∧ o ∈ outs ∧
      SameRecord item.envelope.context.recordID st s ∧
      SameRecord item.envelope.context.recordID s' st' := by
  obtain ⟨chain, row, st'', -, -, hfold, hst⟩ := importRecords_eq_ok h
  have hlast : SameRecord item.envelope.context.recordID st'' st' := by
    rcases hst with ⟨-, -, rfl⟩ | ⟨-, rfl⟩
    · exact ⟨rfl, rfl, fun _ => Iff.rfl⟩
    · exact .refl _ _
  obtain ⟨l₁, l₂, hl⟩ := List.append_of_mem hitem
  rw [hl, List.foldlM_append, Except.bind_eq_ok] at hfold
  obtain ⟨acc₁, h₁, hfold⟩ := hfold
  rw [List.foldlM_cons, Except.bind_eq_ok] at hfold
  obtain ⟨acc₂, h₂, h₃⟩ := hfold
  obtain ⟨hnew, o, hone, hacc⟩ := importItem_eq_ok h₂
  obtain ⟨-, hsame₁⟩ := importItems_frame h₁
  obtain ⟨hsub, hsame₃⟩ := importItems_frame h₃
  have ho : o ∈ acc₂.1 := by rw [hacc]; simp
  have hid : item.envelope.context.recordID ∈ acc₂.1.map (·.recordID) :=
    List.mem_map.2 ⟨o, ho, (importOne_cases hone).2.1⟩
  exact ⟨chain, row.keyEpoch, acc₁.2, acc₂.2, o, hone, hsub ho, hsame₁ _ (Or.inr hnew),
    (hsame₃ _ (Or.inl hid)).trans hlast⟩

/-! ## No envelope twice -/

/-- A condition on the items of an import, in the store before the call. -/
def EachItem (ok : Store → ImportRecord → Prop) (st : Store) : Call → Prop
  | .put .. => True
  | .importBatch _ req _ _ => ∀ item ∈ req.records, ok st item

theorem head_of_same {st st' : Store} {id : ID} (h : SameRecord id st st') :
    st'.head id = st.head id := by
  rw [Store.head, Store.head, h.head]

/-- The rule for calls whose items meet a condition on the rows of their records. -/
theorem call_induct_items {P : Store → Prop} {ok : Store → ImportRecord → Prop}
    (hput : ∀ {st st' v env now out}, st.putRecord C v env now = .ok (out, st') → P st → P st')
    (hitem : ∀ {st st' chain v epoch item now o}, st.importOne C chain v epoch item now = .ok (o, st') →
      ok st item → P st → P st')
    (hhistory : ∀ {st} history origin, P st →
      P { st with history := history, historyOrigin := origin })
    (hlocal : ∀ {st st' item}, SameRecord item.envelope.context.recordID st st' → ok st item →
      ok st' item)
    {st : Store} {c : Call} (h : P st) (hok : EachItem ok st c) : P (st.call C c) := by
  cases c with
  | put v env now =>
    simp only [Store.call]
    rcases hp : st.putRecord C v env now with _ | ⟨out, st'⟩
    · exact h
    · exact hput hp h
  | importBatch v req now freshID =>
    simp only [Store.call]
    rcases hi : st.importRecords C v req now freshID with _ | ⟨outs, st'⟩
    · exact h
    · obtain ⟨chain, row, st'', -, -, hfold, hst⟩ := importRecords_eq_ok hi
      -- until its turn comes, the rows of an item's record are those before the call
      have hinv := Except.foldlM_induct (P := fun acc : List ImportOutcome × Store =>
        P acc.2 ∧ ∀ id ∉ acc.1.map (·.recordID), SameRecord id st acc.2) hfold
        ⟨h, fun id _ => .refl id st⟩ ?_
      · rcases hst with ⟨-, -, rfl⟩ | ⟨-, rfl⟩
        · exact hhistory _ _ hinv.1
        · exact hinv.1
      · rintro item hmem ⟨os, s⟩ ⟨os', s'⟩ hx ⟨hs, hsame⟩
        obtain ⟨hnew, o, hone, hos⟩ := importItem_eq_ok hx
        refine ⟨hitem hone (hlocal (hsame _ hnew) (hok item hmem)) hs, fun id hid => ?_⟩
        obtain rfl : os' = os ++ [o] := hos
        simp only [List.map_append, List.map_cons, List.map_nil, List.mem_append,
          List.mem_singleton, not_or] at hid
        exact (hsame id hid.1).trans (importOne_frame hone ((importOne_cases hone).2.1 ▸ hid.2))

variable (C) in
/-- The item does not claim the relay's head as an ancestor of another version that
    the relay has in its log. -/
def ClaimsNoOlder (st : Store) (item : ImportRecord) : Prop :=
  ∀ head, st.head item.envelope.context.recordID = some head →
    head.digest C ≠ item.envelope.digest C →
    (∃ e ∈ st.log, e.recordID = item.envelope.context.recordID ∧
      e.envelope.digest C = item.envelope.digest C) →
    item.claimsAncestor (head.digest C) = false

variable (C) in
def KeepsLineage : Store → Call → Prop := EachItem (ClaimsNoOlder C)

variable (C) in
/-- Consistent tables with a row for every mutation in the log, which holds no
    envelope twice. -/
structure Once (st : Store) : Prop extends Consistent C st where
  recorded : ∀ e ∈ st.log, ∃ row, st.mutations.lookup e.envelope.context.mutationID = some row
  once : (st.log.map fun e => e.envelope.strip).Nodup

theorem Once.eq_of_strip {st : Store} (h : Once C st) {e e' : LogRow} (he : e ∈ st.log)
    (he' : e' ∈ st.log) (hs : e.envelope.strip = e'.envelope.strip) : e = e' :=
  List.inj_on_of_nodup_map h.once he he' hs

theorem Once.keep {st st' : Store} (h : Once C st) (hk : Keeps st st') (hg : Grows C st st') :
    Once C st' where
  toConsistent := h.toConsistent.keep hk
  recorded := fun e he => by
    rw [hk.log] at he
    obtain ⟨row, hrow⟩ := h.recorded e he
    exact ⟨row, hg.mutations _ row hrow⟩
  once := by rw [hk.log]; exact h.once

theorem Once.append {st st' : Store} {env : Envelope} (h : Once C st) (ha : Appends C st st' env)
    (hg : Grows C st st') (hrow : ∃ row, st'.mutations.lookup env.context.mutationID = some row)
    (hnew : ∀ e ∈ st.log, e.envelope.strip ≠ env.strip) : Once C st' where
  toConsistent := h.toConsistent.append ha
  recorded := fun e he => by
    rw [ha.log] at he
    rcases List.mem_append.1 he with he | he
    · obtain ⟨row, hr⟩ := h.recorded e he
      exact ⟨row, hg.mutations _ row hr⟩
    · rw [List.mem_singleton.1 he]; exact hrow
  once := by
    rw [ha.log, List.map_append, List.nodup_append]
    refine ⟨h.once, List.nodup_singleton _, fun x hx y hy hxy => ?_⟩
    obtain ⟨e, he, rfl⟩ := List.mem_map.1 hx
    obtain rfl := List.mem_singleton.1 hy
    exact hnew e he hxy

theorem Once.put {st st' : Store} {v : ID} {env : Envelope} {now : String} {out : PutOutcome}
    (h : Once C st) (hp : st.putRecord C v env now = .ok (out, st')) : Once C st' := by
  have hg := grows_putRecord hp
  obtain ⟨row, hrow, -⟩ := exists_recorded hp
  obtain ⟨hsub, ⟨-, -, -, -, rfl⟩ | ⟨-, -, -, rfl⟩ | ⟨hnone, -, -, -, -, rfl⟩⟩ := putRecord_cases hp
  · exact h
  · exact h.keep (keeps_afterReject ..) hg
  · refine h.append (appends_afterAccept hsub.valid now) hg ⟨row, hrow⟩ fun e he hs => ?_
    -- an entry with this envelope would have recorded its mutation
    obtain ⟨row', hrow'⟩ := h.recorded e he
    rw [Envelope.context_of_strip hs, hnone] at hrow'; cases hrow'

theorem exists_row_afterImport (st : Store) (item : ImportRecord) (now : String) :
    ∃ row, (st.afterImport C item now).mutations.lookup item.envelope.context.mutationID =
      some row := by
  simp only [afterImport]
  split_ifs with hmem
  · exact Option.isSome_iff_exists.1 (AList.lookup_isSome.2 hmem)
  · exact ⟨_, AList.lookup_insert _⟩

/-- An item that is imported is new to the log, if it does not claim the head for a
    version that the relay has. -/
theorem Once.item {st st' : Store} {chain : Membership.Chain} {v : ID} {epoch : ℕ}
    {item : ImportRecord} {now : String} {o : ImportOutcome} (h : Once C st)
    (hone : st.importOne C chain v epoch item now = .ok (o, st')) (hok : ClaimsNoOlder C st item) :
    Once C st' := by
  have hg := grows_write (.item hone)
  obtain ⟨hv, -, ⟨-, -, hclaim, rfl⟩ | ⟨head, -, ⟨-, -, rfl⟩ | ⟨-, -, ⟨-, -, rfl⟩ | ⟨-, -, rfl⟩⟩⟩⟩ :=
    importOne_cases hone
  · refine h.append (appends_afterImport hv now) hg (exists_row_afterImport st item now)
      fun e he hs => ?_
    have hid : e.recordID = item.envelope.context.recordID := by
      rw [h.filed e he, Envelope.context_of_strip hs]
    -- the record has an entry, hence a head
    obtain ⟨b, hb⟩ := KeyedLog.exists_last? LogRow.recordID he
    have hhead : st.head item.envelope.context.recordID = some (decodeEnvelope b.envelope b.seq) := by
      rw [h.head_eq, ← hid, hb]; rfl
    obtain ⟨hne, hc⟩ := hclaim _ hhead
    have := hok _ hhead hne ⟨e, he, hid, Envelope.digest_of_strip C hs⟩
    rw [hc] at this; cases this
  · exact h.keep (keeps_rememberAncestors ..) hg
  · exact h
  · exact h

theorem ClaimsNoOlder.of_same {st st' : Store} {item : ImportRecord}
    (h : SameRecord item.envelope.context.recordID st st') (hok : ClaimsNoOlder C st item) :
    ClaimsNoOlder C st' item := by
  rintro head hhead hne ⟨e, he, hid, hd⟩
  rw [head_of_same h] at hhead
  exact hok head hhead hne ⟨e, (h.mem_log hid).1 he, hid, hd⟩

theorem Once.call {st : Store} {c : Call} (h : Once C st) (hok : KeepsLineage C st c) :
    Once C (st.call C c) :=
  call_induct_items (fun hp hs => hs.put hp) (fun hone hok hs => hs.item hone hok)
    (fun _ _ hs => hs.keep ⟨rfl, rfl, fun _ hx => hx⟩ (.of_eq rfl rfl fun _ _ hm => hm))
    ClaimsNoOlder.of_same h hok

theorem Once.created (g : Genesis) (events : List SignedMembershipEvent) (history origin : String) :
    Once C (Store.created g events history origin) :=
  { Consistent.created g events history origin with
    recorded := by simp [Store.created], once := by simp [Store.created] }

/-! ## Runs -/

variable (C) in
/-- A call as a step of a run. -/
def callStep (st : Store) (c : Call) : Option Store := some (st.call C c)

theorem once_of_reach {st st' : Store} (h : Run.Reach (callStep C) (KeepsLineage C) st st')
    (hst : Once C st) : Once C st' :=
  h.invariant hst fun s c s' hs hok hstep => by cases hstep; exact hs.call hok

theorem log_prefix_write {st st' : Store} (h : Write C st st') : st.log <+: st'.log := by
  cases h with
  | put h =>
    rcases putRecord_tables h with hk | ha
    · exact hk.log ▸ List.prefix_refl _
    · rw [ha.log]; exact List.prefix_append ..
  | item h =>
    rcases importOne_tables h with hk | ha
    · exact hk.log ▸ List.prefix_refl _
    · rw [ha.log]; exact List.prefix_append ..
  | history => exact List.prefix_refl _

theorem log_prefix_of_reach {ok : Store → Call → Prop} {st st' : Store}
    (h : Run.Reach (callStep C) ok st st') : st.log <+: st'.log :=
  h.invariant (P := fun s => st.log <+: s.log) (List.prefix_refl _) fun s c s' hs _ hstep => by
    cases hstep
    exact call_induct (P := fun s => st.log <+: s.log)
      (fun _ _ hw hp => hp.trans (log_prefix_write hw)) hs c

/-- The entry of a head. -/
theorem Consistent.entry_of_head {st : Store} (h : Consistent C st) {id : ID} {u : Envelope}
    (hu : st.head id = some u) : ∃ e, KeyedLog.last? LogRow.recordID id st.log = some e ∧
      e ∈ st.log ∧ e.recordID = id ∧ e.envelope.strip = u.strip := by
  rw [h.head_eq, Option.map_eq_some_iff] at hu
  obtain ⟨e, he, rfl⟩ := hu
  obtain ⟨hmem, hid⟩ := KeyedLog.mem_of_last? he
  exact ⟨e, he, hmem, hid, rfl⟩

/-- An entry that is not the newest of its record never becomes the newest. -/
theorem last?_of_replaced {l l' : List LogRow} (hpre : l <+: l')
    (hnodup : (l'.map fun e => e.envelope.strip).Nodup) {id : ID} {e e' : LogRow} (he : e ∈ l)
    (hlast : KeyedLog.last? LogRow.recordID id l = some e') (hne : e ≠ e') :
    KeyedLog.last? LogRow.recordID id l' ≠ some e := by
  obtain ⟨more, rfl⟩ := hpre
  rw [KeyedLog.last?_append]
  intro h
  rcases hm : KeyedLog.last? LogRow.recordID id more with _ | b
  · rw [hm, hlast] at h
    exact hne (Option.some.inj h).symm
  · rw [hm] at h
    obtain rfl : b = e := Option.some.inj h
    rw [List.map_append, List.nodup_append] at hnodup
    exact hnodup.2.2 _ (List.mem_map_of_mem he) _
      (List.mem_map_of_mem (KeyedLog.mem_of_last? hm).1) rfl

/-- **Main result.**  In every run of submissions and imports that meet
    `KeepsLineage`, a version `v` that was the head of a record in `s₀` and was
    replaced in `s₁` is not its head in any later `s₂`.  An import of `v` there is
    answered `behind` and leaves the rows of the record and the outcome of the
    mutation as they are, unless two entries of the log collide under SHA-256. -/
theorem replaced_stays (C : Suite) {g : Genesis} {events : List SignedMembershipEvent}
    {history origin : String} {s₀ s₁ s₂ : Store} {id : ID} {u₀ u₁ : Envelope}
    (h₀ : Run.Reach (callStep C) (KeepsLineage C) (Store.created g events history origin) s₀)
    (h₁ : Run.Reach (callStep C) (KeepsLineage C) s₀ s₁)
    (h₂ : Run.Reach (callStep C) (KeepsLineage C) s₁ s₂)
    (hhead₀ : s₀.head id = some u₀) (hhead₁ : s₁.head id = some u₁) (hne : u₁.strip ≠ u₀.strip) :
    (∀ u, s₂.head id = some u → u.strip ≠ u₀.strip) ∧
    ((∀ a ∈ s₂.log, ∀ b ∈ s₂.log, a.envelope.digest C = b.envelope.digest C →
        a.envelope.strip = b.envelope.strip) →
      ∀ {v req now freshID outs s₃}, KeepsLineage C s₂ (.importBatch v req now freshID) →
        s₂.importRecords C v req now freshID = .ok (outs, s₃) →
        ∀ item ∈ req.records, item.envelope.strip = u₀.strip →
          (∃ o ∈ outs, o.recordID = id ∧ o.outcome = .behind) ∧ SameRecord id s₂ s₃ ∧
          s₃.mutations.lookup u₀.context.mutationID = s₂.mutations.lookup u₀.context.mutationID) := by
  have honce₀ := once_of_reach h₀ (Once.created g events history origin)
  have honce₁ := once_of_reach h₁ honce₀
  have honce₂ := once_of_reach h₂ honce₁
  have hpre₁ := log_prefix_of_reach h₁
  have hpre₂ := log_prefix_of_reach h₂
  obtain ⟨e₀, -, hmem₀, hid₀, hstrip₀⟩ := honce₀.entry_of_head hhead₀
  obtain ⟨e₁, hlast₁, -, -, hstrip₁⟩ := honce₁.entry_of_head hhead₁
  have he₁ : e₀ ∈ s₁.log := hpre₁.subset hmem₀
  have he₂ : e₀ ∈ s₂.log := hpre₂.subset he₁
  have hne₁ : e₀ ≠ e₁ := fun he => hne (by rw [← hstrip₁, ← hstrip₀, he])
  have hnever : ∀ u, s₂.head id = some u → u.strip ≠ u₀.strip := by
    intro u hu hs
    obtain ⟨e₂, hlast₂, hmem₂, -, hstrip₂⟩ := honce₂.entry_of_head hu
    obtain rfl : e₂ = e₀ := honce₂.eq_of_strip hmem₂ he₂ (by rw [hstrip₂, hs, hstrip₀])
    exact last?_of_replaced hpre₂ honce₂.once he₁ hlast₁ hne₁ hlast₂
  refine ⟨hnever, fun hfree v req now freshID outs s₃ hok himp item hitem hs => ?_⟩
  obtain ⟨chain, epoch, s, s', o, hone, ho, hbefore, hafter⟩ := importRecords_item himp hitem
  have hid : item.envelope.context.recordID = id := by
    rw [Envelope.context_of_strip (hs.trans hstrip₀.symm), ← honce₀.filed e₀ hmem₀, hid₀]
  have hdig : e₀.envelope.digest C = item.envelope.digest C :=
    Envelope.digest_of_strip C (hstrip₀.trans hs.symm)
  rw [hid] at hbefore hafter
  have hrow : s₃.mutations.lookup u₀.context.mutationID =
      s₂.mutations.lookup u₀.context.mutationID := by
    obtain ⟨row, hrow⟩ := honce₂.recorded e₀ he₂
    rw [Envelope.context_of_strip hstrip₀] at hrow
    have hg := grows_operate (C := C) s₂ (.record (.importBatch v req now freshID))
    simp only [Store.operate, Store.call, himp] at hg
    rw [hrow, hg.mutations _ row hrow]
  -- the record has a head, and it is another version
  obtain ⟨b, hb⟩ := KeyedLog.exists_last? LogRow.recordID he₂
  rw [hid₀] at hb
  have hhead₂ : s₂.head id = some (decodeEnvelope b.envelope b.seq) := by rw [honce₂.head_eq, hb]; rfl
  have hother : b.envelope.digest C ≠ e₀.envelope.digest C := fun hd =>
    hnever _ hhead₂ ((hfree b (KeyedLog.mem_of_last? hb).1 e₀ he₂ hd).trans hstrip₀)
  have hheads : s.head item.envelope.context.recordID = some (decodeEnvelope b.envelope b.seq) := by
    rw [hid, head_of_same hbefore, hhead₂]
  obtain ⟨-, hoid, ⟨-, -, hclaim, -⟩ | ⟨head, hhead, ⟨-, hcur, -⟩ | ⟨-, -, ⟨hout, -, rfl⟩ | ⟨-, hnot, -⟩⟩⟩⟩ :=
    importOne_cases hone
  · obtain ⟨hd, hc⟩ := hclaim _ hheads
    have := hok item hitem _ (hid ▸ hhead₂) hd ⟨e₀, he₂, hid ▸ hid₀, hdig⟩
    rw [hc] at this; cases this
  · obtain rfl := Option.some.inj (hheads.symm.trans hhead)
    exact absurd (hcur.trans hdig.symm) hother
  · exact ⟨⟨o, ho, hoid.trans hid, hout⟩, hbefore.trans hafter, hrow⟩
  · refine absurd ?_ hnot
    rw [hid, hbefore.ancestors, ← hdig, ← hid₀]
    exact (honce₂.ancestors e₀ he₂).1

/-- The relay with the host, with its edit, and after an import of the creation that
    names the edit as an ancestor. -/
def createdHost : Store := sampleRelay.call sample (.put (Sample.id 0x01) hostCreation "t0")
def editedHost : Store := createdHost.call sample (.put (Sample.id 0x01) hostEdit "t0")
def rolledBack : Store := editedHost.call sample (.importBatch (Sample.id 0x01)
  { history := "h",
    records := [{ envelope := hostCreation, ancestors := [hostEdit.digest sample] }] } "t0" "h2")

/-- The creation is the head again after it was replaced. -/
theorem rolled_back :
    (createdHost.head (Sample.id 0x05)).map (·.strip) = some hostCreation.strip ∧
    (editedHost.head (Sample.id 0x05)).map (·.strip) = some hostEdit.strip ∧
    hostEdit.strip ≠ hostCreation.strip ∧
    (rolledBack.head (Sample.id 0x05)).map (·.strip) = some hostCreation.strip := by
  decide

/-- An import of the replaced creation that claims nothing is answered `behind`. -/
theorem replaced_stays_behind :
    ∃ outs st, editedHost.importRecords sample (Sample.id 0x01)
        { history := "h", records := [{ envelope := hostCreation, ancestors := [] }] } "t0" "h2" =
        .ok (outs, st) ∧ ∃ o ∈ outs, o.recordID = Sample.id 0x05 ∧ o.outcome = .behind := by
  have hcreated : Run.Reach (callStep sample) (KeepsLineage sample) sampleRelay createdHost :=
    .tail (l := .put (Sample.id 0x01) hostCreation "t0") .refl trivial rfl
  have hedited : Run.Reach (callStep sample) (KeepsLineage sample) createdHost editedHost :=
    .tail (l := .put (Sample.id 0x01) hostEdit "t0") .refl trivial rfl
  have hhead₀ := (Option.some_get (x := createdHost.head (Sample.id 0x05)) (by decide)).symm
  have hhead₁ := (Option.some_get (x := editedHost.head (Sample.id 0x05)) (by decide)).symm
  have hok : KeepsLineage sample editedHost (.importBatch (Sample.id 0x01)
      { history := "h", records := [{ envelope := hostCreation, ancestors := [] }] } "t0" "h2") := by
    intro item hitem head _ _ _
    rw [List.mem_singleton.1 hitem]
    rw [ImportRecord.claimsAncestor, List.contains_nil, Bool.or_false]
    exact beq_false_of_ne (Envelope.digest_ne_nil sample head).symm
  have himp := Except.eq_ok_get (x := editedHost.importRecords sample (Sample.id 0x01)
    { history := "h", records := [{ envelope := hostCreation, ancestors := [] }] } "t0" "h2")
    (by decide)
  obtain ⟨-, hbehind⟩ := replaced_stays sample hcreated hedited .refl hhead₀ hhead₁
    (by decide)
  obtain ⟨hout, -⟩ := hbehind (by decide) hok himp _ (List.mem_singleton_self _)
    (by decide)
  exact ⟨_, _, himp, hout⟩

end Sshstate.Relay.Store
