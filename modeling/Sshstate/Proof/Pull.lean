/-
  Pulling the log page by page.

  Every page is compared with the store as it is before the page, and applied change
  by change.  If the revisions of every record rise along the log (`Rising`), a change
  that is left to pull is ahead of the stored head and of everything applied before
  it, so that a page applies all its changes (`applyPage_eq_ok`) and the pages, however
  they are cut, apply the rest of the log in its order (`applyPages_eq_ok`).

  Submissions keep the revisions rising, and so do imports of versions above the head
  they replace (`Raises`); for the logs of such runs the result does not depend on the
  cuts (`applyPages_cut`).  An import that puts a record back to a lower revision makes
  a page fail that contains both versions (`cut_matters`).
-/
import Sshstate.Proof.Lineage
import Sshstate.Proof.Onward
import Sshstate.Proof.Paging
import Sshstate.Sync.Page

namespace Sshstate

/-! ## Logs with rising revisions -/

namespace Relay.Store

variable {C : Suite}

variable (C) in
/-- The item is above the head that it would replace. -/
def AboveHead (st : Store) (item : ImportRecord) : Prop :=
  ∀ head, st.head item.envelope.context.recordID = some head →
    head.digest C ≠ item.envelope.digest C → item.claimsAncestor (head.digest C) = true →
    head.context.rev < item.envelope.context.rev

variable (C) in
def Raises : Store → Call → Prop := EachItem (AboveHead C)

/-- Two entries of one record, the second with a higher revision. -/
def Rises (a b : LogRow) : Prop :=
  a.recordID = b.recordID → a.envelope.context.rev < b.envelope.context.rev

variable (C) in
structure Rising (st : Store) : Prop extends Consistent C st where
  rising : st.log.Pairwise Rises
  revs : ∀ e ∈ st.log, e.envelope.context.rev ≤ maxInt64

theorem Rising.keep {st st' : Store} (h : Rising C st) (hk : Keeps st st') : Rising C st' :=
  { h.toConsistent.keep hk with
    rising := by rw [hk.log]; exact h.rising, revs := by rw [hk.log]; exact h.revs }

/-- No entry of a record is above its head. -/
theorem Rising.rev_le {st : Store} (h : Rising C st) {e : LogRow} (he : e ∈ st.log) :
    ∃ head, st.head e.recordID = some head ∧ e.envelope.context.rev ≤ head.context.rev ∧
      head.context.rev ≤ maxInt64 := by
  obtain ⟨b, hb⟩ := KeyedLog.exists_last? LogRow.recordID he
  refine ⟨decodeEnvelope b.envelope b.seq, by rw [h.head_eq, hb]; rfl, ?_,
    h.revs b (KeyedLog.mem_of_last? hb).1⟩
  rcases KeyedLog.rel_last? (R := fun a b => a.envelope.context.rev < b.envelope.context.rev)
    h.rising he hb with rfl | hlt
  · exact le_rfl
  · exact le_of_lt hlt

theorem Rising.append {st st' : Store} {env : Envelope} (h : Rising C st) (ha : Appends C st st' env)
    (hrev : env.context.rev ≤ maxInt64)
    (habove : ∀ head, st.head env.context.recordID = some head →
      head.context.rev ≤ maxInt64 → head.context.rev < env.context.rev) : Rising C st' := by
  refine { h.toConsistent.append ha with rising := ?_, revs := ?_ }
  · rw [ha.log, List.pairwise_append]
    refine ⟨h.rising, List.pairwise_singleton _ _, fun a hmem b hb hid => ?_⟩
    obtain rfl := List.mem_singleton.1 hb
    obtain ⟨head, hhead, hle, hmax⟩ := h.rev_le hmem
    rw [hid] at hhead
    exact lt_of_le_of_lt hle (habove head hhead hmax)
  · rw [ha.log]
    intro e he
    rcases List.mem_append.1 he with he | he
    · exact h.revs e he
    · rw [List.mem_singleton.1 he]; exact hrev

theorem Rising.put {st st' : Store} {v : ID} {env : Envelope} {now : String} {out : PutOutcome}
    (h : Rising C st) (hp : st.putRecord C v env now = .ok (out, st')) : Rising C st' := by
  obtain ⟨hsub, ⟨-, -, -, -, rfl⟩ | ⟨-, -, -, rfl⟩ | ⟨-, hf, -, hrev, -, rfl⟩⟩ := putRecord_cases hp
  · exact h
  · exact h.keep (keeps_afterReject ..)
  · refine h.append (appends_afterAccept hsub.valid now) hrev fun head hhead hmax => ?_
    rw [hhead] at hf
    rw [hf.1, counterSucc_eq hmax]
    exact Nat.lt_succ_self _

theorem Rising.item {st st' : Store} {chain : Membership.Chain} {v : ID} {epoch : ℕ}
    {item : ImportRecord} {now : String} {o : ImportOutcome} (h : Rising C st)
    (hone : st.importOne C chain v epoch item now = .ok (o, st')) (hok : AboveHead C st item) :
    Rising C st' := by
  obtain ⟨hv, -, ⟨-, hrev, hclaim, rfl⟩ | ⟨head, -, ⟨-, -, rfl⟩ | ⟨-, -, ⟨-, -, rfl⟩ | ⟨-, -, rfl⟩⟩⟩⟩ :=
    importOne_cases hone
  · refine h.append (appends_afterImport hv now) hrev fun head hhead _ => ?_
    obtain ⟨hne, hc⟩ := hclaim head hhead
    exact hok head hhead hne hc
  · exact h.keep (keeps_rememberAncestors ..)
  · exact h
  · exact h

theorem Rising.call {st : Store} {c : Call} (h : Rising C st) (hok : Raises C st c) :
    Rising C (st.call C c) :=
  call_induct_items (fun hp hs => hs.put hp) (fun hone hok hs => hs.item hone hok)
    (fun _ _ hs => hs.keep ⟨rfl, rfl, fun _ hx => hx⟩)
    (fun h hok head hhead => hok head (head_of_same h ▸ hhead)) h hok

theorem Rising.created (g : Genesis) (events : List SignedMembershipEvent)
    (history origin : String) : Rising C (Store.created g events history origin) :=
  { Consistent.created g events history origin with
    rising := by simp [Store.created], revs := by simp [Store.created] }

end Relay.Store

/-! ## Pages -/

namespace Sync

open Vault (Store)

variable {C : Suite} {g : Genesis} {chain : Membership.Chain}

/-- The change is ahead of the stored head. -/
def Newer (st : Store) (e : Envelope) : Prop :=
  ∀ h, st.head e.context.recordID = some h → h.context.rev < e.context.rev

/-- The changes are ahead of the store and of each other. -/
structure Fresh (st : Store) (envs : List Envelope) : Prop where
  newer : ∀ e ∈ envs, Newer st e
  rising : envs.Pairwise fun a b =>
    a.context.recordID = b.context.recordID → a.context.rev < b.context.rev

theorem ahead_eq_true {st : Store} {e : Envelope} (h : Newer st e) : ahead C st e = .ok true := by
  unfold ahead
  rcases hh : st.head e.context.recordID with _ | x
  · rfl
  · simp only [if_pos (h x hh)]

theorem selectChanges_eq_ok {st : Store} {r : List Envelope} : ∀ {todo envs : List Envelope},
    (∀ e ∈ todo, Newer st e) → (selectChanges C g chain st todo envs = .ok r ↔
      (∀ e ∈ todo, verify C g st chain e = .ok ()) ∧ r = envs ++ todo)
  | [], envs, _ => by simp [selectChanges, eq_comm]
  | e :: todo, envs, h => by
    have hrest : selectChanges C g chain st todo (envs ++ [e]) = .ok r ↔ _ :=
      selectChanges_eq_ok fun x hx => h x (List.mem_cons_of_mem e hx)
    have ha : ahead C st e = .ok true := ahead_eq_true (h e (by simp))
    simp only [selectChanges, Except.bind_eq_ok, Except.mapError_eq_ok, ha, Except.ok.injEq,
      exists_eq_left', if_true, hrest, List.forall_mem_cons, List.append_assoc,
      List.singleton_append]
    constructor
    · rintro ⟨_, hv, hall, rfl⟩; exact ⟨⟨hv, hall⟩, rfl⟩
    · rintro ⟨⟨hv, hall⟩, rfl⟩; exact ⟨(), hv, hall, rfl⟩

theorem applyPage_eq_ok {st st' : Store} {page : Cut} (h : ∀ e ∈ page.changes, Newer st e) :
    applyPage C g chain st page = .ok st' ↔
      (∀ e ∈ page.changes, verify C g st chain e = .ok ()) ∧
      ∃ s, page.changes.foldlM (fun st env => st.applyRemote C env) st = .ok s ∧
        st' = { s with cursor := some page.nextCursor } := by
  simp only [applyPage, Except.bind_eq_ok, selectChanges_eq_ok h, List.nil_append,
    Store.applyRemoteBatch, Except.pure_eq_ok, Except.ok.injEq]
  constructor
  · rintro ⟨_, ⟨hv, rfl⟩, s, hs, rfl⟩; exact ⟨hv, s, hs, rfl⟩
  · rintro ⟨hv, s, hs, rfl⟩; exact ⟨_, ⟨hv, rfl⟩, s, hs, rfl⟩

/-- A step of a Sync on its store. -/
def workStep (C : Suite) (e : Engine) (s : Store × Phase) (draw : Draw) : Option (Store × Phase) :=
  work C e draw s.1 s.2

/-- A Sync that nothing disturbs comes from the first change of a page to the
    transaction with the selected ones, or fails. -/
theorem reach_select (e : Engine) (draw : Draw) (st : Store) (l : Locals) (page : RecordsResponse) :
    ∀ todo envs : List Envelope, Run.Reach (workStep C e) (fun _ _ => True)
      (st, nextChange l page envs todo)
      (st, match selectChanges C e.manager.genesis l.chain st todo envs with
        | .ok envs => .applyPage l page envs
        | .error err => .failed err)
  | [], envs => .refl
  | env :: todo, envs => by
    rcases hv : verify C e.manager.genesis st l.chain env with err | u
    · have hstep : workStep C e (st, nextChange l page envs (env :: todo)) draw =
          some (st, .failed (changeError env err)) := by simp [workStep, nextChange, work, hv]
      simpa [selectChanges, hv, Except.mapError] using Run.Reach.tail .refl trivial hstep
    have hverified : workStep C e (st, nextChange l page envs (env :: todo)) draw =
        some (st, .compareHead l page env todo envs) := by simp [workStep, nextChange, work, hv]
    rcases ha : ahead C st env with err | a
    · have hstep : workStep C e (st, .compareHead l page env todo envs) draw =
          some (st, .failed (changeError env err)) := by simp [workStep, work, ha]
      simpa [selectChanges, hv, ha, Except.mapError] using
        Run.Reach.tail (.tail .refl trivial hverified) trivial hstep
    have hcompared : workStep C e (st, .compareHead l page env todo envs) draw =
        some (st, nextChange l page (if a then envs ++ [env] else envs) todo) := by
      simp [workStep, work, ha]
    have hrest := reach_select e draw st l page todo (if a then envs ++ [env] else envs)
    simpa [selectChanges, hv, ha, Except.mapError] using
      (Run.Reach.tail (.tail .refl trivial hverified) trivial hcompared).trans hrest

/-- `applyPage` is what the phases of a page do. -/
theorem reach_applyPage (e : Engine) (draw : Draw) (st : Store) (l : Locals)
    (page : RecordsResponse) :
    ∃ n, Run.Reach (workStep C e) (fun _ _ => True) (st, nextChange l page [] page.changes)
      (match applyPage C e.manager.genesis l.chain st
          { changes := page.changes, nextCursor := page.nextCursor } with
        | .ok st' => (st', afterPage (l.countApplied n) page)
        | .error err => (st, .failed err)) := by
  have hselect := reach_select (C := C) e draw st l page page.changes []
  rcases hs : selectChanges C e.manager.genesis l.chain st page.changes [] with err | envs
  · rw [hs] at hselect
    exact ⟨0, by simpa [applyPage, hs] using hselect⟩
  · rw [hs] at hselect
    refine ⟨envs.length, hselect.trans (.tail .refl trivial (l := draw) ?_)⟩
    rcases hb : st.applyRemoteBatch C page.nextCursor envs with err | st' <;>
      simp [workStep, work, applyPage, hs, hb, commit]

/-- `verify` reads the noted revocations only. -/
theorem verify_congr {st st' : Store} (h : st'.revokedAt = st.revokedAt) (e : Envelope) :
    verify C g st' chain e = verify C g st chain e := by
  simp only [verify, checkRevokedWriter, h]

/-- The cursor plays no part in writing a head. -/
theorem putRecord_cursor {st s : Store} {c : Option ℕ} {e : Envelope} :
    Store.putRecord C { st with cursor := c } e = .ok s ↔
      ∃ s₀, st.putRecord C e = .ok s₀ ∧ s = { s₀ with cursor := c } := by
  simp only [Store.putRecord_ok]
  constructor
  · rintro ⟨hv, ⟨x, hh, h1, h2, rfl⟩ | ⟨hh, h1, rfl⟩ | ⟨x, hh, h0, h1, h2, rfl⟩⟩
    · exact ⟨st, ⟨hv, Or.inl ⟨x, hh, h1, h2, rfl⟩⟩, rfl⟩
    · exact ⟨_, ⟨hv, Or.inr (Or.inl ⟨hh, h1, rfl⟩)⟩, rfl⟩
    · exact ⟨_, ⟨hv, Or.inr (Or.inr ⟨x, hh, h0, h1, h2, rfl⟩)⟩, rfl⟩
  · rintro ⟨_, ⟨hv, ⟨x, hh, h1, h2, rfl⟩ | ⟨hh, h1, rfl⟩ | ⟨x, hh, h0, h1, h2, rfl⟩⟩, rfl⟩
    · exact ⟨hv, Or.inl ⟨x, hh, h1, h2, rfl⟩⟩
    · exact ⟨hv, Or.inr (Or.inl ⟨hh, h1, rfl⟩)⟩
    · exact ⟨hv, Or.inr (Or.inr ⟨x, hh, h0, h1, h2, rfl⟩)⟩

theorem applyRemote_cursor {st s : Store} {c : Option ℕ} {e : Envelope} :
    Store.applyRemote C { st with cursor := c } e = .ok s ↔
      ∃ s₀, st.applyRemote C e = .ok s₀ ∧ s = { s₀ with cursor := c } := by
  have hreplace : Store.replaceHead C { st with cursor := c } e = .ok s ↔
      ∃ s₀, st.replaceHead C e = .ok s₀ ∧ s = { s₀ with cursor := c } := by
    simp only [Store.replaceHead_ok]
    constructor
    · rintro ⟨hv, rfl⟩; exact ⟨_, ⟨hv, rfl⟩, rfl⟩
    · rintro ⟨_, ⟨hv, rfl⟩, rfl⟩; exact ⟨hv, rfl⟩
  have hhead : Store.head { st with cursor := c } e.context.recordID =
      st.head e.context.recordID := rfl
  simp only [Store.applyRemote, hhead]
  split <;> split_ifs <;> first | exact hreplace | exact putRecord_cursor

theorem foldlM_cursor {st s : Store} {c : Option ℕ} {envs : List Envelope} :
    envs.foldlM (fun st env => st.applyRemote C env) { st with cursor := c } = .ok s ↔
      ∃ s₀, envs.foldlM (fun st env => st.applyRemote C env) st = .ok s₀ ∧
        s = { s₀ with cursor := c } := by
  induction envs generalizing st with
  | nil => simp [eq_comm]
  | cons e envs ih =>
    simp only [List.foldlM_cons, Except.bind_eq_ok, applyRemote_cursor]
    constructor
    · rintro ⟨_, ⟨st₁, h₁, rfl⟩, h⟩
      obtain ⟨s₀, hs₀, rfl⟩ := ih.1 h
      exact ⟨s₀, ⟨st₁, h₁, hs₀⟩, rfl⟩
    · rintro ⟨s₀, ⟨st₁, h₁, hs₀⟩, rfl⟩
      exact ⟨_, ⟨st₁, h₁, rfl⟩, ih.2 ⟨s₀, hs₀, rfl⟩⟩

/-- What is left to pull is still ahead after a page. -/
theorem Fresh.after {st s : Store} {envs rest : List Envelope} (h : Fresh st (envs ++ rest))
    (hs : envs.foldlM (fun st env => st.applyRemote C env) st = .ok s) :
    Fresh s rest ∧ s.revokedAt = st.revokedAt := by
  have hbatch : st.applyRemoteBatch C 0 envs = .ok { s with cursor := some 0 } := by
    rw [Store.applyRemoteBatch, hs]; rfl
  obtain ⟨hi, -, -⟩ := Store.applyRemoteBatch_ok hbatch
  obtain ⟨-, hrest, hcross⟩ := List.pairwise_append.1 h.rising
  refine ⟨⟨fun e he x hx => ?_, hrest⟩, hi.same.revokedAt⟩
  rcases hi.head e.context.recordID with heq | ⟨e', he', hid, -, hnew⟩
  · exact h.newer e (List.mem_append_right _ he) x (heq ▸ hx)
  · obtain rfl : e' = x := Option.some.inj (hnew.symm.trans hx)
    exact hcross e' he' e he hid

/-- The cursor after some pages. -/
def lastCursor (c : Option ℕ) (pages : List Cut) : Option ℕ :=
  (pages.getLast?.map (·.nextCursor)).or c

/-- **Pages**, however they are cut, verify and apply the changes in their order. -/
theorem applyPages_eq_ok {st' : Store} : ∀ {pages : List Cut} (st : Store),
    Fresh st (pages.flatMap (·.changes)) → (applyPages C g chain st pages = .ok st' ↔
      (∀ e ∈ pages.flatMap (·.changes), verify C g st chain e = .ok ()) ∧
      ∃ s, (pages.flatMap (·.changes)).foldlM (fun st env => st.applyRemote C env) st = .ok s ∧
        st' = { s with cursor := lastCursor st.cursor pages })
  | [], st, _ => by simp [applyPages, lastCursor, eq_comm]
  | page :: pages, st, h => by
    rw [List.flatMap_cons] at h
    have hpage : ∀ {st₁}, applyPage C g chain st page = .ok st₁ ↔ _ :=
      applyPage_eq_ok fun e he => h.newer e (List.mem_append_left _ he)
    rw [applyPages, List.foldlM_cons, Except.bind_eq_ok]
    simp only [hpage, List.flatMap_cons, List.forall_mem_append, List.foldlM_append,
      Except.bind_eq_ok]
    constructor
    · rintro ⟨_, ⟨hv, s, hs, rfl⟩, hrest⟩
      obtain ⟨hfresh, hrev⟩ := h.after hs
      obtain ⟨hv', s', hs', rfl⟩ := (applyPages_eq_ok { s with cursor := some page.nextCursor }
        ⟨hfresh.newer, hfresh.rising⟩).1 hrest
      obtain ⟨s₀, hs₀, rfl⟩ := foldlM_cursor.1 hs'
      refine ⟨⟨hv, fun e he => ?_⟩, s₀, ⟨s, hs, hs₀⟩, ?_⟩
      · rw [← hv' e he]; exact (verify_congr hrev e).symm
      · simp only [lastCursor, List.getLast?_cons]
        rcases pages.getLast? with _ | p <;> rfl
    · rintro ⟨⟨hv, hv'⟩, s₀, ⟨s, hs, hs₀⟩, rfl⟩
      obtain ⟨hfresh, hrev⟩ := h.after hs
      refine ⟨_, ⟨hv, s, hs, rfl⟩, (applyPages_eq_ok { s with cursor := some page.nextCursor }
        ⟨hfresh.newer, hfresh.rising⟩).2 ⟨fun e he => ?_, _, foldlM_cursor.2 ⟨s₀, hs₀, rfl⟩, ?_⟩⟩
      · rw [← hv' e he]; exact verify_congr hrev e
      · simp only [lastCursor, List.getLast?_cons]
        rcases pages.getLast? with _ | p <;> rfl

/-! ## The rest of a log -/

/-- The pages are non-empty, end at their cursors and hold the changes in order. -/
structure IsCut (changes : List Envelope) (pages : List Cut) : Prop where
  changes : pages.flatMap (·.changes) = changes
  ends : ∀ p ∈ pages, ∃ e, p.changes.getLast? = some e ∧ p.nextCursor = e.seq

/-- The last cursor of a cut is the number of the last change. -/
theorem IsCut.lastCursor_eq {changes : List Envelope} {pages : List Cut} (h : IsCut changes pages)
    (c : Option ℕ) : lastCursor c pages = (changes.getLast?.map (·.seq)).or c := by
  rcases List.eq_nil_or_concat pages with rfl | ⟨init, p, rfl⟩
  · rw [← h.changes]; rfl
  · obtain ⟨e, he, hcur⟩ := h.ends p (by simp)
    rw [← h.changes, lastCursor, List.concat_eq_append, List.getLast?_append, List.flatMap_append,
      List.getLast?_append]
    simp [he, hcur]

/-- The heads and the cursor of a store come from the first `n` entries of a log. -/
structure FromPrefix (st : Store) (log : List Relay.LogRow) (n : ℕ) : Prop where
  heads : ∀ id, (st.head id).map (·.strip) =
    (KeyedLog.last? Relay.LogRow.recordID id (log.take n)).map (·.envelope.strip)
  cursor : st.cursor.getD 0 = n

theorem FromPrefix.fresh {r : Relay.Store} (hr : r.Rising C) {st : Store} {n : ℕ}
    (h : FromPrefix st r.log n) : Fresh st (r.served n r.log.length) := by
  have hsplit := hr.rising
  rw [← List.take_append_drop n r.log, List.pairwise_append] at hsplit
  obtain ⟨-, hdrop, hcross⟩ := hsplit
  have hserved : r.served n r.log.length = (r.log.drop n).map fun row =>
      Relay.Store.decodeEnvelope row.envelope row.seq := by
    rw [Relay.Store.served, List.take_of_length_le (by rw [List.length_drop])]
  have hfiled : ∀ row ∈ r.log.drop n, row.recordID = row.envelope.context.recordID :=
    fun row hrow => hr.filed row (List.mem_of_mem_drop hrow)
  rw [hserved]
  refine ⟨fun e he x hx => ?_, ?_⟩
  · obtain ⟨row, hrow, rfl⟩ := List.mem_map.1 he
    have hhead := h.heads row.envelope.context.recordID
    have hx' : st.head row.envelope.context.recordID = some x := hx
    rw [hx'] at hhead
    obtain ⟨b, hb, hs⟩ := Option.map_eq_some_iff.1 hhead.symm
    obtain ⟨hmem, hid⟩ := KeyedLog.mem_of_last? hb
    rw [← Envelope.context_of_strip hs]
    exact hcross b hmem row hrow (hid.trans (hfiled row hrow).symm)
  · rw [List.pairwise_map]
    exact hdrop.imp_of_mem fun ha hb hab hid =>
      hab ((hfiled _ ha).trans (hid.trans (hfiled _ hb).symm))

/-- **Main result.**  Take a log that submissions and imports built, where every import
    is above the head it replaces, and a store whose heads and cursor come from its
    first `n` entries.  Any two ways of cutting the rest into non-empty pages either both
    succeed and leave the same store, or both fail. -/
theorem applyPages_cut (C : Suite) {g : Genesis} {events : List SignedMembershipEvent}
    {history origin : String} {r : Relay.Store}
    (hr : Run.Reach (Relay.Store.callStep C) (Relay.Store.Raises C)
      (Relay.Store.created g events history origin) r)
    {st : Store} {n : ℕ} (hst : FromPrefix st r.log n) (vault : Genesis) (chain : Membership.Chain)
    {cut cut' : List Cut} (hcut : IsCut (r.served n r.log.length) cut)
    (hcut' : IsCut (r.served n r.log.length) cut') :
    (∃ st', applyPages C vault chain st cut = .ok st' ∧
        applyPages C vault chain st cut' = .ok st') ∨
    ∃ err err', applyPages C vault chain st cut = .error err ∧
      applyPages C vault chain st cut' = .error err' := by
  have hrising : r.Rising C := hr.invariant (.created g events history origin)
    fun _ _ _ hs hok hstep => by cases hstep; exact hs.call hok
  have hfresh := hst.fresh hrising
  have hiff : ∀ st', applyPages C vault chain st cut = .ok st' ↔
      applyPages C vault chain st cut' = .ok st' := by
    intro st'
    rw [applyPages_eq_ok st (hcut.changes.symm ▸ hfresh),
      applyPages_eq_ok st (hcut'.changes.symm ▸ hfresh), hcut.changes, hcut'.changes, hcut.lastCursor_eq, hcut'.lastCursor_eq]
  rcases h : applyPages C vault chain st cut with err | st'
  · rcases h' : applyPages C vault chain st cut' with err' | st'
    · exact Or.inr ⟨err, err', rfl, rfl⟩
    · rw [(hiff st').2 h'] at h; cases h
  · exact Or.inl ⟨st', rfl, (hiff st').1 h⟩

/-- The log from the position `a` on, cut at the positions `bs`. -/
def cutAt (r : Relay.Store) : (a : ℕ) → (bs : List ℕ) → List Cut
  | _, [] => []
  | a, b :: bs => { changes := r.served a b, nextCursor := b } :: cutAt r b bs

theorem isCut_cutAt {r : Relay.Store} (hr : r.Numbered) : ∀ (bs : List ℕ) (a b : ℕ),
    (a :: bs).IsChain (· < ·) → (a :: bs).getLast? = some b → b ≤ r.log.length →
    a ≤ b ∧ IsCut (r.served a b) (cutAt r a bs)
  | [], a, b, _, hb, _ => by
    obtain rfl : a = b := by simpa using hb
    exact ⟨le_rfl, by simp [cutAt, Relay.Store.served], by simp [cutAt]⟩
  | c :: bs, a, b, hchain, hb, hlen => by
    obtain ⟨hac, hrest⟩ := List.isChain_cons_cons.1 hchain
    obtain ⟨hcb, hcut⟩ := isCut_cutAt hr bs c b hrest (by simpa using hb) hlen
    refine ⟨by omega, ?_, ?_⟩
    · rw [cutAt, List.flatMap_cons, hcut.changes, r.served_append (by omega) hcb]
    · intro p hp
      rcases List.mem_cons.1 hp with rfl | hp
      · have hseq := Relay.Store.served_seq hr (a := a) (b := c) (by omega) (by omega)
        have hlast : ((r.served a c).map (·.seq)).getLast? = some c := by
          rw [hseq, List.getLast?_range', if_neg (by omega)]
          congr 1; omega
        rw [List.getLast?_map, Option.map_eq_some_iff] at hlast
        obtain ⟨e, he, hseq⟩ := hlast
        exact ⟨e, he, hseq.symm⟩
      · exact hcut.ends p hp

/-- Where an import put the host back to its creation, an empty store fails on the
    whole log as one page and succeeds on it as two. -/
theorem cut_matters :
    Run.Reach (Relay.Store.callStep sample) (fun _ _ => True) Relay.Store.sampleRelay
      Relay.Store.rolledBack ∧
    FromPrefix Store.empty Relay.Store.rolledBack.log 0 ∧
    IsCut (Relay.Store.rolledBack.served 0 Relay.Store.rolledBack.log.length)
      (cutAt Relay.Store.rolledBack 0 [3]) ∧
    IsCut (Relay.Store.rolledBack.served 0 Relay.Store.rolledBack.log.length)
      (cutAt Relay.Store.rolledBack 0 [2, 3]) ∧
    (applyPages sample Sample.genesis Sample.firstChain Store.empty
      (cutAt Relay.Store.rolledBack 0 [3])).toBool = false ∧
    (applyPages sample Sample.genesis Sample.firstChain Store.empty
      (cutAt Relay.Store.rolledBack 0 [2, 3])).toBool = true := by
  have hnum : Relay.Store.rolledBack.Numbered := ⟨by decide, by decide⟩
  refine ⟨?_, ⟨fun id => rfl, rfl⟩,
    (isCut_cutAt hnum _ 0 _ (by simp) (by decide) le_rfl).2,
    (isCut_cutAt hnum _ 0 _ (by simp) (by decide) le_rfl).2, by decide,
    by decide⟩
  exact .tail (.tail (.tail .refl trivial (l := .put (Sample.id 0x01) Relay.Store.hostCreation "t0")
    rfl) trivial (l := .put (Sample.id 0x01) Relay.Store.hostEdit "t0") rfl) trivial rfl

/-- The host and its edit, pulled in one page and in two. -/
theorem applyPages_cut_edited :
    ∃ st', applyPages sample Sample.genesis Sample.firstChain Store.empty
        (cutAt Relay.Store.editedHost 0 [2]) = .ok st' ∧
      applyPages sample Sample.genesis Sample.firstChain Store.empty
        (cutAt Relay.Store.editedHost 0 [1, 2]) = .ok st' := by
  have hreach : Run.Reach (Relay.Store.callStep sample) (Relay.Store.Raises sample)
      Relay.Store.sampleRelay Relay.Store.editedHost :=
    .tail (.tail .refl trivial (l := .put (Sample.id 0x01) Relay.Store.hostCreation "t0") rfl)
      trivial (l := .put (Sample.id 0x01) Relay.Store.hostEdit "t0") rfl
  have hnum : Relay.Store.editedHost.Numbered := ⟨by decide, by decide⟩
  have hfirst := Except.eq_ok_get (x := applyPages sample Sample.genesis Sample.firstChain
    Store.empty (cutAt Relay.Store.editedHost 0 [2])) (by decide)
  rcases applyPages_cut sample hreach (⟨fun id => rfl, rfl⟩ : FromPrefix Store.empty _ 0)
    Sample.genesis Sample.firstChain
    (isCut_cutAt hnum [2] 0 _ (by simp) (by decide) le_rfl).2
    (isCut_cutAt hnum [1, 2] 0 _ (by simp) (by decide) le_rfl).2 with h | ⟨_, _, h, -⟩
  · exact h
  · rw [hfirst] at h; cases h

end Sync

end Sshstate
