/-
  What a Rejoin takes out of the outbox.

  The relay remembers digests of a record and answers `behind` by them.  If every import
  claims only versions that its envelope descends from, each remembered digest leads to an
  entry of the log (`Traced`).  The client sends the stored head of a record and drops
  other pending versions on the answer; that loses none if the versions it drops are
  ancestors of the head, or the head itself when it is kept aside (`Sound`).  Then whatever
  leaves the outbox is in the log, or a version that descends from it is, or a conflict
  record keeps it (`rejoin_keeps`).

  A store with two pending versions of one revision, which an interrupted Sync and an edit
  leave behind, loses one of them (`rejoin_drops`).
-/
import Sshstate.Proof.Lineage
import Sshstate.Proof.Lone
import Sshstate.Sync.Rejoin

namespace Sshstate.Sync.Rejoin

open Vault (Store)
open Relay (ImportRecord ImportRequest ImportOutcome LogRow)

variable {C : Suite} {es : List Envelope}

/-! ## Descent -/

variable (C es) in
/-- `b` is the digest of a version that was built on the one with the digest `a`. -/
def Link (a b : Bytes) : Prop := ∃ e ∈ es, e.digest C = b ∧ e.context.parentDigest = some a

variable (C es) in
/-- `b` descends from `a` through the parent digests of the versions `es`. -/
def Descends : Bytes → Bytes → Prop := Relation.ReflTransGen (Link C es)

variable (C es) in
/-- The version of the record `id` with the digest `a`, or one that descends from it, is in
    the relay's log. -/
def Reached (r : Relay.Store) (id : ID) (a : Bytes) : Prop :=
  ∃ row ∈ r.log, row.recordID = id ∧ Descends C es a (row.envelope.digest C)

theorem Reached.mono {r r' : Relay.Store} (h : r.log <+: r'.log) {id : ID} {a : Bytes}
    (hr : Reached C es r id a) : Reached C es r' id a := by
  obtain ⟨row, hrow, hd⟩ := hr; exact ⟨row, h.subset hrow, hd⟩

/-- Nothing outside a set of digests that is closed under parents is an ancestor in it. -/
theorem not_descends {S : List Bytes}
    (hS : ∀ e ∈ es, e.digest C ∈ S → ∀ p ∈ e.context.parentDigest, p ∈ S) {a b : Bytes} (ha : a ∉ S)
    (hb : b ∈ S) : ¬ Descends C es a b := by
  intro h
  refine ha ?_
  induction h with
  | refl => exact hb
  | tail _ hlink ih =>
    obtain ⟨e, he, rfl, hp⟩ := hlink
    exact ih (hS e he hb _ hp)

/-! ## The relay -/

variable (C es) in
/-- An import claims what its envelope descends from. -/
def Claims (item : ImportRecord) : Prop :=
  item.envelope ∈ es ∧ ∀ a ∈ item.ancestors, Descends C es a (item.envelope.digest C)

variable (C es) in
/-- A call with versions among `es` and true claims. -/
def Truthful : Relay.Operation → Prop
  | .record (.put _ env _) => env ∈ es
  | .record (.importBatch _ req _ _) => ∀ item ∈ req.records, Claims C es item
  | .append _ _ => True

variable (C es) in
/-- What the relay remembers leads to its log. -/
structure Traced (r : Relay.Store) : Prop extends Relay.Store.Consistent C r where
  reached : ∀ p ∈ r.ancestors, Reached C es r p.1 p.2

/-- A head is an entry of the log. -/
theorem Traced.head {r : Relay.Store} (h : Traced C es r) {id : ID} {head : Envelope}
    (hh : r.head id = some head) {a : Bytes} (ha : Descends C es a (head.digest C)) :
    Reached C es r id a := by
  rw [Relay.Store.Consistent.head_eq h.toConsistent] at hh
  obtain ⟨row, hrow, rfl⟩ := Option.map_eq_some_iff.1 hh
  obtain ⟨hmem, hid⟩ := KeyedLog.mem_of_last? hrow
  refine ⟨row, hmem, hid, ?_⟩
  rwa [Relay.Store.decodeEnvelope, Envelope.digest_with_seq] at ha

theorem Traced.keep {r r' : Relay.Store} (h : Traced C es r) (hlog : r'.log = r.log)
    (hheads : r'.heads = r.heads) (hanc : r'.ancestors = r.ancestors) : Traced C es r' :=
  ⟨h.toConsistent.keep ⟨hlog, hheads, fun _ hp => hanc ▸ hp⟩, fun p hp => by
    obtain ⟨row, hrow, hd⟩ := h.reached p (hanc ▸ hp); exact ⟨row, hlog ▸ hrow, hd⟩⟩

/-- A version is appended, and digests that it descends from are remembered. -/
theorem Traced.append {r r' : Relay.Store} (h : Traced C es r) {env : Envelope} {ds : List Bytes}
    (ha : Relay.Store.Appends C r r' env)
    (hanc : r'.ancestors = (r.rememberAncestors env.context.recordID ds).ancestors)
    (hds : ∀ a ∈ ds, a ≠ [] → Descends C es a (env.digest C)) : Traced C es r' := by
  have hlog : r.log <+: r'.log := ha.log ▸ List.prefix_append ..
  refine ⟨h.toConsistent.append ha, fun p hp => ?_⟩
  rw [hanc, Relay.Store.mem_rememberAncestors] at hp
  rcases hp with hp | ⟨hid, hp, hne⟩
  · exact (h.reached p hp).mono hlog
  · refine ⟨_, ha.log ▸ List.mem_append_right _ List.mem_cons_self, hid.symm, hds _ hp hne⟩

/-- The digest and the parent of a version among `es`. -/
theorem descends_parent {env : Envelope} (henv : env ∈ es) {a : Bytes}
    (h : a = env.digest C ∨ a = env.context.parentDigest.getD []) (hne : a ≠ []) :
    Descends C es a (env.digest C) := by
  rcases h with rfl | rfl
  · exact .refl
  · rcases hp : env.context.parentDigest with _ | p
    · rw [hp] at hne; exact absurd rfl hne
    · exact .single ⟨env, henv, rfl, hp⟩

theorem Traced.put {r r' : Relay.Store} (h : Traced C es r) {v : ID} {env : Envelope}
    {now : String} {out : Relay.Store.PutOutcome} (henv : env ∈ es)
    (hput : r.putRecord C v env now = .ok (out, r')) : Traced C es r' := by
  obtain ⟨hsub, ⟨-, -, -, -, rfl⟩ | ⟨-, -, -, rfl⟩ | ⟨-, -, -, -, -, rfl⟩⟩ :=
    Relay.Store.putRecord_cases hput
  · exact h
  · exact h.keep rfl rfl rfl
  · refine h.append (Relay.Store.appends_afterAccept hsub.valid now) rfl fun a ha hne => ?_
    exact descends_parent henv (by simpa using ha) hne

/-- What an item gets as its answer, and what it leaves behind. -/
theorem Traced.item {r r' : Relay.Store} (h : Traced C es r) {chain : Membership.Chain} {v : ID}
    {epoch : ℕ} {item : ImportRecord} {now : String} {o : ImportOutcome} (hitem : Claims C es item)
    (hone : r.importOne C chain v epoch item now = .ok (o, r')) :
    Traced C es r' ∧ r.log <+: r'.log ∧ o.recordID = item.envelope.context.recordID ∧
      (o.outcome ≠ .diverged →
        Reached C es r' item.envelope.context.recordID (item.envelope.digest C)) := by
  have hds : ∀ a ∈ item.ancestorsOf (item.envelope.digest C), a ≠ [] →
      Descends C es a (item.envelope.digest C) := by
    intro a ha hne
    rcases List.mem_cons.1 ha with rfl | ha
    · exact .refl
    rcases List.mem_cons.1 ha with rfl | ha
    · exact descends_parent hitem.1 (Or.inr rfl) hne
    · exact hitem.2 a ha
  obtain ⟨hv, hid, ⟨-, -, -, rfl⟩ | ⟨head, hhead, ⟨-, hcur, rfl⟩ |
    ⟨-, -, ⟨-, hmem, rfl⟩ | ⟨ho, -, rfl⟩⟩⟩⟩ := Relay.Store.importOne_cases hone
  · have ha : Relay.Store.Appends C r (r.afterImport C item now) item.envelope :=
      Relay.Store.appends_afterImport hv now
    have hmem : Relay.Store.entry item.envelope (r.currentSeq + 1) ∈ (r.afterImport C item now).log :=
      ha.log ▸ List.mem_append_right _ List.mem_cons_self
    exact ⟨h.append ha rfl hds, ha.log ▸ List.prefix_append .., hid, fun _ => ⟨_, hmem, rfl, .refl⟩⟩
  · have hhd : ∀ a, Descends C es a (item.envelope.digest C) → Reached C es r _ a :=
      fun a ha => h.head hhead (hcur ▸ ha)
    refine ⟨⟨h.toConsistent.keep (Relay.Store.keeps_rememberAncestors ..), fun p hp => ?_⟩,
      List.prefix_rfl, hid, fun _ => hhd _ .refl⟩
    rw [Relay.Store.mem_rememberAncestors] at hp
    rcases hp with hp | ⟨hpid, hp, hne⟩
    · exact h.reached p hp
    · exact hpid ▸ hhd _ (hds _ hp hne)
  · exact ⟨h, List.prefix_rfl, hid, fun _ => h.reached _ hmem⟩
  · exact ⟨h, List.prefix_rfl, hid, fun hno => absurd ho hno⟩

/-- The answer to a batch: whatever is not diverged is reached. -/
theorem Traced.importRecords {r r' : Relay.Store} (h : Traced C es r) {v : ID}
    {req : ImportRequest} {now freshID : String} {outs : List ImportOutcome}
    (hreq : ∀ item ∈ req.records, Claims C es item)
    (himp : r.importRecords C v req now freshID = .ok (outs, r')) :
    Traced C es r' ∧ r.log <+: r'.log ∧ ∀ o ∈ outs, ∃ item ∈ req.records,
      o.recordID = item.envelope.context.recordID ∧ (o.outcome ≠ .diverged →
        Reached C es r' item.envelope.context.recordID (item.envelope.digest C)) := by
  obtain ⟨chain, row, st, -, -, hfold, hst⟩ := Relay.Store.importRecords_eq_ok himp
  have hinv : Traced C es st ∧ r.log <+: st.log ∧ ∀ o ∈ outs, ∃ item ∈ req.records,
      o.recordID = item.envelope.context.recordID ∧ (o.outcome ≠ .diverged →
        Reached C es st item.envelope.context.recordID (item.envelope.digest C)) := by
    refine Except.foldlM_induct (P := fun acc : List ImportOutcome × Relay.Store =>
      Traced C es acc.2 ∧ r.log <+: acc.2.log ∧ ∀ o ∈ acc.1, ∃ item ∈ req.records,
        o.recordID = item.envelope.context.recordID ∧ (o.outcome ≠ .diverged →
          Reached C es acc.2 item.envelope.context.recordID (item.envelope.digest C)))
      hfold ⟨h, List.prefix_rfl, fun o ho => absurd ho List.not_mem_nil⟩ ?_
    rintro item hitem acc acc' hx ⟨ht, hlog, hacc⟩
    obtain ⟨-, o, hone, heq⟩ := Relay.Store.importItem_eq_ok hx
    obtain ⟨ht', hlog', hid, ho⟩ := ht.item (hreq item hitem) hone
    refine ⟨ht', hlog.trans hlog', fun o' ho' => ?_⟩
    rw [heq] at ho'
    rcases List.mem_append.1 ho' with ho' | ho'
    · obtain ⟨item', hi, hid', hr⟩ := hacc o' ho'
      exact ⟨item', hi, hid', fun hno => (hr hno).mono hlog'⟩
    · obtain rfl := List.mem_singleton.1 ho'
      exact ⟨item, hitem, hid, ho⟩
  rcases hst with ⟨-, -, rfl⟩ | ⟨-, rfl⟩
  · exact ⟨hinv.1.keep rfl rfl rfl, hinv.2⟩
  · exact hinv

theorem Traced.appendMembership {r r' : Relay.Store} (h : Traced C es r) {v : ID}
    {ev : SignedMembershipEvent} {chain : Membership.Chain}
    (happ : r.appendMembership C v ev = .ok (chain, r')) : Traced C es r' ∧ r'.log = r.log := by
  obtain ⟨_, -, -, rfl⟩ := Relay.Store.appendMembership_ok happ
  exact ⟨h.keep rfl rfl rfl, rfl⟩

theorem Traced.operate {r : Relay.Store} (h : Traced C es r) {op : Relay.Operation}
    (hop : Truthful C es op) : Traced C es (r.operate C op) ∧ r.log <+: (r.operate C op).log := by
  rcases op with (⟨v, env, now⟩ | ⟨v, req, now, freshID⟩) | ⟨v, ev⟩
  · simp only [Relay.Store.operate, Relay.Store.call]
    rcases hput : r.putRecord C v env now with _ | ⟨out, r'⟩
    · exact ⟨h, List.prefix_rfl⟩
    · refine ⟨h.put hop hput, ?_⟩
      rcases Relay.Store.putRecord_tables hput with hk | ha
      · exact hk.log ▸ List.prefix_rfl
      · exact ha.log ▸ List.prefix_append ..
  · simp only [Relay.Store.operate, Relay.Store.call]
    rcases himp : r.importRecords C v req now freshID with _ | ⟨outs, r'⟩
    · exact ⟨h, List.prefix_rfl⟩
    · obtain ⟨ht, hlog, -⟩ := h.importRecords hop himp
      exact ⟨ht, hlog⟩
  · simp only [Relay.Store.operate]
    rcases happ : r.appendMembership C v ev with _ | ⟨chain, r'⟩
    · exact ⟨h, List.prefix_rfl⟩
    · obtain ⟨ht, hlog⟩ := h.appendMembership happ
      exact ⟨ht, hlog ▸ List.prefix_rfl⟩

theorem Traced.created (g : Genesis) (events : List SignedMembershipEvent) (history origin : String) :
    Traced C es (.created g events history origin) :=
  ⟨.created .., fun _ hp => absurd hp List.not_mem_nil⟩

/-! ## The conditions -/

variable (C es) in
/-- What the relay's answer for the head `mine` may take out of the outbox: ancestors of
    `mine`, or `mine` itself if it is kept aside. -/
def Settles (st : Store) (mine : Envelope) (out : ImportOutcome) : Prop :=
  if out.outcome = .diverged then
    ∀ x ∈ st.outbox, x.context.recordID = mine.context.recordID →
      x = mine.strip ∧ mine.context.recordType.isConflict = false
  else ∀ x ∈ st.outbox, x.context.recordID = mine.context.recordID →
    x.context.rev ≤ mine.context.rev → Descends C es (x.digest C) (mine.digest C)

variable (C es) in
/-- All imports claim what they descend from, and an answer takes out of the outbox what
    the head accounts for. -/
def Sound (W : World) : Label → Prop
  | .other op => Truthful C es op
  | .call _ _ => ∀ l next, W.phase = .importBatch l next → ∀ item ∈ l.batch, Claims C es item
  | .work _ => ∀ l out outs next, W.phase = .settle l out outs next →
      ∀ mine ∈ l.byID.lookup out.recordID, Settles C es W.store mine out

variable (C) in
/-- A drawn mutation id is not pending, and a conflict id is not the id of its record. -/
def Fresh (W : World) : Label → Prop
  | .work draw => ∀ l out outs next, W.phase = .settle l out outs next →
      (∀ x ∈ W.store.outbox, x.context.mutationID ≠ draw.mutationID.id) ∧
      ∀ mine ∈ l.byID.lookup out.recordID, Vault.conflictIDFor C mine ≠ mine.context.recordID
  | _ => True

/-- `k` is a version of a conflict record that holds the plaintext of `c`, or its removal. -/
structure Carries (C : Suite) (keys : Vault.Keys) (k c : Envelope) : Prop where
  conflict : k.context.recordType.isConflict = true
  content : ∃ payload : ConflictPayload,
    keys.plaintext C k = some (C.canonical (.conflictPayload payload)) ∧
    payload.sourceRecordID = c.context.recordID ∧
    payload.sourceMutationID = c.context.mutationID ∧
    payload.removal = c.context.deleted ∧
    (c.context.deleted = false → payload.candidate = keys.plaintext C c ∧ payload.candidate ≠ none)

theorem carries_of_preserve (hC : C.Correct) {m : Vault.Manager} {st : Store} {c head k : Envelope}
    {now : String} {id : Vault.NewID} {r : Vault.Entropy}
    (h : m.preserveCandidate C st c head now id r = .ok k) : Carries C m.keys k c := by
  obtain ⟨plaintext, headDigest, hopen, hs⟩ := Vault.Manager.preserveCandidate_ok h
  obtain ⟨text, htext, hplain⟩ := Vault.openRecord_plaintext hopen
  refine ⟨?_, _, hs.plaintext hC, rfl, rfl, rfl, fun hdel => ?_⟩
  · rw [hs.context]; exact RecordType.isConflict_conflictType _
  · rw [hdel, if_neg Bool.false_ne_true] at hplain
    have hkeys : m.keys.plaintext C c = some text := htext
    subst hplain
    exact ⟨hkeys.symm, Option.some_ne_none _⟩

/-! ## The client -/

/-- Heads are stored under their records. -/
def Filed (st : Store) : Prop := ∀ id h, st.head id = some h → h.context.recordID = id

theorem Filed.heads {st : Store} (h : Filed st) : (st.heads.map (·.context.recordID)).Nodup := by
  have hkeys : (st.records.entries.map Sigma.snd).map (·.context.recordID) = st.records.keys := by
    rw [List.map_map, AList.keys, List.keys]
    refine List.map_congr_left fun e he => h e.1 e.2 ?_
    exact AList.mem_lookup_iff.2 he
  have hperm := (List.perm_insertionSort (fun a b : Envelope =>
    ¬ b.context.recordID < a.context.recordID) (st.records.entries.map Sigma.snd)).map
      (·.context.recordID)
  exact hperm.nodup_iff.2 (hkeys ▸ st.records.keys_nodup)

/-- The item was made from a head that is at hand. -/
def Made (l : Locals) (item : ImportRecord) : Prop :=
  ∃ mine, l.byID.lookup item.envelope.context.recordID = some mine ∧ item.envelope = mine.strip

/-- The heads at hand, and the batch made from them. -/
structure LocalsOK (l : Locals) : Prop where
  keyed : ∀ id mine, l.byID.lookup id = some mine → mine.context.recordID = id
  batch : ∀ item ∈ l.batch, Made l item

/-- Heads of further records. -/
structure Ahead (l : Locals) (todo : List Envelope) : Prop where
  nodup : (todo.map (·.context.recordID)).Nodup
  new : ∀ head ∈ todo, head.context.recordID ∉ l.byID

def WaitingOK (l : Locals) : Waiting → Prop
  | some (item, todo) => Made l item ∧ Ahead l todo
  | none => True

variable (C es) in
/-- The relay has answered for a head at hand. -/
def Answered (r : Relay.Store) (l : Locals) (o : ImportOutcome) : Prop :=
  o.outcome ≠ .diverged → ∀ mine, l.byID.lookup o.recordID = some mine →
    Reached C es r mine.context.recordID (mine.digest C)

/-- The phases of `syncMembership`. -/
def early : Sync.Phase → Bool
  | .fetchMembership _ | .compareMembership _ _ | .putMembership _ _ | .putDevice _ _ _ _ _
  | .revocationNoted _ _ _ _ _ => true
  | _ => false

variable (C es) in
def PhaseOK (e : Engine) (r : Relay.Store) (st : Store) : Phase → Prop
  | .fetchMembership | .compare _ | .upload _ _ _ | .readHistory _ _ | .fetchLatest _ _ _ => Filed st
  | .membership p _ => early p = true ∧ Filed st
  | .readHeads l => l.byID = ∅ ∧ l.batch = [] ∧ Filed st
  | .readAncestors l head todo => LocalsOK l ∧ l.byID.lookup head.context.recordID = some head ∧
      Ahead l todo
  | .importBatch l next => LocalsOK l ∧ WaitingOK l next
  | .settle l out outs next => LocalsOK l ∧ WaitingOK l next ∧ ∀ o ∈ out :: outs, Answered C es r l o
  | .supersede l mine conflict head outs next => LocalsOK l ∧ WaitingOK l next ∧
      (∀ o ∈ outs, Answered C es r l o) ∧ head.context.recordID = mine.context.recordID ∧
      (∀ x ∈ st.outbox, x.context.recordID = mine.context.recordID → x = mine.strip) ∧
      Carries C e.manager.keys conflict mine ∧
      conflict.context.recordID ≠ mine.context.recordID ∧
      ∀ x ∈ st.outbox, x.context.mutationID ≠ conflict.context.mutationID
  | _ => True

/-! ## The loops -/

section
variable {l : Locals} {size : ImportRecord → ℕ} {e : Engine} {r r' : Relay.Store} {st : Store}

theorem Made.insert {item : ImportRecord} (h : Made l item) {head : Envelope}
    (hnew : head.context.recordID ∉ l.byID) :
    Made { l with byID := l.byID.insert head.context.recordID head } item := by
  obtain ⟨mine, hmine, heq⟩ := h
  refine ⟨mine, ?_, heq⟩
  have hne : item.envelope.context.recordID ≠ head.context.recordID := fun hid =>
    hnew (AList.lookup_isSome.1 (by rw [← hid, hmine]; rfl))
  exact (AList.lookup_insert_ne hne).trans hmine

theorem LocalsOK.insert (h : LocalsOK l) {head : Envelope} (hnew : head.context.recordID ∉ l.byID) :
    LocalsOK { l with byID := l.byID.insert head.context.recordID head } where
  keyed := fun id mine hid => by
    by_cases heq : id = head.context.recordID
    · subst heq
      rw [AList.lookup_insert] at hid
      exact Option.some.inj hid ▸ rfl
    · rw [AList.lookup_insert_ne heq] at hid
      exact h.keyed id mine hid
  batch := fun item hitem => (h.batch item hitem).insert hnew

theorem LocalsOK.add (h : LocalsOK l) {item : ImportRecord} (hitem : Made l item) :
    LocalsOK (l.add size item) where
  keyed := h.keyed
  batch := fun x hx => by
    rcases List.mem_append.1 hx with hx | hx
    · exact h.batch x hx
    · obtain rfl := List.mem_singleton.1 hx; exact hitem

theorem phaseOK_nextHead (h : LocalsOK l) {todo : List Envelope} (ht : Ahead l todo) :
    PhaseOK C es e r st (nextHead l todo) := by
  cases todo with
  | nil =>
    unfold nextHead
    split_ifs
    · trivial
    · exact ⟨h, trivial⟩
  | cons head todo =>
    have hnew := ht.new head List.mem_cons_self
    obtain ⟨hnot, hnodup⟩ := List.nodup_cons.1 ht.nodup
    refine ⟨h.insert hnew, AList.lookup_insert _, hnodup, fun x hx hmem => ?_⟩
    rcases (AList.mem_insert _).1 hmem with hid | hmem
    · exact hnot (List.mem_map.2 ⟨x, hx, hid⟩)
    · exact ht.new x (List.mem_cons_of_mem _ hx) hmem

theorem phaseOK_nextItem (h : LocalsOK l) {item : ImportRecord} (hitem : Made l item)
    {todo : List Envelope} (ht : Ahead l todo) :
    PhaseOK C es e r st (nextItem size l item todo) := by
  unfold nextItem
  split_ifs
  · exact ⟨h, hitem, ht⟩
  · exact phaseOK_nextHead (h.add hitem) ⟨ht.nodup, ht.new⟩

theorem phaseOK_nextOutcome (h : LocalsOK l) {next : Waiting} (hn : WaitingOK l next)
    {outs : List ImportOutcome} (ho : ∀ o ∈ outs, Answered C es r l o) :
    PhaseOK C es e r st (nextOutcome size l next outs) := by
  cases outs with
  | cons o outs => exact ⟨h, hn, ho⟩
  | nil =>
    rcases next with _ | ⟨item, todo⟩
    · trivial
    · have h' : LocalsOK { l with batch := [], size := 0 } :=
        ⟨h.keyed, fun x hx => absurd hx List.not_mem_nil⟩
      exact phaseOK_nextHead (h'.add hn.1) ⟨hn.2.nodup, hn.2.new⟩

/-- The report is not looked at. -/
theorem phaseOK_counted (h : LocalsOK l) {next : Waiting} (hn : WaitingOK l next)
    {outs : List ImportOutcome} (ho : ∀ o ∈ outs, Answered C es r l o) (report : Report) :
    PhaseOK C es e r st (nextOutcome size { l with report := report } next outs) := by
  have h' : LocalsOK { l with report := report } := ⟨h.keyed, h.batch⟩
  refine phaseOK_nextOutcome h' ?_ ho
  rcases next with _ | ⟨item, todo⟩
  · trivial
  · exact ⟨hn.1, hn.2.nodup, hn.2.new⟩

theorem phaseOK_nextUpload (h : Filed st) (uploaded : ℕ) (todo : List SignedMembershipEvent) :
    PhaseOK C es e r st (nextUpload uploaded todo) := by
  cases todo
  · exact ⟨rfl, h⟩
  · exact h

/-- Where `syncMembership` may be after a step. -/
def AfterEarly (p : Sync.Phase) : Prop :=
  early p = true ∨ (∃ l, p = .readCursor l) ∨ (∃ err, p = .noteRefusal err) ∨ ∃ err, p = .failed err

theorem phaseOK_ofSync (h : Filed st) (uploaded : ℕ) {p : Sync.Phase} (hp : AfterEarly p) :
    PhaseOK C es e r st (ofSync uploaded p) := by
  rcases hp with hp | ⟨l, rfl⟩ | ⟨err, rfl⟩ | ⟨err, rfl⟩
  · cases p <;> first | exact ⟨hp, h⟩ | cases hp
  · exact h
  · trivial
  · trivial

theorem afterEarly_failMembership (err : Error) : AfterEarly (failMembership err) := by
  unfold failMembership
  split_ifs
  · exact Or.inr (Or.inr (Or.inl ⟨err, rfl⟩))
  · exact Or.inr (Or.inr (Or.inr ⟨err, rfl⟩))

theorem afterEarly_nextDevice (known : ℕ) (chain : Membership.Chain) (newlyRevoked : List ID)
    (todo : List Membership.Device) : AfterEarly (nextDevice known chain newlyRevoked todo) := by
  cases todo
  · exact Or.inr (Or.inl ⟨_, rfl⟩)
  · exact Or.inl rfl

/-- `syncMembership` leaves the records and the outbox alone. -/
theorem early_work {draw : Draw} {st' : Store} {p p' : Sync.Phase} (hp : early p = true)
    (h : Sync.work C e draw st p = some (st', p')) :
    st'.records = st.records ∧ st'.outbox = st.outbox ∧ AfterEarly p' := by
  have heff : st'.records = st.records ∧ st'.outbox = st.outbox := by
    cases work_effect h with
    | quiet records outbox cursor => exact ⟨records, outbox⟩
    | _ => cases hp
  refine ⟨heff.1, heff.2, ?_⟩
  cases p with
  | compareMembership known events =>
    simp only [Sync.work] at h
    split at h <;> cases h
    · exact Or.inl rfl
    · exact afterEarly_failMembership _
  | putMembership known chain =>
    simp only [Sync.work] at h
    split at h <;> cases h
    · exact afterEarly_nextDevice ..
    · exact afterEarly_failMembership _
  | putDevice known chain dev todo newlyRevoked =>
    cases h
    split_ifs
    · exact Or.inl rfl
    · exact afterEarly_nextDevice ..
  | revocationNoted known chain id todo newlyRevoked => cases h; exact afterEarly_nextDevice ..
  | fetchMembership known => cases h
  | _ => cases hp

theorem early_receive {p p' : Sync.Phase} {reply : Sshstate.Reply} (hp : early p = true)
    (h : p.receive reply = some p') : AfterEarly p' := by
  unfold Sync.Phase.receive at h
  split at h
  · split at h <;> cases h
    · exact Or.inl rfl
    · exact afterEarly_failMembership _
  · cases hp
  · cases hp
  · cases hp
  · cases h

theorem Answered.mono (h : r.log <+: r'.log) {o : ImportOutcome} (ho : Answered C es r l o) :
    Answered C es r' l o := fun hno mine hmine => (ho hno mine hmine).mono h

theorem PhaseOK.mono (h : r.log <+: r'.log) {p : Phase} (hp : PhaseOK C es e r st p) :
    PhaseOK C es e r' st p := by
  cases p with
  | settle l out outs next => exact ⟨hp.1, hp.2.1, fun o ho => (hp.2.2 o ho).mono h⟩
  | supersede l mine conflict head outs next =>
    exact ⟨hp.1, hp.2.1, fun o ho => (hp.2.2.1 o ho).mono h, hp.2.2.2⟩
  | _ => exact hp

end

/-! ## Steps -/

section
variable {size : ImportRecord → ℕ} {e : Engine} {r : Relay.Store} {st st' : Store}

variable (C es) in
/-- Where a candidate is that has left the outbox. -/
def Accounted (keys : Vault.Keys) (r : Relay.Store) (st st' : Store) (c : Envelope) : Prop :=
  Reached C es r c.context.recordID (c.digest C) ∨
    ∃ k ∈ st'.outbox, k ∉ st.outbox ∧ Carries C keys k c

theorem acceptImported_ok {mine : Envelope} {seq : ℕ} (h : st.acceptImported C mine seq = .ok st') :
    st'.outbox = (st.dropPending mine.context.recordID mine.context.rev).outbox := by
  simp only [Store.acceptImported, Except.bind_eq_ok, Vault.Store.replaceHead_ok, Except.pure_eq_ok,
    Except.ok.injEq] at h
  obtain ⟨_, ⟨-, rfl⟩, rfl⟩ := h
  rfl

/-- Ancestors of a head that is reached are reached. -/
theorem accounted_drop {keys : Vault.Keys} {mine : Envelope} {out : ImportOutcome}
    (hr : Reached C es r mine.context.recordID (mine.digest C)) (hno : out.outcome ≠ .diverged)
    (hok : Settles C es st mine out)
    (hst' : st'.outbox = (st.dropPending mine.context.recordID mine.context.rev).outbox)
    {c : Envelope} (hc : c ∈ st.outbox) (hc' : c ∉ st'.outbox) :
    Accounted C es keys r st st' c := by
  rw [Settles, if_neg hno] at hok
  have hdrop : c.context.recordID = mine.context.recordID ∧ c.context.rev ≤ mine.context.rev := by
    by_contra hnot
    exact hc' (hst' ▸ List.mem_filter.2 ⟨hc, decide_eq_true hnot⟩)
  obtain ⟨row, hrow, hid, hd⟩ := hr
  exact Or.inl ⟨row, hrow, hid.trans hdrop.1.symm, (hok c hc hdrop.1 hdrop.2).trans hd⟩

theorem supersede_outbox {conflict : Option Envelope} {head : Envelope}
    (h : st.supersede C conflict head = .ok st') :
    st'.outbox = ((conflict.elim st fun k => st.enqueueOutbox k).dequeueRecord
      head.context.recordID).outbox := by
  rcases conflict with _ | k
  · obtain ⟨-, rfl⟩ := Vault.Store.supersede_none_ok.1 h
    rfl
  · simp only [Store.supersede, Except.bind_eq_ok, Vault.Store.replaceHead_ok] at h
    obtain ⟨st₁, h₁, -, rfl⟩ := h
    simp only [Vault.Store.outbox_writeHead, Store.dequeueRecord, (Vault.Store.putRecord_outbox h₁).1,
      Option.elim]

theorem commit_eq {tx : Except Error Store} {wrap : Error → Error} {next p' : Phase}
    (h : commit st tx wrap next = (st', p')) :
    tx = .ok st' ∧ p' = next ∨ st' = st ∧ ∃ err, p' = .failed err := by
  unfold commit at h
  split at h <;> simp only [Prod.mk.injEq] at h
  · exact Or.inl ⟨by rw [h.1], h.2.symm⟩
  · exact Or.inr ⟨h.1.symm, _, h.2.symm⟩

/-- The transaction of a step that failed has changed nothing. -/
theorem accounted_same {keys : Vault.Keys} {c : Envelope} (hst : st'.outbox = st.outbox)
    (hc : c ∈ st.outbox) (hc' : c ∉ st'.outbox) : Accounted C es keys r st st' c :=
  absurd (hst ▸ hc) hc'

theorem keepAside_spec (hC : C.Correct) {draw : Draw} {l : Locals} {mine : Envelope}
    {out : ImportOutcome} {outs : List ImportOutcome} {next : Waiting} {p' : Phase}
    (hl : LocalsOK l) (hn : WaitingOK l next) (ho : ∀ o ∈ outs, Answered C es r l o)
    (hdiv : out.outcome = .diverged) (hok : Settles C es st mine out)
    (hfresh : ∀ x ∈ st.outbox, x.context.mutationID ≠ draw.mutationID.id)
    (hid : Vault.conflictIDFor C mine ≠ mine.context.recordID)
    (h : keepAside C size e draw st l mine out outs next = (st', p')) :
    PhaseOK C es e r st' p' ∧
      ∀ c ∈ st.outbox, c ∉ st'.outbox → Accounted C es e.manager.keys r st st' c := by
  rw [Settles, if_pos hdiv] at hok
  unfold keepAside at h
  split at h
  · cases h; exact ⟨trivial, fun c hc hc' => absurd hc hc'⟩
  next head hhead =>
  have hrid : head.context.recordID = mine.context.recordID := by
    unfold relayVersion at hhead
    split at hhead
    · cases hhead
    next head' hh =>
      obtain ⟨-, -, hhead⟩ := Except.bind_eq_ok.1 hhead
      cases hhead
      simpa using (Option.filter_eq_some_iff.1 hh).2
  split_ifs at h with hconf
  · rcases commit_eq h with ⟨htx, rfl⟩ | ⟨rfl, err, rfl⟩
    · refine ⟨phaseOK_counted hl hn ho _, fun c hc hc' => ?_⟩
      -- a version of the conflict record would be pending
      rw [supersede_outbox htx] at hc'
      have hcid : c.context.recordID = mine.context.recordID := by
        by_contra hne
        exact hc' (Vault.Store.mem_dequeueRecord.2 ⟨hc, hrid ▸ hne⟩)
      rw [(hok c hc hcid).2] at hconf
      cases hconf
    · exact ⟨trivial, fun c hc hc' => absurd hc hc'⟩
  · split at h
    · cases h; exact ⟨trivial, fun c hc hc' => absurd hc hc'⟩
    next conflict hk =>
    cases h
    obtain ⟨_, _, -, hs⟩ := Vault.Manager.preserveCandidate_ok hk
    refine ⟨⟨hl, hn, ho, hrid, fun x hx hxid => (hok x hx hxid).1, carries_of_preserve hC hk, ?_, ?_⟩,
      fun c hc hc' => absurd hc hc'⟩
    · rw [hs.context]; exact hid
    · rw [hs.context]; exact hfresh

theorem settle_spec (hC : C.Correct) {draw : Draw} {l : Locals} {out : ImportOutcome}
    {outs : List ImportOutcome} {next : Waiting} {p' : Phase}
    (hp : PhaseOK C es e r st (.settle l out outs next))
    (hok : ∀ mine ∈ l.byID.lookup out.recordID, Settles C es st mine out)
    (hfresh : ∀ x ∈ st.outbox, x.context.mutationID ≠ draw.mutationID.id)
    (hid : ∀ mine ∈ l.byID.lookup out.recordID,
      Vault.conflictIDFor C mine ≠ mine.context.recordID)
    (h : settle C size e draw st l out outs next = (st', p')) :
    PhaseOK C es e r st' p' ∧
      ∀ c ∈ st.outbox, c ∉ st'.outbox → Accounted C es e.manager.keys r st st' c := by
  obtain ⟨hl, hn, ho⟩ := hp
  have houts : ∀ o ∈ outs, Answered C es r l o := fun o hmem => ho o (List.mem_cons_of_mem _ hmem)
  unfold settle at h
  split at h
  · cases h; exact ⟨trivial, fun c hc hc' => absurd hc hc'⟩
  next mine hmine =>
  have hreach : out.outcome ≠ .diverged → Reached C es r mine.context.recordID (mine.digest C) :=
    fun hno => ho out List.mem_cons_self hno mine hmine
  have hsettles := hok mine hmine
  split at h
  next hout =>
    have hno : out.outcome ≠ .diverged := by rw [hout]; exact fun h => by cases h
    rcases commit_eq h with ⟨htx, rfl⟩ | ⟨rfl, err, rfl⟩
    · exact ⟨phaseOK_counted hl hn houts _, fun c hc hc' =>
        accounted_drop (hreach hno) hno hsettles (acceptImported_ok htx) hc hc'⟩
    · exact ⟨trivial, fun c hc hc' => absurd hc hc'⟩
  next hout =>
    have hno : out.outcome ≠ .diverged := by rw [hout]; exact fun h => by cases h
    rcases commit_eq h with ⟨htx, rfl⟩ | ⟨rfl, err, rfl⟩
    · exact ⟨phaseOK_nextOutcome hl hn houts, fun c hc hc' =>
        accounted_drop (hreach hno) hno hsettles (acceptImported_ok htx) hc hc'⟩
    · exact ⟨trivial, fun c hc hc' => absurd hc hc'⟩
  next hout =>
    have hno : out.outcome ≠ .diverged := by rw [hout]; exact fun h => by cases h
    cases h
    exact ⟨phaseOK_nextOutcome hl hn houts, fun c hc hc' =>
      accounted_drop (hreach hno) hno hsettles rfl hc hc'⟩
  next hout =>
    exact keepAside_spec hC hl hn houts hout hsettles hfresh (hid mine hmine) h

/-- The transaction that keeps a head aside. -/
theorem supersede_spec {l : Locals} {mine conflict head : Envelope} {outs : List ImportOutcome}
    {next : Waiting} (hp : PhaseOK C es e r st (.supersede l mine conflict head outs next))
    (h : st.supersede C (some conflict) head = .ok st') :
    PhaseOK C es e r st' (nextOutcome size l.countDiverged next outs) ∧
      ∀ c ∈ st.outbox, c ∉ st'.outbox → Accounted C es e.manager.keys r st st' c := by
  obtain ⟨hl, hn, ho, hrid, hsole, hcarries, hid, hfresh⟩ := hp
  have hout := supersede_outbox h
  rw [Option.elim, hrid] at hout
  have hk : conflict ∈ st'.outbox := by
    rw [hout]
    refine Vault.Store.mem_dequeueRecord.2 ⟨?_, hid⟩
    rw [Vault.Store.outbox_enqueueOutbox hfresh]
    exact List.mem_append_right _ List.mem_cons_self
  refine ⟨phaseOK_counted hl hn ho _, fun c hc hc' => Or.inr ⟨conflict, hk, ?_, ?_⟩⟩
  · exact fun hmem => hfresh conflict hmem rfl
  · have hcid : c.context.recordID = mine.context.recordID := by
      by_contra hne
      exact hc' (hout ▸ Vault.Store.mem_dequeueRecord.2
        ⟨Vault.Store.subset_enqueueOutbox st conflict hc, hne⟩)
    rw [hsole c hc hcid]
    exact ⟨hcarries.conflict, hcarries.content⟩

end

/-! ## Runs -/

section
variable {size : ImportRecord → ℕ} {e : Engine}

variable (C es) in
structure Inv (e : Engine) (W : World) : Prop where
  traced : Traced C es W.relay
  phase : PhaseOK C es e W.relay W.store W.phase

/-- An access to the store. -/
theorem Inv.work (hC : C.Correct) {r : Relay.Store} {st st' : Store} {p p' : Phase} {draw : Draw}
    (h : Inv C es e ⟨r, st, p⟩) (hok : Sound C es ⟨r, st, p⟩ (.work draw))
    (hfresh : Fresh C ⟨r, st, p⟩ (.work draw))
    (hw : Rejoin.work C size e draw st p = some (st', p')) :
    PhaseOK C es e r st' p' ∧
      ∀ c ∈ st.outbox, c ∉ st'.outbox → Accounted C es e.manager.keys r st st' c := by
  have hp := h.phase
  cases p with
  | compare remote =>
    simp only [Rejoin.work] at hw
    split at hw <;> cases hw
    · exact ⟨phaseOK_nextUpload hp _ _, fun c hc hc' => absurd hc hc'⟩
    · exact ⟨trivial, fun c hc hc' => absurd hc hc'⟩
  | membership q uploaded =>
    obtain ⟨⟨st₁, q'⟩, hq, heq⟩ := Option.map_eq_some_iff.1 hw
    cases heq
    obtain ⟨hrec, hout, hafter⟩ := early_work hp.1 hq
    have hfiled : Filed st₁ := fun id x hx => hp.2 id x (by rwa [Store.head, hrec] at hx)
    exact ⟨phaseOK_ofSync hfiled _ hafter, fun c hc hc' => accounted_same hout hc hc'⟩
  | readHistory chain uploaded => cases hw; exact ⟨hp, fun c hc hc' => absurd hc hc'⟩
  | readHeads l =>
    cases hw
    obtain ⟨hby, hbatch, hfiled⟩ := hp
    refine ⟨phaseOK_nextHead ⟨fun id mine hid => ?_, fun x hx => ?_⟩ ⟨hfiled.heads, fun x _ hmem => ?_⟩,
      fun c hc hc' => absurd hc hc'⟩
    · rw [hby] at hid; cases hid
    · rw [hbatch] at hx; exact absurd hx List.not_mem_nil
    · rw [hby] at hmem; exact AList.notMem_empty _ hmem
  | readAncestors l head todo =>
    cases hw
    obtain ⟨hl, hhead, htodo⟩ := hp
    exact ⟨phaseOK_nextItem hl ⟨head, hhead, rfl⟩ htodo, fun c hc hc' => absurd hc hc'⟩
  | settle l out outs next =>
    obtain ⟨hids, hconflict⟩ := hfresh l out outs next rfl
    exact settle_spec hC hp (hok l out outs next rfl) hids hconflict (Option.some.inj hw)
  | supersede l mine conflict head outs next =>
    rcases commit_eq (Option.some.inj hw) with ⟨htx, rfl⟩ | ⟨rfl, err, rfl⟩
    · exact supersede_spec hp htx
    · exact ⟨trivial, fun c hc hc' => absurd hc hc'⟩
  | restartHistory l => cases hw; exact ⟨trivial, fun c hc hc' => absurd hc hc'⟩
  | _ => cases hw

/-- A request with its answer. -/
theorem Inv.call {r r' : Relay.Store} {st : Store} {p p' : Phase} {now freshID : String}
    {s : Relay.Store.Sender} {req : Request} {reply : Reply} (h : Inv C es e ⟨r, st, p⟩)
    (hok : Sound C es ⟨r, st, p⟩ (.call now freshID)) (hreq : p.request = some req)
    (hans : answer C r s now freshID req = (reply, r')) (hp' : p.receive size reply = some p') :
    Traced C es r' ∧ r.log <+: r'.log ∧ PhaseOK C es e r' st p' := by
  have hp := h.phase
  have ht := h.traced
  cases p with
  | fetchMembership =>
    cases hreq; cases hans
    simp only [Phase.receive] at hp'
    split at hp' <;> cases hp'
    · exact ⟨ht, List.prefix_rfl, hp⟩
    · exact ⟨ht, List.prefix_rfl, trivial⟩
  | upload ev todo uploaded =>
    cases hreq
    simp only [answer] at hans
    split at hans <;> cases hans <;> cases hp'
    · exact ⟨ht, List.prefix_rfl, trivial⟩
    next chain r₁ happ =>
      obtain ⟨⟨⟩, -, happ⟩ := Except.bind_eq_ok.1 happ
      obtain ⟨ht', hlog⟩ := ht.appendMembership happ
      exact ⟨ht', hlog ▸ List.prefix_rfl, phaseOK_nextUpload hp _ _⟩
  | membership q uploaded =>
    obtain ⟨hq, hfiled⟩ := hp
    cases q with
    | fetchMembership known =>
      cases hreq; cases hans
      obtain ⟨q', hq', heq⟩ := Option.map_eq_some_iff.1 hp'
      cases heq
      exact ⟨ht, List.prefix_rfl, phaseOK_ofSync hfiled _ (early_receive rfl hq')⟩
    | compareMembership known events => cases hreq
    | putMembership known chain => cases hreq
    | putDevice known chain dev todo newlyRevoked => cases hreq
    | revocationNoted known chain id todo newlyRevoked => cases hreq
    | _ => cases hq
  | fetchLatest chain stored uploaded =>
    cases hreq; cases hans
    simp only [Phase.receive] at hp'
    split at hp' <;> cases hp'
    · exact ⟨ht, List.prefix_rfl, rfl, rfl, hp⟩
    · exact ⟨ht, List.prefix_rfl, trivial⟩
  | importBatch l next =>
    cases hreq
    obtain ⟨hl, hn⟩ := hp
    simp only [answer] at hans
    split at hans <;> cases hans <;> cases hp'
    · exact ⟨ht, List.prefix_rfl, trivial⟩
    next outs r₁ himp =>
      obtain ⟨⟨⟩, -, himp⟩ := Except.bind_eq_ok.1 himp
      obtain ⟨ht', hlog, houts⟩ := ht.importRecords (hok l next rfl) himp
      have hl' : LocalsOK { l with history := r'.history } := ⟨hl.keyed, hl.batch⟩
      refine ⟨ht', hlog, phaseOK_nextOutcome hl' ?_ fun o ho hno mine hmine => ?_⟩
      · rcases next with _ | ⟨item, todo⟩
        · trivial
        · exact ⟨hn.1, hn.2.nodup, hn.2.new⟩
      · obtain ⟨item, hitem, hid, hr⟩ := houts o ho
        obtain ⟨mine', hmine', heq⟩ := hl.batch item hitem
        obtain rfl : mine' = mine := Option.some.inj (hmine'.symm.trans (hid ▸ hmine))
        have hreached := hr hno
        rwa [heq, Envelope.digest_strip] at hreached
  | _ => cases hreq

/-- **The step lemma.** -/
theorem Inv.step (hC : C.Correct) {W W' : World} (h : Inv C es e W) {l : Label}
    (hok : Sound C es W l) (hfresh : Fresh C W l) (hs : W.step C size e l = some W') :
    Inv C es e W' ∧ ∀ c ∈ W.store.outbox, c ∉ W'.store.outbox →
      Accounted C es e.manager.keys W'.relay W.store W'.store c := by
  obtain ⟨r, st, p⟩ := W
  cases l with
  | other op =>
    cases hs
    obtain ⟨ht, hlog⟩ := h.traced.operate hok
    exact ⟨⟨ht, h.phase.mono hlog⟩, fun c hc hc' => absurd hc hc'⟩
  | work draw =>
    obtain ⟨⟨st', p'⟩, hw, heq⟩ := Option.bind_eq_some_iff.1 hs
    cases heq
    obtain ⟨hp, hacc⟩ := h.work hC hok hfresh hw
    exact ⟨⟨h.traced, hp⟩, hacc⟩
  | call now freshID =>
    obtain ⟨req, hreq, hs⟩ := Option.bind_eq_some_iff.1 hs
    rcases hans : answer C r (sender C e) now freshID req with ⟨reply, r'⟩
    simp only [hans] at hs
    obtain ⟨p', hp', heq⟩ := Option.bind_eq_some_iff.1 hs
    cases heq
    obtain ⟨ht, -, hp⟩ := h.call hok hreq hans hp'
    exact ⟨⟨ht, hp⟩, fun c hc hc' => absurd hc hc'⟩

end

/-- **Rejoin loses nothing.**  Take the store of any device of a fleet, after any run of
    local edits, Syncs, lost answers and interruptions, and a Rejoin of it with an honest
    relay that others call meanwhile.  If all imports claim only what their envelopes
    descend from, and each answer is about a head whose pending versions are its ancestors
    (or the head alone, if it is kept aside), then a candidate leaves the outbox only if it
    or a version that descends from it is in the relay's log, or if the same transaction
    enqueues a conflict record that holds it. -/
theorem rejoin_keeps (hC : C.Correct) (A : Founding C) {F : Fleet}
    (hF : Run.Reach (Fleet.step C A.setup) (fun _ _ => True) A.fleet F)
    (hd : Distinct C A.setup.genesis.vaultID F.ids) {d : ID} {n : Node} (hn : F.nodes d = some n)
    (size : ImportRecord → ℕ) (es : List Envelope) (events : List SignedMembershipEvent)
    (history origin : String) {W W' : World} {l : Label}
    (hW : Run.Reach (World.step C size (n.engine A.setup d))
      (fun W l => Sound C es W l ∧ Fresh C W l)
      ⟨.created A.setup.genesis events history origin, n.store, .fetchMembership⟩ W)
    (hok : Sound C es W l) (hfresh : Fresh C W l)
    (hs : W.step C size (n.engine A.setup d) l = some W') {c : Envelope}
    (hc : c ∈ W.store.outbox) (hc' : c ∉ W'.store.outbox) :
    (∃ row ∈ W'.relay.log, row.recordID = c.context.recordID ∧
      Descends C es (c.digest C) (row.envelope.digest C)) ∨
    ∃ k ∈ W'.store.outbox, k ∉ W.store.outbox ∧ Carries C A.setup.keys k c := by
  have hfiled : Filed n.store := fun id h hh =>
    (((tidy_of_reach A hF hd).nodes d n hn).heads id h hh).1
  have hinv : Inv C es (n.engine A.setup d) W := hW.invariant ⟨.created .., hfiled⟩
    fun s l s' hI hok' hs' => (hI.step hC hok'.1 hok'.2 hs').1
  exact (hinv.step hC hok hfresh hs).2 c hc hc'

/-! ## Runs of the sample vault -/

namespace Vault01

open Sync.Vault01

/-- A Rejoin of `0a`, alone in its vault, up to its import. -/
def untilImport : List Label :=
  let w : Label := .work (draw 0xff)
  let c : Label := .call "t0" "h2"
  [c, w, c, w, w, w, w, c, w, w]

def start (st : Store) : World :=
  { relay := .created Sample.genesis [Sample.root (Sample.id 0x0a) [10] "A"] "h" historyCreated,
    store := st, phase := .fetchMembership }

/-- A step that neither sends an import nor settles an answer. -/
def quiet (W : World) : Label → Bool
  | .other _ => false
  | .call _ _ => match W.phase with
    | .importBatch _ _ => false
    | _ => true
  | .work _ => match W.phase with
    | .settle _ _ _ _ => false
    | _ => true

theorem quiet_ok {es : List Envelope} {W : World} {l : Label} (h : quiet W l = true) :
    Sound sample es W l ∧ Fresh sample W l := by
  cases l with
  | other op => cases h
  | call now freshID =>
    refine ⟨fun l next hp => ?_, trivial⟩
    rw [quiet, hp] at h; cases h
  | work draw =>
    refine ⟨fun l out outs next hp => ?_, fun l out outs next hp => ?_⟩ <;>
    · rw [quiet, hp] at h; cases h

/-- The items of an import, and the answer about to be settled with its head. -/
def itemsOf : Phase → List ImportRecord
  | .importBatch l _ => l.batch
  | _ => []

def answerOf : Phase → Option (ImportOutcome × Option Envelope)
  | .settle l out _ _ => some (out, l.byID.lookup out.recordID)
  | _ => none

/-- The host `20` was created on `0a` and is pending. -/
def drafted : Fleet :=
  (run (fun _ _ => True) [.edit (Sample.id 0x0a) [create 0x20 0x30]]).get (by decide)

def drafter : Node := (drafted.nodes (Sample.id 0x0a)).get (by decide)

def draft : Envelope := drafter.store.outbox.head (by decide)

def step (n : Node) : World → Label → Option World :=
  World.step sample (fun _ => 1) (n.engine setup (Sample.id 0x0a))

/-- Its Rejoin, about to send the import, with the answer, and with the answer settled. -/
def sending : World :=
  (Run.replay (step drafter) (fun W l => quiet W l = true) (start drafter.store) untilImport).get
    (by decide)

def answered : World := (step drafter sending (.call "t0" "h2")).get (by decide)

def settled : World := (step drafter answered (.work (draw 0xff))).get (by decide)

/-- The fleet after the edit that follows the interrupted Sync: two versions of revision 2
    are pending. -/
def branched : Fleet :=
  (run (fun _ _ => True) (interrupted ++ [.edit (Sample.id 0x0a) [revise 0x20 0x32]])).get
    (by decide)

def brancher : Node := (branched.nodes (Sample.id 0x0a)).get (by decide)

/-- The second version, which was pending at the interruption. -/
def secondVersion : Envelope := brancher.store.outbox.head (by decide)

/-- The relay holds the first version. -/
def firstVersion : Relay.Operation :=
  .record (.put (Sample.id 0x01) ((branched.relay.log.map (·.envelope)).head (by decide)) "t0")

/-- The Rejoin of `0a`, before and after it settles the answer. -/
def branchAnswered : World :=
  (Run.replay (step brancher) (fun _ _ => True) (start brancher.store)
    (.other firstVersion :: untilImport ++ [.call "t0" "h2"])).get (by decide)

def branchSettled : World :=
  (step brancher branchAnswered (.work (draw 0xff))).get (by decide)

end Vault01

open Sync.Vault01 Vault01 in
/-- A pending creation is imported, and leaves the outbox. -/
theorem rejoin_keeps_draft : draft ∈ answered.store.outbox ∧ draft ∉ settled.store.outbox ∧
    ((∃ row ∈ settled.relay.log, row.recordID = draft.context.recordID ∧
      Descends sample [draft] (draft.digest sample) (row.envelope.digest sample)) ∨
    ∃ k ∈ settled.store.outbox, k ∉ answered.store.outbox ∧ Carries sample setup.keys k draft) := by
  have hF : Run.Reach (Fleet.step sample setup) (fun _ _ => True) founding.fleet drafted :=
    Run.reach_of_replay (Option.some_get _).symm
  have hn : drafted.nodes (Sample.id 0x0a) = some drafter := (Option.some_get _).symm
  have hquiet : Run.Reach (step drafter) (fun W l => quiet W l = true) (start drafter.store) sending :=
    Run.reach_of_replay (Option.some_get _).symm
  have hitems : ∀ item ∈ itemsOf sending.phase, item.envelope ∈ [draft] ∧
      ∀ a ∈ item.ancestors, a = item.envelope.digest sample := by decide
  have hsend : Sound sample [draft] sending (.call "t0" "h2") := by
    intro l next hp item hitem
    obtain ⟨hmem, hanc⟩ := hitems item (by rw [hp]; exact hitem)
    exact ⟨hmem, fun a ha => hanc a ha ▸ .refl⟩
  have hW : Run.Reach (step drafter) (fun W l => Sound sample [draft] W l ∧ Fresh sample W l)
      (start drafter.store) answered :=
    .tail (hquiet.mono fun _ _ h => quiet_ok h) ⟨hsend, trivial⟩ (Option.some_get _).symm
  have hanswer : ∀ p ∈ answerOf answered.phase, p.1.outcome ≠ .diverged ∧ ∀ mine ∈ p.2,
      (∀ x ∈ answered.store.outbox, x.digest sample = mine.digest sample) ∧
      Vault.conflictIDFor sample mine ≠ mine.context.recordID := by decide
  have hids : ∀ x ∈ answered.store.outbox, x.context.mutationID ≠ (draw 0xff).mutationID.id := by
    decide
  have hok : Sound sample [draft] answered (.work (draw 0xff)) := by
    intro l out outs next hp mine hmine
    obtain ⟨hno, hmines⟩ := hanswer (out, l.byID.lookup out.recordID) (by rw [hp]; rfl)
    rw [Settles, if_neg hno]
    exact fun x hx _ _ => (hmines mine hmine).1 x hx ▸ .refl
  have hfresh : Fresh sample answered (.work (draw 0xff)) := by
    intro l out outs next hp
    refine ⟨hids, fun mine hmine => ?_⟩
    exact ((hanswer (out, l.byID.lookup out.recordID) (by rw [hp]; rfl)).2 mine hmine).2
  have hc : draft ∈ answered.store.outbox := by decide
  have hc' : draft ∉ settled.store.outbox := by decide
  exact ⟨hc, hc', rejoin_keeps sample_correct founding hF (by decide) hn (fun _ => 1) [draft]
    _ _ _ hW hok hfresh (Option.some_get _).symm hc hc'⟩

open Sync.Vault01 Vault01 in
/-- Two pending versions were built on the first one.  The Rejoin sends the newer, and the
    answer takes both out of the outbox: the older one is lost. -/
theorem rejoin_drops :
    Run.Reach (Fleet.step sample setup) (fun _ _ => True) founding.fleet branched ∧
    Distinct sample setup.genesis.vaultID branched.ids ∧
    branched.nodes (Sample.id 0x0a) = some brancher ∧
    Run.Reach (World.step sample (fun _ => 1) (brancher.engine setup (Sample.id 0x0a)))
      (fun _ _ => True) (start brancher.store) branchAnswered ∧
    branchAnswered.step sample (fun _ => 1) (brancher.engine setup (Sample.id 0x0a))
      (.work (draw 0xff)) = some branchSettled ∧
    secondVersion ∈ branchAnswered.store.outbox ∧ branchSettled.store.outbox = [] ∧
    ∀ row ∈ branchSettled.relay.log,
      ¬ Descends sample branched.sealed (secondVersion.digest sample) (row.envelope.digest sample) := by
  refine ⟨Run.reach_of_replay (Option.some_get _).symm, by decide, (Option.some_get _).symm,
    Run.reach_of_replay (Option.some_get _).symm, (Option.some_get _).symm, by decide,
    by decide, fun row hrow => ?_⟩
  refine not_descends (S := branchSettled.relay.log.map (·.envelope.digest sample)) ?_ ?_
    (List.mem_map_of_mem hrow)
  · decide
  · decide

end Sshstate.Sync.Rejoin
