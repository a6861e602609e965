/-
  An import after an import (`importHosts_twice`).

  A dry run before reports what the import does.  An import after it finds every host: those
  that were created are the same (`sameHost_view`), and those that differ are in a conflict
  record, which is found among all others (`conflictAlreadyPreserved_iff`).  A record that is too
  long is written and then cannot be read (`importHosts_unreadable`).
-/
import Sshstate.Proof.Codec
import Sshstate.Proof.Renderable

namespace Sshstate.Vault

variable {C : Suite} {J : Coding} {m : Manager}

/-! ## Sealing again -/

theorem Store.liveRecords_sorted {st : Store} (hfiled : st.Filed) {t : RecordType}
    {rows : List Envelope} (h : st.liveRecords t = .ok rows) :
    rows.Pairwise fun a b => a.context.recordID < b.context.recordID := by
  obtain ⟨-, -, hnodup⟩ := Store.liveRecords_ok hfiled h
  have hrows : rows = st.heads.filter fun e => e.context.recordType = t ∧ e.context.deleted = false := by
    have hmap := Except.map_mapM (g := id) (k := id) (fun a b hab => (decodeRow_eq_ok.1 hab).2) h
    simpa using hmap
  have htotal : Std.Total fun a b : Envelope => ¬ b.context.recordID < a.context.recordID :=
    ⟨fun a b => (le_total a.context.recordID b.context.recordID).imp not_lt_of_ge not_lt_of_ge⟩
  have htrans : IsTrans Envelope fun a b => ¬ b.context.recordID < a.context.recordID :=
    ⟨fun a b c hab hbc => not_lt_of_ge ((not_lt.1 hab).trans (not_lt.1 hbc))⟩
  have hsorted : rows.Pairwise fun a b => ¬ b.context.recordID < a.context.recordID := by
    rw [hrows]
    exact (List.pairwise_insertionSort _ _).sublist List.filter_sublist
  rw [List.Nodup, List.pairwise_map] at hnodup
  exact (hsorted.and hnodup).imp fun h => lt_of_le_of_ne (not_lt.1 h.1) h.2

namespace Manager

/-! ## The search for a conflict -/

/-- Whether a conflict record keeps the candidate. -/
def keeps (C : Suite) (J : Coding) (m : Manager) (st : Store) (sourceID : ID) (candidate : Bytes)
    (env : Envelope) : Except Error Bool := do
  let p ← (m.readerFor C st).openInto C J.readConflict zeroConflict env
  if p.sourceRecordID ≠ sourceID ∨ p.removal = true then return false
  else sameCanonicalJSON J (p.candidate.getD []) candidate

section

variable {st : Store} {sourceID : ID} {candidate : Bytes}

theorem preservedIn_cons (env : Envelope) (envs : List Envelope) :
    m.preservedIn C J st sourceID candidate (env :: envs) =
      (m.keeps C J st sourceID candidate env >>= fun found =>
        if found then .ok true else m.preservedIn C J st sourceID candidate envs) := by
  rw [preservedIn, keeps]
  cases (m.readerFor C st).openInto C J.readConflict zeroConflict env with
  | error err => rfl
  | ok p =>
    simp only [Except.bind_ok']
    split_ifs with h
    · rfl
    · rfl

theorem preservedIn_false {envs : List Envelope}
    (h : m.preservedIn C J st sourceID candidate envs = .ok false) :
    ∀ env ∈ envs, m.keeps C J st sourceID candidate env = .ok false := by
  induction envs with
  | nil => exact nofun
  | cons env envs ih =>
    rw [preservedIn_cons, Except.bind_eq_ok] at h
    obtain ⟨found, hfound, h⟩ := h
    cases found with
    | true => simp at h
    | false => exact List.forall_mem_cons.2 ⟨hfound, ih (by simpa using h)⟩

/-- The loop finds a record that keeps the candidate if all records before it can be read. -/
theorem preservedIn_true {envs : List Envelope}
    (hsorted : envs.Pairwise fun a b => a.context.recordID < b.context.recordID) :
    m.preservedIn C J st sourceID candidate envs = .ok true ↔
      ∃ e ∈ envs, m.keeps C J st sourceID candidate e = .ok true ∧
        ∀ x ∈ envs, x.context.recordID < e.context.recordID →
          ∃ found, m.keeps C J st sourceID candidate x = .ok found := by
  induction envs with
  | nil => simp [preservedIn]
  | cons env envs ih =>
    obtain ⟨hfirst, hrest⟩ := List.pairwise_cons.1 hsorted
    rw [preservedIn_cons, Except.bind_eq_ok]
    constructor
    · rintro ⟨found, hfound, h⟩
      cases found with
      | true =>
        refine ⟨env, List.mem_cons_self, hfound, fun x hx hlt => ?_⟩
        rcases List.mem_cons.1 hx with rfl | hx
        · exact ⟨true, hfound⟩
        · exact absurd (hfirst x hx) (lt_asymm hlt)
      | false =>
        obtain ⟨e, he, hkeeps, hbefore⟩ := (ih hrest).1 (by simpa using h)
        refine ⟨e, List.mem_cons_of_mem _ he, hkeeps, fun x hx hlt => ?_⟩
        rcases List.mem_cons.1 hx with rfl | hx
        · exact ⟨false, hfound⟩
        · exact hbefore x hx hlt
    · rintro ⟨e, he, hkeeps, hbefore⟩
      rcases List.mem_cons.1 he with rfl | he
      · exact ⟨true, hkeeps, rfl⟩
      · obtain ⟨found, hfound⟩ := hbefore env List.mem_cons_self (hfirst e he)
        refine ⟨found, hfound, ?_⟩
        cases found with
        | true => rfl
        | false =>
          simpa using (ih hrest).2 ⟨e, he, hkeeps, fun x hx => hbefore x (List.mem_cons_of_mem _ hx)⟩

theorem conflictAlreadyPreserved_iff (hfiled : st.Filed) :
    m.conflictAlreadyPreserved C J st sourceID candidate = .ok true ↔
      ∃ rows, st.liveRecords .conflictMetadata = .ok rows ∧
        ∃ e ∈ rows, m.keeps C J st sourceID candidate e = .ok true ∧
          ∀ x ∈ rows, x.context.recordID < e.context.recordID →
            ∃ found, m.keeps C J st sourceID candidate x = .ok found := by
  rw [conflictAlreadyPreserved, Except.bind_eq_ok]
  refine exists_congr fun rows => and_congr_right fun hrows => ?_
  exact preservedIn_true (Store.liveRecords_sorted hfiled hrows)

end

/-! ## A dry run -/

section

variable {st : Store} {hosts : List HostView} {now now' : String}

end

/-! ## The conflicts afterwards -/

/-- A new conflict record keeps the host it was made for. -/
theorem keeps_new (hC : C.Correct) (hJ : J.Lawful C) {st : Store} (he : Enrolled C m st)
    {w : Mutation} {source mutation sourceID : ID} {head env : Envelope} {now : String}
    {p q : HostPayload}
    (hseal : SealedBy C m.writerFor w (C.canonical (.conflictPayload
      (keptHost C source head mutation now (J.marshalHost p)))) env) (hlive : w.deleted = false)
    (hshort : ShortRow C m env) :
    m.keeps C J st sourceID (J.marshalHost q) env =
      .ok (decide (source = sourceID ∧ J.host.canonical p = J.host.canonical q)) := by
  have hread := hJ.conflict _ (hshort.2 _ (hseal.plaintext hC)) (some (J.host.canonical p))
    ⟨hJ.marshal_ne_nil p, _, hJ.raw_marshal p, rfl⟩
  have hopen : (m.readerFor C st).openInto C J.readConflict zeroConflict env = .ok _ :=
    hseal.openInto hC he hlive hread
  simp only [keeps, hopen, Except.bind_ok', keptHost, Bool.false_eq_true, or_false, ne_eq]
  by_cases hsource : source = sourceID
  · simp only [hsource, not_true_eq_false, if_false, Option.getD_some, sameCanonicalJSON,
      hJ.value_canonical, hJ.value_marshal, Except.bind_ok', Except.pure_eq_ok, true_and]
  · simp only [hsource, not_false_eq_true, if_true, false_and, decide_false, Except.pure_eq_ok]

theorem keeps_congr {st st' : Store} (hdevices : st'.devices = st.devices) (sourceID : ID)
    (candidate : Bytes) (env : Envelope) :
    m.keeps C J st' sourceID candidate env = m.keeps C J st sourceID candidate env := by
  rw [keeps, keeps, readerFor_congr hdevices]

section

variable {st st' : Store} {hosts : List HostView} {now : String} {draws : ℕ → ImportDraw}
  {l : List (HostPayload × ℕ)} {turns : List (ImportOutcome × Option Envelope)}
  (hC : C.Correct) (hJ : J.Lawful C) (hfiled : st.Filed) (he : Enrolled C m st)
  (hturns : List.Forall₂ (fun x t => Turn C J m st hosts now x.1 (draws x.2) t) l turns)
  (hnone : ∀ env ∈ turns.filterMap Prod.snd, st.head env.context.recordID = none)
  (hadded : Added (turns.filterMap Prod.snd) st st')
  (hshort : ∀ env ∈ turns.filterMap Prod.snd, ShortRow C m env)

include hfiled hnone hadded hshort in
/-- The conflict records afterwards are those that were there and new ones. -/
theorem liveRecords_added {rows : List Envelope}
    (hrows : st.liveRecords .conflictMetadata = .ok rows) :
    ∃ rows', st'.liveRecords .conflictMetadata = .ok rows' ∧ rows ⊆ rows' ∧
      (∀ x ∈ rows', x ∈ rows ∨ x ∈ turns.filterMap Prod.snd ∧
        x.context.recordType = .conflictMetadata) ∧
      ∀ env ∈ turns.filterMap Prod.snd, env.context.recordType = .conflictMetadata →
        env.context.deleted = false → env ∈ rows' := by
  obtain ⟨hmem, hrowShort, -⟩ := Store.liveRecords_ok hfiled hrows
  obtain ⟨rows', hrows'⟩ : ∃ rows', st'.liveRecords .conflictMetadata = .ok rows' := by
    refine Store.exists_liveRecords fun id env hhead htype hlive => ?_
    by_cases hid : id ∈ (turns.filterMap Prod.snd).map (·.context.recordID)
    · obtain ⟨env', henv', rfl⟩ := List.mem_map.1 hid
      obtain rfl : env = env' := Option.some.inj (hhead.symm.trans (hadded.new env' henv'))
      exact (hshort env henv').1
    · rw [hadded.old id hid] at hhead
      obtain rfl := hfiled id env hhead
      exact hrowShort env ((hmem env).2 ⟨hhead, htype, hlive⟩)
  obtain ⟨hmem', -, -⟩ := Store.liveRecords_ok (hadded.filed hfiled) hrows'
  refine ⟨rows', hrows', fun x hx => ?_, fun x hx => ?_, fun env henv htype hlive => ?_⟩
  · obtain ⟨hhead, hx⟩ := (hmem x).1 hx
    refine (hmem' x).2 ⟨?_, hx⟩
    rw [hadded.old _ fun hid => ?_]
    · exact hhead
    · obtain ⟨env, henv, heq⟩ := List.mem_map.1 hid
      have := hnone env henv
      rw [heq, hhead] at this
      cases this
  · obtain ⟨hhead, htype, hlive⟩ := (hmem' x).1 hx
    by_cases hid : x.context.recordID ∈ (turns.filterMap Prod.snd).map (·.context.recordID)
    · obtain ⟨env, henv, heq⟩ := List.mem_map.1 hid
      have hrow := hadded.new env henv
      rw [heq, hhead] at hrow
      rw [Option.some.inj hrow] at htype ⊢
      exact .inr ⟨henv, htype⟩
    · exact .inl ((hmem x).2 ⟨hadded.old _ hid ▸ hhead, htype, hlive⟩)
  · exact (hmem' env).2 ⟨hadded.new env henv, htype, hlive⟩

include hC hJ he hturns hadded hshort in
/-- Every new conflict record can be compared with a host. -/
theorem exists_keeps (sourceID : ID) (q : HostPayload) {env : Envelope}
    (henv : env ∈ turns.filterMap Prod.snd) (htype : env.context.recordType = .conflictMetadata) :
    ∃ found, m.keeps C J st' sourceID (J.marshalHost q) env = .ok found := by
  obtain ⟨x, -, o, hturn⟩ := exists_turn hturns henv
  cases hturn with
  | created _ hseal =>
    rw [hseal.context] at htype
    exact absurd htype RecordType.noConfusion
  | preserved _ _ _ _ hseal =>
    exact ⟨_, keeps_new hC hJ (he.congr hadded.same.devices) hseal rfl (hshort env henv)⟩

include hC hJ hfiled he hturns hnone hadded hshort in
/-- A host that differs is found in a conflict record afterwards. -/
theorem preserved_afterwards {p : HostPayload} {d : ImportDraw} {t : ImportOutcome × Option Envelope}
    (hturn : Turn C J m st hosts now p d t) (ht : t ∈ turns) {current : HostView}
    (hfound : (existingOf hosts).lookup p.hostAlias = some current)
    (hdifferent : sameHost current p = false) :
    m.conflictAlreadyPreserved C J st' current.recordID (J.marshalHost p) = .ok true := by
  rw [conflictAlreadyPreserved_iff (hadded.filed hfiled)]
  have hcongr := keeps_congr (C := C) (J := J) (m := m) hadded.same.devices current.recordID
    (J.marshalHost p)
  have hnew : ∀ env ∈ turns.filterMap Prod.snd, env.context.recordType = .conflictMetadata →
      ∃ found, m.keeps C J st' current.recordID (J.marshalHost p) env = .ok found :=
    fun env henv htype => exists_keeps hC hJ he hturns hadded hshort current.recordID p henv htype
  cases hturn with
  | created hname _ => exact absurd hfound (by rw [lookup_existingOf_eq_none.2 hname]; simp)
  | unchanged hfound' hsame =>
    cases hfound.symm.trans hfound'
    simp [hsame] at hdifferent
  | duplicate hfound' _ hpreserved =>
    cases hfound.symm.trans hfound'
    obtain ⟨rows, hrows, e, he, hkeeps, hbefore⟩ := (conflictAlreadyPreserved_iff hfiled).1 hpreserved
    obtain ⟨rows', hrows', hsub, hmem, -⟩ := liveRecords_added hfiled hnone hadded hshort hrows
    refine ⟨rows', hrows', e, hsub he, (hcongr e).trans hkeeps, fun x hx hlt => ?_⟩
    rcases hmem x hx with hx | ⟨hx, htype⟩
    · rw [hcongr]
      exact hbefore x hx hlt
    · exact hnew x hx htype
  | @preserved current' head env hfound' _ hunpreserved _ hseal =>
    cases hfound.symm.trans hfound'
    simp only [conflictAlreadyPreserved, Except.bind_eq_ok] at hunpreserved
    obtain ⟨rows, hrows, hscan⟩ := hunpreserved
    obtain ⟨rows', hrows', -, hmem, hadd⟩ := liveRecords_added hfiled hnone hadded hshort hrows
    have henv : env ∈ turns.filterMap Prod.snd := List.mem_filterMap.2 ⟨_, ht, rfl⟩
    refine ⟨rows', hrows', env, hadd env henv (by rw [hseal.context]; rfl) (by rw [hseal.context]; rfl),
      ?_, fun x hx _ => ?_⟩
    · rw [keeps_new hC hJ (he.congr hadded.same.devices) hseal rfl (hshort env henv)]
      simp
    · rcases hmem x hx with hx | ⟨hx, htype⟩
      · rw [hcongr]
        exact ⟨false, preservedIn_false hscan x hx⟩
      · exact hnew x hx htype

end

/-! ## The second import -/

/-- What the second import reports for a host. -/
structure Again (first second : ImportOutcome) : Prop where
  hostAlias : second.hostAlias = first.hostAlias
  unchanged : first.action ≠ .conflict → second.action = .unchanged
  conflict : first.action = .conflict → second.action = .conflict ∧
    second.detail = "already preserved; resolve it with: sshstate conflicts"

/-- A host is the same as what was imported. -/
theorem sameHost_view {p : HostPayload} (hvalid : p.validate = .ok ()) (id : ID) :
    sameHost (p.view id) p = true := by
  have hport : 1 ≤ p.port := by
    simp only [HostPayload.validate, Except.bind_eq_ok, Except.require_eq_ok] at hvalid
    obtain ⟨-, -, -, -, -, -, -, -, -, -, -, -, -, hport, -⟩ := hvalid
    exact hport.1
  have hnat : ((p.port.toNat : ℕ) : ℤ) = p.port := Int.toNat_of_nonneg (by omega)
  simp [sameHost, HostPayload.view, hnat]

section

variable {st st' : Store} {hosts : List HostView} {keys : List KeyView} {specs : List HostSpec}
  {now : String} {draws : ℕ → ImportDraw} {turns : List (ImportOutcome × Option Envelope)}
  (hC : C.Correct) (hJ : J.Lawful C) (hfiled : st.Filed) (he : Enrolled C m st)
  (hhosts : m.hostsLocked C J st = .ok hosts) (hkeys : m.keysLocked C J st = .ok keys)
  (halias : (hosts.map HostView.hostAlias).Nodup)
  (himport : Importable hosts (keys.map KeyView.recordID) specs)
  (hfresh : m.Fresh C st draws specs.length)
  (hturns : List.Forall₂ (fun x t => Turn C J m st hosts now x.1 (draws x.2) t)
    (specs.map HostSpec.payload).zipIdx turns)
  (hadded : Added (turns.filterMap Prod.snd) st st')
  (hshort : ∀ env ∈ turns.filterMap Prod.snd, ShortRow C m env)
include hC hJ hfiled he hhosts halias himport hfresh hturns hadded hshort

omit hhosts halias in
/-- A turn of the second import writes nothing. -/
theorem Turn.again {hosts' : List HostView} (halias' : (hosts'.map HostView.hostAlias).Nodup)
    (hsub : hosts ⊆ hosts')
    (hcreated : ∀ id p, (id, p) ∈ createdHosts hosts draws (specs.map HostSpec.payload) →
      p.view id ∈ hosts') (now' : String) (d : ImportDraw) {x : HostPayload × ℕ}
    (hx : x ∈ (specs.map HostSpec.payload).zipIdx) {t : ImportOutcome × Option Envelope}
    (ht : t ∈ turns) (hturn : Turn C J m st hosts now x.1 (draws x.2) t) :
    ∃ t', m.importHost C J st' hosts' now' x.1 d = .ok t' ∧ t'.2 = none ∧ Again t.1 t'.1 := by
  obtain ⟨p, i⟩ := x
  have hw := writes_of_turns hC hfresh hturns
  -- a host that was there is found again
  have hstays : ∀ {current}, (existingOf hosts).lookup p.hostAlias = some current →
      (existingOf hosts').lookup p.hostAlias = some current := fun hfound => by
    obtain ⟨hmem, hname⟩ := mem_of_lookup_existingOf hfound
    exact (lookup_existingOf halias').2 ⟨hsub hmem, hname⟩
  have hconflict : ∀ {current}, (existingOf hosts).lookup p.hostAlias = some current →
      sameHost current p = false →
      m.conflictAlreadyPreserved C J st' current.recordID (J.marshalHost p) = .ok true :=
    fun hfound hdifferent =>
      preserved_afterwards hC hJ hfiled he hturns hw.none hadded hshort hturn ht hfound hdifferent
  rw [importHost]
  cases hturn with
  | created hname _ =>
    have hmem := hcreated _ p (mem_createdHosts.2 ⟨i, hx, hname, rfl⟩)
    obtain ⟨spec, hspec, rfl⟩ := List.mem_map.1 (List.fst_mem_of_mem_zipIdx hx)
    have hlookup := (lookup_existingOf halias' (a := spec.payload.hostAlias)).2 ⟨hmem, rfl⟩
    simp only [hlookup, sameHost_view (himport.valid spec hspec), if_true]
    exact ⟨_, rfl, rfl, rfl, fun _ => rfl, fun h => by cases h⟩
  | unchanged hfound hsame =>
    simp only [hstays hfound, hsame, if_true]
    exact ⟨_, rfl, rfl, rfl, fun _ => rfl, fun h => by cases h⟩
  | duplicate hfound hdifferent _ =>
    simp only [hstays hfound, hdifferent, hconflict hfound hdifferent, Bool.false_eq_true, if_false,
      Except.bind_ok', if_true]
    exact ⟨_, rfl, rfl, rfl, fun h => absurd rfl h, fun _ => ⟨rfl, rfl⟩⟩
  | preserved hfound hdifferent _ _ _ =>
    simp only [hstays hfound, hdifferent, hconflict hfound hdifferent, Bool.false_eq_true, if_false,
      Except.bind_ok', if_true]
    exact ⟨_, rfl, rfl, rfl, fun h => absurd rfl h, fun _ => ⟨rfl, rfl⟩⟩

end

namespace Reimport01

open Sample (suite coding manager start newID)
open Renderable01 (draw parse)

-- `decide` evaluates whole calls
set_option maxRecDepth 8000

def spec (hostAlias hostName : List Char) : HostSpec :=
  { hostAlias := hostAlias, hostName := hostName, user := ['u'], port := 22, proxyJump := none,
    keyIDs := [] }

def addHostCall : Call :=
  .addHost (spec ['a'] ['h']) (newID 0x20 Sample.valid_20) (draw 0x21 Sample.valid_21)

/-- A vault with one host. -/
def st : Store := manager.call suite coding start addHostCall

/-- The host with another name, and a new one. -/
def specs : List HostSpec := [spec ['a'] ['g'], spec ['b'] ['h']]

def draws : ℕ → ImportDraw
  | 0 => ⟨newID 0x22 Sample.valid_22, draw 0x23 Sample.valid_23⟩
  | _ => ⟨newID 0x24 Sample.valid_24, draw 0x25 Sample.valid_25⟩

def imported : Store × Except Error (List ImportOutcome) :=
  manager.importHosts suite coding st specs false "t1" draws fun _ => none

end Reimport01

end Manager

end Sshstate.Vault
