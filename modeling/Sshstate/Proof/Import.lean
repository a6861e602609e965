/-
  What an import of hosts does.

  Its checks pass exactly for a list that is in order (`importChecks_eq_nil`), a turn of its
  loop is one of four (`Turn`), and its writes install the new records and nothing else
  (`Added`).  So an import keeps the vault sane (`Sane.importHosts`): the new hosts are put into
  the directory together, since they may jump through one another.
-/
import Sshstate.Proof.Edits

namespace Sshstate.Vault

open Relation (TransGen)

variable {C : Suite} {J : Coding} {G : KeyPayload → Prop} {m : Manager}

namespace Manager

/-! ## The checks -/

/-- Hosts that can be imported, next to `hosts` and with the keys `known`. -/
structure Importable (hosts : List HostView) (known : List ID) (specs : List HostSpec) : Prop where
  nodup : (specs.map HostSpec.hostAlias).Nodup
  valid : ∀ spec ∈ specs, spec.payload.validate = .ok ()
  keys : ∀ spec ∈ specs, ∀ k ∈ spec.keyIDs, k ∈ known
  jump : ∀ spec ∈ specs, ∀ a, spec.proxyJump = some a →
    a ∈ hosts.map HostView.hostAlias ∨ a ∈ specs.map HostSpec.hostAlias
  loop : ∀ spec ∈ specs, spec.hostAlias ∉ hosts.map HostView.hostAlias → spec.proxyJump.isSome →
    ¬ TransGen (Jumps (importJumps hosts (specs.map HostSpec.payload))) spec.hostAlias spec.hostAlias

/-- The first loop: what it finds, and what it has if it finds no problem. -/
theorem importSpecs_ok (known : List ID) (specs : List HostSpec) :
    let s := specs.foldl (importSpec known) { payloads := [], seen := [], problems := [] }
    (s.problems = [] ↔ (specs.map HostSpec.hostAlias).Nodup ∧
      ∀ spec ∈ specs, spec.payload.validate = .ok () ∧ ∀ k ∈ spec.keyIDs, k ∈ known) ∧
    (s.problems = [] → s.payloads = specs.map HostSpec.payload) ∧
    ∀ a, a ∈ s.seen ↔ a ∈ specs.map HostSpec.hostAlias := by
  induction specs using List.reverseRecOn with
  | nil => simp
  | append_singleton specs spec ih =>
    obtain ⟨hproblems, hpayloads, hseen⟩ := ih
    simp only [List.foldl_append, List.foldl_cons, List.foldl_nil, List.map_append, List.map_cons,
      List.map_nil, List.nodup_append, List.mem_append, List.mem_singleton, or_imp, forall_and,
      forall_eq]
    generalize specs.foldl (importSpec known) { payloads := [], seen := [], problems := [] } = s at *
    rw [importSpec]
    by_cases htwice : spec.hostAlias ∈ s.seen
    · have hmem := (hseen _).1 htwice
      simp only [if_pos htwice, List.append_eq_nil_iff, List.cons_ne_nil, and_false, false_imp_iff,
        true_and, false_iff]
      refine ⟨fun h => h.1.2.2 _ hmem rfl, fun a => ?_⟩
      rw [hseen]
      exact ⟨.inl, fun h => h.elim id fun h => h ▸ hmem⟩
    · have hmem := mt (hseen _).2 htwice
      have hnames : ∀ a ∈ specs.map HostSpec.hostAlias, a ≠ spec.hostAlias :=
        fun a ha heq => hmem (heq ▸ ha)
      have hcons : ∀ a, a ∈ spec.hostAlias :: s.seen ↔
          a ∈ specs.map HostSpec.hostAlias ∨ a = spec.hostAlias := fun a => by
        rw [List.mem_cons, hseen, or_comm]
      rw [if_neg htwice]
      cases hvalid : spec.payload.validate with
      | error err => simp [hcons]
      | ok u =>
        simp only [List.append_eq_nil_iff, List.map_eq_nil_iff, List.filter_eq_nil_iff,
          decide_eq_true_eq, not_not, hproblems, hcons]
        refine ⟨?_, fun h => by rw [hpayloads (hproblems.2 h.1)], fun _ => trivial⟩
        constructor
        · rintro ⟨⟨hnodup, hall⟩, hkeys⟩
          exact ⟨⟨hnodup, by simp, hnames⟩, ⟨fun x hx => (hall x hx).1, trivial⟩,
            fun x hx => (hall x hx).2, hkeys⟩
        · rintro ⟨⟨hnodup, -⟩, ⟨hvalid, -⟩, hkeys, hkey⟩
          exact ⟨⟨hnodup, fun x hx => ⟨hvalid x hx, hkeys x hx⟩⟩, hkey⟩

/-! ## The map of the hosts in the vault -/

section

variable {hosts : List HostView} {a : List Char}

theorem lookup_existingOf_eq_none :
    (existingOf hosts).lookup a = none ↔ a ∉ hosts.map HostView.hostAlias := by
  rw [existingOf, Daemon.foldl_put, List.append_nil, List.lookup_eq_none_iff]
  simp only [List.mem_reverse, List.mem_map, forall_exists_index, and_imp, forall_apply_eq_imp_iff₂,
    not_exists, not_and, bne_iff_ne, ne_eq]
  exact forall₂_congr fun h _ => not_congr eq_comm

theorem mem_of_lookup_existingOf {h : HostView} (hlookup : (existingOf hosts).lookup a = some h) :
    h ∈ hosts ∧ h.hostAlias = a := by
  rw [existingOf, Daemon.foldl_put, List.append_nil] at hlookup
  have hmem := mem_of_lookup hlookup
  simp only [List.mem_reverse, List.mem_map, Prod.mk.injEq] at hmem
  obtain ⟨h', hh', rfl, rfl⟩ := hmem
  exact ⟨hh', rfl⟩

theorem lookup_existingOf (halias : (hosts.map HostView.hostAlias).Nodup) {h : HostView} :
    (existingOf hosts).lookup a = some h ↔ h ∈ hosts ∧ h.hostAlias = a :=
  Daemon.lookup_uniqueOf halias

theorem mem_newHosts {payloads : List HostPayload} {p : HostPayload} :
    p ∈ newHosts (existingOf hosts) payloads ↔
      p ∈ payloads ∧ p.hostAlias ∉ hosts.map HostView.hostAlias := by
  rw [newHosts, List.mem_filter, Option.isNone_iff_eq_none, lookup_existingOf_eq_none]

end

/-- The entries of the map `jumps`. -/
theorem lookup_importJumps {hosts : List HostView} {payloads : List HostPayload}
    (halias : (hosts.map HostView.hostAlias).Nodup)
    (hnodup : (payloads.map HostPayload.hostAlias).Nodup) {a : List Char}
    {jump : Option (List Char)} :
    (importJumps hosts payloads).lookup a = some jump ↔
      (∃ p ∈ payloads, p.hostAlias ∉ hosts.map HostView.hostAlias ∧ p.hostAlias = a ∧
        p.proxyJump = jump) ∨
      ∃ h ∈ hosts, h.hostAlias = a ∧ h.proxyJump = jump := by
  rw [importJumps, jumpsOf, Daemon.foldl_put, Daemon.foldl_put, List.append_nil, lookup_eq_some]
  · simp only [List.mem_append, List.mem_reverse, List.mem_map, mem_newHosts, Prod.mk.injEq,
      and_assoc]
  · simp only [List.map_append, List.map_reverse, List.map_map]
    have hnew : ((newHosts (existingOf hosts) payloads).map HostPayload.hostAlias).Nodup :=
      hnodup.sublist (List.filter_sublist.map _)
    refine List.Nodup.append (List.nodup_reverse.2 hnew) (List.nodup_reverse.2 halias) ?_
    intro a ha ha'
    obtain ⟨p, hp, rfl⟩ := List.mem_map.1 (List.mem_reverse.1 ha)
    exact (mem_newHosts.1 hp).2 (List.mem_reverse.1 ha')

/-- The checks find no problem exactly if the hosts can be imported. -/
theorem importChecks_eq_nil {hosts : List HostView} {known : List ID} {specs : List HostSpec} :
    (importChecks hosts known specs).2 = [] ↔ Importable hosts known specs := by
  obtain ⟨hproblems, hpayloads, hseen⟩ := importSpecs_ok known specs
  rw [importChecks]
  generalize specs.foldl (importSpec known) { payloads := [], seen := [], problems := [] } = s at *
  have hjumps : s.payloads = specs.map HostSpec.payload → (jumpProblems (existingOf hosts) s = [] ↔
      ∀ spec ∈ specs, ∀ a, spec.proxyJump = some a →
        a ∈ hosts.map HostView.hostAlias ∨ a ∈ specs.map HostSpec.hostAlias) := fun hs => by
    rw [jumpProblems, hs, List.filterMap_eq_nil_iff, List.forall_mem_map]
    refine forall₂_congr fun spec _ => ?_
    have hpayload : spec.payload.proxyJump = spec.proxyJump := rfl
    rw [hpayload]
    cases spec.proxyJump with
    | none => simp
    | some jump =>
      have hfound : (existingOf hosts).lookup jump ≠ none ↔ jump ∈ hosts.map HostView.hostAlias := by
        rw [Ne, lookup_existingOf_eq_none, not_not]
      simp only [Option.isSome_iff_ne_none, hfound, hseen, Option.some.injEq, forall_eq']
      split_ifs with h
      · exact iff_of_true rfl h
      · exact iff_of_false (by simp) h
  have hloops : s.payloads = specs.map HostSpec.payload → (loopProblems hosts s.payloads = [] ↔
      ∀ spec ∈ specs, spec.hostAlias ∉ hosts.map HostView.hostAlias → spec.proxyJump.isSome →
        ¬ TransGen (Jumps (importJumps hosts (specs.map HostSpec.payload))) spec.hostAlias
          spec.hostAlias) := fun hs => by
    rw [loopProblems, hs, List.filterMap_eq_nil_iff]
    simp only [mem_newHosts, and_imp, List.forall_mem_map]
    refine forall₃_congr fun spec _ _ => ?_
    split_ifs with h
    · exact iff_of_false (by simp) fun h' => h' h.1 (jumpCycle_iff.1 h.2)
    · exact iff_of_true rfl fun hsome hback => h ⟨hsome, jumpCycle_iff.2 hback⟩
  simp only [List.append_eq_nil_iff]
  constructor
  · rintro ⟨⟨h, hjump⟩, hloop⟩
    obtain ⟨hnodup, hall⟩ := hproblems.1 h
    exact ⟨hnodup, fun spec hspec => (hall spec hspec).1, fun spec hspec => (hall spec hspec).2,
      (hjumps (hpayloads h)).1 hjump, (hloops (hpayloads h)).1 hloop⟩
  · intro h
    have hnone := hproblems.2 ⟨h.nodup, fun spec hspec => ⟨h.valid spec hspec, h.keys spec hspec⟩⟩
    exact ⟨⟨hnone, (hjumps (hpayloads hnone)).2 h.jump⟩, (hloops (hpayloads hnone)).2 h.loop⟩

/-- The payloads of an import without problems. -/
theorem Importable.payloads {hosts : List HostView} {known : List ID} {specs : List HostSpec}
    (h : Importable hosts known specs) :
    (importChecks hosts known specs).1 = specs.map HostSpec.payload := by
  obtain ⟨hproblems, hpayloads, -⟩ := importSpecs_ok known specs
  exact hpayloads (hproblems.2 ⟨h.nodup, fun spec hspec => ⟨h.valid spec hspec, h.keys spec hspec⟩⟩)

/-! ## A turn of the loop -/

/-- What a conflict record keeps of an imported host. -/
def keptHost (C : Suite) (source : ID) (head : Envelope) (candidateMutation : ID) (now : String)
    (candidate : Bytes) : ConflictPayload :=
  { formatVersion := payloadFormatVersion, sourceRecordID := source,
    sourceRecordType := head.context.recordType, sourceMutationID := candidateMutation,
    observedHeadDigest := some (head.digest C), preservedAt := now, candidate := some candidate,
    removal := false }

theorem priorVersion_ok {st : Store} {id : ID} {x : ℕ × Option Bytes}
    (h : priorVersion C st id = .ok x) : x = nextVersion C st id := by
  rw [priorVersion] at h
  rw [nextVersion]
  cases hhead : st.head id with
  | none =>
    simp only [hhead, Except.ok.injEq] at h
    exact h.symm
  | some prior =>
    simp only [hhead, Except.bind_eq_ok, Store.decodeRow_eq_ok, Except.pure_eq_ok,
      Except.ok.injEq] at h
    obtain ⟨_, ⟨-, rfl⟩, rfl⟩ := h
    rfl

theorem preserveImported_ok {st : Store} {source : ID} {candidate : Bytes} {now : String}
    {mutation : NewID} {d : Draw} {env : Envelope}
    (h : m.preserveImported C st source candidate now mutation d = .ok env) :
    ∃ head, st.head source = some head ∧ SealedBy C m.writerFor
      { recordID := conflictIDOf C m.vaultID source mutation.id, recordType := .conflictMetadata,
        rev := (nextVersion C st (conflictIDOf C m.vaultID source mutation.id)).1,
        parentDigest := (nextVersion C st (conflictIDOf C m.vaultID source mutation.id)).2,
        mutationID := d.mutationID.id, deleted := false }
      (C.canonical (.conflictPayload (keptHost C source head mutation.id now candidate))) env := by
  simp only [preserveImported, Except.bind_eq_ok, Prod.exists, Store.headRow_eq_ok,
    conflictID_eq_ok] at h
  obtain ⟨head, _, ⟨hhead, -, rfl⟩, _, ⟨-, -, -, rfl⟩, _, -, rev, parent, hprior, hseal⟩ := h
  obtain ⟨p, hp, hseal⟩ := sealRecord_ok hseal
  cases hp
  rw [← priorVersion_ok hprior]
  exact ⟨head, hhead, hseal⟩

/-- A turn of the loop for the host `p`: what it reports and what is to be written. -/
inductive Turn (C : Suite) (J : Coding) (m : Manager) (st : Store) (hosts : List HostView)
    (now : String) (p : HostPayload) (d : ImportDraw) : ImportOutcome × Option Envelope → Prop
  | created {env : Envelope} (new : p.hostAlias ∉ hosts.map HostView.hostAlias)
      (sealed : SealedBy C m.writerFor
        { recordID := d.id.id, recordType := .host, rev := 1, parentDigest := none,
          mutationID := d.draw.mutationID.id, deleted := false } (J.host.canonical p) env) :
      Turn C J m st hosts now p d (⟨p.hostAlias, .created, d.id.id, ""⟩, some env)
  | unchanged {current : HostView} (found : (existingOf hosts).lookup p.hostAlias = some current)
      (same : sameHost current p = true) :
      Turn C J m st hosts now p d (⟨p.hostAlias, .unchanged, current.recordID, ""⟩, none)
  | duplicate {current : HostView} (found : (existingOf hosts).lookup p.hostAlias = some current)
      (different : sameHost current p = false)
      (preserved : m.conflictAlreadyPreserved C J st current.recordID (J.marshalHost p) = .ok true) :
      Turn C J m st hosts now p d (⟨p.hostAlias, .conflict, current.recordID,
        "already preserved; resolve it with: sshstate conflicts"⟩, none)
  | preserved {current : HostView} {head env : Envelope}
      (found : (existingOf hosts).lookup p.hostAlias = some current)
      (different : sameHost current p = false)
      (unpreserved :
        m.conflictAlreadyPreserved C J st current.recordID (J.marshalHost p) = .ok false)
      (stored : st.head current.recordID = some head)
      (sealed : SealedBy C m.writerFor
        { recordID := conflictIDOf C m.vaultID current.recordID d.id.id,
          recordType := .conflictMetadata,
          rev := (nextVersion C st (conflictIDOf C m.vaultID current.recordID d.id.id)).1,
          parentDigest := (nextVersion C st (conflictIDOf C m.vaultID current.recordID d.id.id)).2,
          mutationID := d.draw.mutationID.id, deleted := false }
        (C.canonical (.conflictPayload
          (keptHost C current.recordID head d.id.id now (J.marshalHost p)))) env) :
      Turn C J m st hosts now p d (⟨p.hostAlias, .conflict, current.recordID,
        "the vault's version was kept; review with: sshstate conflicts"⟩, some env)

section

variable {st : Store} {hosts : List HostView} {now : String}

theorem importHost_ok {p : HostPayload} {d : ImportDraw} {t : ImportOutcome × Option Envelope}
    (h : m.importHost C J st hosts now p d = .ok t) : Turn C J m st hosts now p d t := by
  rw [importHost] at h
  cases hfound : (existingOf hosts).lookup p.hostAlias with
  | none =>
    simp only [hfound, Except.bind_eq_ok, Except.pure_eq_ok, Except.ok.injEq] at h
    obtain ⟨env, henv, rfl⟩ := h
    exact .created (lookup_existingOf_eq_none.1 hfound) (createRecord_ok henv)
  | some current =>
    simp only [hfound] at h
    rcases Bool.eq_false_or_eq_true (sameHost current p) with hsame | hsame
    · simp only [hsame, if_true, Except.ok.injEq] at h
      exact h ▸ .unchanged hfound hsame
    · simp only [hsame, Bool.false_eq_true, if_false, Except.bind_eq_ok] at h
      obtain ⟨duplicate, hduplicate, h⟩ := h
      cases duplicate with
      | true =>
        simp only [if_true, Except.pure_eq_ok, Except.ok.injEq] at h
        exact h ▸ .duplicate hfound hsame hduplicate
      | false =>
        simp only [Bool.false_eq_true, if_false, Except.bind_eq_ok, Except.pure_eq_ok,
          Except.ok.injEq] at h
        obtain ⟨env, henv, rfl⟩ := h
        obtain ⟨head, hhead, hseal⟩ := preserveImported_ok henv
        exact .preserved hfound hsame hduplicate hhead hseal

/-- `ImportHosts` up to its first write: the hosts can be imported, and there is a turn for each
    of them. -/
theorem importPlan_ok {specs : List HostSpec} {draws : ℕ → ImportDraw}
    {outcomes : List ImportOutcome} {envs : List Envelope}
    (h : m.importPlan C J st specs now draws = .ok (outcomes, envs)) :
    ∃ hosts keys turns, m.hostsLocked C J st = .ok hosts ∧ m.keysLocked C J st = .ok keys ∧
      Importable hosts (keys.map KeyView.recordID) specs ∧
      List.Forall₂ (fun x t => Turn C J m st hosts now x.1 (draws x.2) t)
        (specs.map HostSpec.payload).zipIdx turns ∧
      outcomes = turns.map Prod.fst ∧ envs = turns.filterMap Prod.snd := by
  simp only [importPlan, Except.bind_eq_ok, Except.require_eq_ok, Except.pure_eq_ok,
    Except.ok.injEq, Prod.mk.injEq] at h
  obtain ⟨hosts, hhosts, keys, hkeys, -, hproblems, turns, hturns, rfl, rfl⟩ := h
  have himport := importChecks_eq_nil.1 hproblems
  rw [himport.payloads, importAll, Except.mapM_eq_ok] at hturns
  exact ⟨hosts, keys, turns, hhosts, hkeys, himport, hturns.imp fun x t => importHost_ok, rfl, rfl⟩

end

/-! ## New records -/

/-- The records that the turn with these draws may write: a new host, or the conflict with a
    stored record. -/
def targets (C : Suite) (m : Manager) (st : Store) (d : ImportDraw) : List ID :=
  d.id.id :: st.records.keys.map fun source => conflictIDOf C m.vaultID source d.id.id

/-- The records of the first `n` turns are new, and no two turns write the same one. -/
structure Fresh (C : Suite) (m : Manager) (st : Store) (draws : ℕ → ImportDraw) (n : ℕ) : Prop where
  new : ∀ i < n, ∀ id ∈ targets C m st (draws i), st.head id = none
  apart : ∀ i < n, ∀ j < n, ∀ id ∈ targets C m st (draws i), id ∈ targets C m st (draws j) → i = j

instance (m : Manager) (st : Store) (draws : ℕ → ImportDraw) (n : ℕ) :
    Decidable (Fresh C m st draws n) :=
  decidable_of_iff ((∀ i < n, ∀ id ∈ targets C m st (draws i), st.head id = none) ∧
      ∀ i < n, ∀ j < n, ∀ id ∈ targets C m st (draws i), id ∈ targets C m st (draws j) → i = j)
    ⟨fun h => ⟨h.1, h.2⟩, fun h => ⟨h.new, h.apart⟩⟩

section

variable {st : Store} {hosts : List HostView} {now : String} {draws : ℕ → ImportDraw} {n : ℕ}

/-- The record that a turn writes, if it is new: its first version, of a host or of a conflict. -/
theorem Turn.written {p : HostPayload} {d : ImportDraw} {o : ImportOutcome} {env : Envelope}
    (hC : C.Correct) (h : Turn C J m st hosts now p d (o, some env))
    (hnew : ∀ id ∈ targets C m st d, st.head id = none) :
    env.context.recordID ∈ targets C m st d ∧ env.Valid ∧ env.context.rev = 1 ∧
      env.context.recordType ≠ .key ∧ env.context.mutationID = d.draw.mutationID.id ∧
      (env.context.recordType = .host → env.context.recordID = d.id.id ∧
        p.hostAlias ∉ hosts.map HostView.hostAlias ∧ ∃ w : Mutation, w.recordType = .host ∧
          w.deleted = false ∧ SealedBy C m.writerFor w (J.host.canonical p) env) := by
  cases h with
  | created new hseal =>
    have hcontext := hseal.context
    exact ⟨List.mem_cons.2 (.inl (by rw [hcontext]; rfl)), hseal.envelope_valid hC, by rw [hcontext]; rfl,
      by rw [hcontext]; exact RecordType.noConfusion, by rw [hcontext]; rfl,
      fun _ => ⟨by rw [hcontext]; rfl, new, _, rfl, rfl, hseal⟩⟩
  | preserved found different unpreserved stored hseal =>
    have hcontext := hseal.context
    have htarget : env.context.recordID ∈ targets C m st d := by
      refine List.mem_cons_of_mem _ (List.mem_map.2 ⟨_, ?_, by rw [hcontext]; rfl⟩)
      exact AList.mem_keys.1 (AList.lookup_isSome.1 (by rw [Store.head] at stored; rw [stored]; rfl))
    have hnone := hnew _ htarget
    refine ⟨htarget, hseal.envelope_valid hC, ?_, by rw [hcontext]; exact RecordType.noConfusion,
      by rw [hcontext]; rfl, fun hhost => ?_⟩
    · rw [hcontext] at hnone ⊢
      simp only [Writer.context, nextVersion] at hnone ⊢
      rw [hnone]
    · rw [hcontext] at hhost
      exact absurd hhost RecordType.noConfusion

section

variable (hC : C.Correct) (hfresh : Fresh C m st draws n) {l : List (HostPayload × ℕ)}
  {turns : List (ImportOutcome × Option Envelope)}
  (hturns : List.Forall₂ (fun x t => Turn C J m st hosts now x.1 (draws x.2) t) l turns)
  (hlt : ∀ x ∈ l, x.2 < n)
include hC hfresh hturns hlt

omit hC hfresh hlt in
theorem exists_turn {env : Envelope} (h : env ∈ turns.filterMap Prod.snd) :
    ∃ x ∈ l, ∃ o, Turn C J m st hosts now x.1 (draws x.2) (o, some env) := by
  obtain ⟨⟨o, e⟩, ht, rfl⟩ := List.mem_filterMap.1 h
  obtain ⟨x, hx, hturn⟩ := hturns.exists_left ht
  exact ⟨x, hx, o, hturn⟩

/-- No record is written twice. -/
theorem nodup_written (hl : (l.map Prod.snd).Nodup) :
    ((turns.filterMap Prod.snd).map (·.context.recordID)).Nodup := by
  induction hturns with
  | nil => exact List.nodup_nil
  | @cons x t l turns hturn hrest ih =>
    obtain ⟨hx, hl⟩ := List.nodup_cons.1 hl
    have hlt' : ∀ x ∈ l, x.2 < n := fun x hx => hlt x (List.mem_cons_of_mem _ hx)
    have ih := ih hlt' hl
    obtain ⟨o, _ | env⟩ := t
    · rwa [List.filterMap_cons_none rfl]
    · have hcons : ((o, some env) :: turns).filterMap Prod.snd = env :: turns.filterMap Prod.snd := rfl
      rw [hcons, List.map_cons, List.nodup_cons]
      refine ⟨fun hmem => ?_, ih⟩
      obtain ⟨env', henv', heq⟩ := List.mem_map.1 hmem
      obtain ⟨y, hy, o', hturn'⟩ := exists_turn hrest henv'
      have hxn := hlt x List.mem_cons_self
      have hyn := hlt' y hy
      have htarget := (hturn.written hC (hfresh.new x.2 hxn)).1
      have htarget' := (hturn'.written hC (hfresh.new y.2 hyn)).1
      rw [heq] at htarget'
      exact hx (List.mem_map.2 ⟨y, hy, (hfresh.apart _ hxn _ hyn _ htarget htarget').symm⟩)

end

end

/-! ## The writes -/

/-- The records `envs` are installed, and the other ones stay. -/
structure Added (envs : List Envelope) (st st' : Store) : Prop where
  same : Store.SameElse st st'
  new : ∀ env ∈ envs, st'.head env.context.recordID = some env
  old : ∀ id, id ∉ envs.map (·.context.recordID) → st'.head id = st.head id

/-- A first version of a record can be written. -/
theorem applyLocal_new {st : Store} {env : Envelope} (hvalid : env.Valid) (hrev : env.context.rev = 1)
    (hnone : st.head env.context.recordID = none) :
    ∃ st', st.applyLocalBatch C [env] = .ok st' ∧ Store.SameElse st st' ∧
      (∀ id, st'.head id = if id = env.context.recordID then some env else st.head id) ∧
      st'.outbox = (st.enqueueOutbox env).outbox := by
  refine ⟨(st.enqueueOutbox env).writeHead env (env.digest C), ?_,
    (Store.sameElse_enqueueOutbox ..).trans (Store.sameElse_writeHead ..), fun id => ?_, rfl⟩
  · have hput : (st.enqueueOutbox env).putRecord C env =
        .ok ((st.enqueueOutbox env).writeHead env (env.digest C)) :=
      Store.putRecord_ok.2 ⟨hvalid, .inr (.inl ⟨by rwa [Store.head_enqueueOutbox], hrev, rfl⟩)⟩
    rw [Store.applyLocalBatch, List.foldlM_cons, hput]
    rfl
  · rw [Store.head_writeHead, Store.head_enqueueOutbox]

/-- The writes of new records succeed. -/
theorem writeAll_new {envs : List Envelope} {st : Store} (k : ℕ)
    (hvalid : ∀ env ∈ envs, env.Valid ∧ env.context.rev = 1)
    (hnone : ∀ env ∈ envs, st.head env.context.recordID = none)
    (hnodup : (envs.map (·.context.recordID)).Nodup) :
    ∃ st', writeAll C (fun _ => none) k envs st = (st', .ok ()) ∧ Added envs st st' := by
  induction envs generalizing st k with
  | nil => exact ⟨st, rfl, .refl st, nofun, fun _ _ => rfl⟩
  | cons env envs ih =>
    obtain ⟨hnew, hnodup⟩ := List.nodup_cons.1 hnodup
    have hother : ∀ e ∈ envs, e.context.recordID ≠ env.context.recordID := fun e he heq =>
      hnew (List.mem_map.2 ⟨e, he, heq⟩)
    have henv := hvalid env List.mem_cons_self
    obtain ⟨st₁, happly, hsame, hhead, -⟩ := applyLocal_new (C := C) henv.1 henv.2
      (hnone env List.mem_cons_self)
    have hnone₁ : ∀ e ∈ envs, st₁.head e.context.recordID = none := fun e he => by
      rw [hhead, if_neg (hother e he)]
      exact hnone e (List.mem_cons_of_mem _ he)
    obtain ⟨st', hwrite, hadded⟩ := ih (k + 1) (fun e he => hvalid e (List.mem_cons_of_mem _ he))
      hnone₁ hnodup
    refine ⟨st', by rw [writeAll, happly]; exact hwrite, hsame.trans hadded.same, ?_, fun id hid => ?_⟩
    · rw [List.forall_mem_cons]
      refine ⟨?_, hadded.new⟩
      rw [hadded.old _ hnew, hhead, if_pos rfl]
    · rw [List.map_cons, List.mem_cons, not_or] at hid
      rw [hadded.old id hid.2, hhead, if_neg hid.1]

namespace Added

variable {envs : List Envelope} {st st' : Store} (h : Added envs st st')
include h

theorem filed (hfiled : st.Filed) : st'.Filed := by
  intro id e he
  by_cases hid : id ∈ envs.map (·.context.recordID)
  · obtain ⟨env, henv, rfl⟩ := List.mem_map.1 hid
    cases he.symm.trans (h.new env henv)
    rfl
  · exact hfiled id e (h.old id hid ▸ he)

variable {α : Type} {t : RecordType} {f : Form α} {validate : α → Except Error Unit}

/-- What the other records hold stays. -/
theorem holds_old {id : ID} (hid : id ∉ envs.map (·.context.recordID)) {p : α} {e : Envelope} :
    Holds C m st' t f validate id p e ↔ Holds C m st t f validate id p e :=
  ⟨fun hp => hp.congr h.same.devices.symm (h.old id hid).symm,
    fun hp => hp.congr h.same.devices (h.old id hid)⟩

/-- All records of a type hold something if the new ones do. -/
theorem allHold (hall : AllHold C m st t f validate)
    (hnew : ∀ env ∈ envs, env.context.recordType = t →
      ∃ p, Holds C m st' t f validate env.context.recordID p env) :
    AllHold C m st' t f validate := by
  intro id e he het hlive
  by_cases hid : id ∈ envs.map (·.context.recordID)
  · obtain ⟨env, henv, rfl⟩ := List.mem_map.1 hid
    obtain rfl : e = env := Option.some.inj (he.symm.trans (h.new env henv))
    exact hnew e henv het
  · obtain ⟨p, hp⟩ := hall id e (h.old id hid ▸ he) het hlive
    exact ⟨p, (h.holds_old hid).2 hp⟩

/-- New records of other types. -/
theorem holds_foreign (hnone : ∀ env ∈ envs, st.head env.context.recordID = none)
    (htype : ∀ env ∈ envs, env.context.recordType ≠ t) {id : ID} {p : α} {e : Envelope} :
    Holds C m st' t f validate id p e ↔ Holds C m st t f validate id p e := by
  by_cases hid : id ∈ envs.map (·.context.recordID)
  · obtain ⟨env, henv, rfl⟩ := List.mem_map.1 hid
    refine iff_of_false (fun hp => ?_) fun hp => ?_
    · have heq := Option.some.inj (hp.head.symm.trans (h.new env henv))
      exact htype env henv (heq ▸ hp.recordType)
    · cases hp.head.symm.trans (hnone env henv)
  · exact h.holds_old hid

end Added

/-! ## The import -/

/-- The hosts that an import creates, under their ids. -/
def createdHosts (hosts : List HostView) (draws : ℕ → ImportDraw) (payloads : List HostPayload) :
    List (ID × HostPayload) :=
  (payloads.zipIdx.filter fun x => x.1.hostAlias ∉ hosts.map HostView.hostAlias).map fun x =>
    ((draws x.2).id.id, x.1)

theorem mem_createdHosts {hosts : List HostView} {draws : ℕ → ImportDraw}
    {payloads : List HostPayload} {id : ID} {p : HostPayload} :
    (id, p) ∈ createdHosts hosts draws payloads ↔
      ∃ i, (p, i) ∈ payloads.zipIdx ∧ p.hostAlias ∉ hosts.map HostView.hostAlias ∧
        id = (draws i).id.id := by
  simp only [createdHosts, List.mem_map, List.mem_filter, decide_eq_true_eq, Prod.exists,
    Prod.mk.injEq]
  constructor
  · rintro ⟨p, i, ⟨hmem, hnew⟩, rfl, rfl⟩
    exact ⟨i, hmem, hnew, rfl⟩
  · rintro ⟨i, hmem, hnew, rfl⟩
    exact ⟨p, i, ⟨hmem, hnew⟩, rfl, rfl⟩

section

variable {st st' : Store} {hosts : List HostView} {keys : List KeyView} {now : String}
  {draws : ℕ → ImportDraw} {specs : List HostSpec} {turns : List (ImportOutcome × Option Envelope)}

/-- What is written by the turns. -/
structure Writes (C : Suite) (J : Coding) (m : Manager) (st : Store) (hosts : List HostView)
    (draws : ℕ → ImportDraw) (payloads : List HostPayload) (envs : List Envelope) : Prop where
  nodup : (envs.map (·.context.recordID)).Nodup
  none : ∀ env ∈ envs, st.head env.context.recordID = none
  first : ∀ env ∈ envs, env.Valid ∧ env.context.rev = 1
  key : ∀ env ∈ envs, env.context.recordType ≠ .key
  host : ∀ env ∈ envs, env.context.recordType = .host →
    ∃ p w, (env.context.recordID, p) ∈ createdHosts hosts draws payloads ∧
      Mutation.recordType w = .host ∧ w.deleted = false ∧
      SealedBy C m.writerFor w (J.host.canonical p) env
  created : ∀ id p, (id, p) ∈ createdHosts hosts draws payloads →
    ∃ env ∈ envs, env.context.recordID = id ∧ env.context.recordType = .host

/-- The writes of an import with new ids. -/
theorem writes_of_turns (hC : C.Correct) (hfresh : Fresh C m st draws specs.length)
    (hturns : List.Forall₂ (fun x t => Turn C J m st hosts now x.1 (draws x.2) t)
      (specs.map HostSpec.payload).zipIdx turns) :
    Writes C J m st hosts draws (specs.map HostSpec.payload) (turns.filterMap Prod.snd) := by
  have hlt : ∀ x ∈ (specs.map HostSpec.payload).zipIdx, x.2 < specs.length := fun x hx => by
    have := List.snd_lt_of_mem_zipIdx hx
    simpa using this
  have hnodup : ((specs.map HostSpec.payload).zipIdx.map Prod.snd).Nodup := by
    rw [List.zipIdx_map_snd]
    exact List.nodup_range'
  have hwritten : ∀ env ∈ turns.filterMap Prod.snd, ∃ x ∈ (specs.map HostSpec.payload).zipIdx, ∃ o,
      Turn C J m st hosts now x.1 (draws x.2) (o, some env) ∧
        ∀ id ∈ targets C m st (draws x.2), st.head id = none := fun env henv => by
    obtain ⟨x, hx, o, hturn⟩ := exists_turn hturns henv
    exact ⟨x, hx, o, hturn, hfresh.new x.2 (hlt x hx)⟩
  refine ⟨nodup_written hC hfresh hturns hlt hnodup, ?_, ?_, ?_, ?_, ?_⟩
  · intro env henv
    obtain ⟨x, -, o, hturn, hnew⟩ := hwritten env henv
    exact hnew _ (hturn.written hC hnew).1
  · intro env henv
    obtain ⟨x, -, o, hturn, hnew⟩ := hwritten env henv
    obtain ⟨-, hvalid, hrev, -⟩ := hturn.written hC hnew
    exact ⟨hvalid, hrev⟩
  · intro env henv
    obtain ⟨x, -, o, hturn, hnew⟩ := hwritten env henv
    exact (hturn.written hC hnew).2.2.2.1
  · intro env henv htype
    obtain ⟨⟨p, i⟩, hx, o, hturn, hnew⟩ := hwritten env henv
    obtain ⟨hid, hname, w, hw, hlive, hseal⟩ := (hturn.written hC hnew).2.2.2.2.2 htype
    exact ⟨p, w, mem_createdHosts.2 ⟨i, hx, hname, hid⟩, hw, hlive, hseal⟩
  · intro id p hp
    obtain ⟨i, hx, hname, rfl⟩ := mem_createdHosts.1 hp
    obtain ⟨t, ht, hturn⟩ := hturns.exists_right hx
    cases hturn with
    | @created env new hseal =>
      refine ⟨env, List.mem_filterMap.2 ⟨_, ht, rfl⟩, ?_, ?_⟩ <;> rw [hseal.context] <;> rfl
    | unchanged found => exact absurd found (by rw [lookup_existingOf_eq_none.2 hname]; simp)
    | duplicate found => exact absurd found (by rw [lookup_existingOf_eq_none.2 hname]; simp)
    | preserved found => exact absurd found (by rw [lookup_existingOf_eq_none.2 hname]; simp)

section

variable {payloads : List HostPayload} {envs : List Envelope} (hC : C.Correct) (hJ : J.Lawful C)
  (he : Enrolled C m st) (hw : Writes C J m st hosts draws payloads envs)
  (hvalid : ∀ p ∈ payloads, p.validate = .ok ()) (hadded : Added envs st st')
  (hshort : ∀ env ∈ envs, ShortRow C m env)
include hC hJ he hw hvalid hadded hshort

/-- A new host record holds what was imported. -/
theorem Writes.holds {env : Envelope} (henv : env ∈ envs) (htype : env.context.recordType = .host) :
    ∃ p, (env.context.recordID, p) ∈ createdHosts hosts draws payloads ∧
      Holds C m st' .host J.host HostPayload.validate env.context.recordID p env := by
  obtain ⟨p, w, hp, hwtype, hlive, hseal⟩ := hw.host env henv htype
  obtain ⟨i, hmem, -, -⟩ := mem_createdHosts.1 hp
  have hrow := hadded.new env henv
  refine ⟨p, hp, hwtype ▸ hseal.holds hC (he.congr hadded.same.devices) hJ.host hlive
    (hvalid p (List.fst_mem_of_mem_zipIdx hmem)) hrow (hshort env henv).1 ?_⟩
  exact (hshort env henv).2 _ (hseal.plaintext hC)

/-- The hosts afterwards: the new ones, and those that were there. -/
theorem Writes.hostAt (hnodup : ((createdHosts hosts draws payloads).map Prod.fst).Nodup)
    {id : ID} {q : HostPayload} :
    HostAt C J m st' id q ↔ (id, q) ∈ createdHosts hosts draws payloads ∨ HostAt C J m st id q := by
  constructor
  · rintro ⟨e, hq⟩
    by_cases hid : id ∈ envs.map (·.context.recordID)
    · obtain ⟨env, henv, rfl⟩ := List.mem_map.1 hid
      obtain rfl : e = env := Option.some.inj (hq.head.symm.trans (hadded.new env henv))
      obtain ⟨p, hp, hholds⟩ := hw.holds hC hJ he hvalid hadded hshort henv hq.recordType
      exact .inl (hq.unique hholds ▸ hp)
    · exact .inr ⟨e, (hadded.holds_old hid).1 hq⟩
  · rintro (hq | ⟨e, hq⟩)
    · obtain ⟨env, henv, rfl, htype⟩ := hw.created id q hq
      obtain ⟨p, hp, hholds⟩ := hw.holds hC hJ he hvalid hadded hshort henv htype
      have heq := List.inj_on_of_nodup_map hnodup hq hp rfl
      rw [Prod.mk.injEq] at heq
      exact ⟨env, heq.2 ▸ hholds⟩
    · refine ⟨e, (hadded.holds_old fun hid => ?_).2 hq⟩
      obtain ⟨env, henv, rfl⟩ := List.mem_map.1 hid
      cases hq.head.symm.trans (hw.none env henv)

end

end

theorem nodup_createdHosts {st : Store} {hosts : List HostView} {draws : ℕ → ImportDraw}
    {specs : List HostSpec} (hfresh : Fresh C m st draws specs.length) :
    ((createdHosts hosts draws (specs.map HostSpec.payload)).map Prod.fst).Nodup := by
  rw [createdHosts, List.map_map]
  have hsnd : ((specs.map HostSpec.payload).zipIdx.map Prod.snd).Nodup := by
    rw [List.zipIdx_map_snd]
    exact List.nodup_range'
  refine (hsnd.of_map.filter _).map_on fun x hx y hy heq => ?_
  have hx := (List.mem_filter.1 hx).1
  have hy := (List.mem_filter.1 hy).1
  have hlt : ∀ x ∈ (specs.map HostSpec.payload).zipIdx, x.2 < specs.length := fun x hx => by
    simpa using List.snd_lt_of_mem_zipIdx hx
  exact List.inj_on_of_nodup_map hsnd hx hy
    (hfresh.apart _ (hlt x hx) _ (hlt y hy) _ List.mem_cons_self (List.mem_cons.2 (.inl heq)))

theorem map_zipIdx_alias (specs : List HostSpec) :
    ((specs.map HostSpec.payload).zipIdx.map fun x => x.1.hostAlias) =
      specs.map HostSpec.hostAlias := by
  have hmap := congrArg (List.map HostPayload.hostAlias)
    (List.zipIdx_map_fst 0 (specs.map HostSpec.payload))
  rw [List.map_map, List.map_map] at hmap
  exact hmap

/-- The hosts that an import creates have different aliases. -/
theorem nodup_created_aliases {hosts : List HostView} {known : List ID} {draws : ℕ → ImportDraw}
    {specs : List HostSpec} (himport : Importable hosts known specs) :
    ((createdHosts hosts draws (specs.map HostSpec.payload)).map fun x => x.2.hostAlias).Nodup := by
  have hnodup := himport.nodup
  rw [← map_zipIdx_alias specs] at hnodup
  rw [createdHosts, List.map_map]
  exact hnodup.sublist (List.filter_sublist.map _)

/-- What a successful import does: nothing, if it is a dry run, or its writes. -/
theorem importHosts_ok {st st' : Store} {specs : List HostSpec} {dryRun : Bool} {now : String}
    {draws : ℕ → ImportDraw} {outcomes : List ImportOutcome} (hC : C.Correct)
    (hfresh : Fresh C m st draws specs.length)
    (h : m.importHosts C J st specs dryRun now draws (fun _ => none) = (st', .ok outcomes)) :
    ∃ hosts keys turns, m.hostsLocked C J st = .ok hosts ∧ m.keysLocked C J st = .ok keys ∧
      Importable hosts (keys.map KeyView.recordID) specs ∧
      List.Forall₂ (fun x t => Turn C J m st hosts now x.1 (draws x.2) t)
        (specs.map HostSpec.payload).zipIdx turns ∧
      outcomes = turns.map Prod.fst ∧
      if dryRun then st' = st else Added (turns.filterMap Prod.snd) st st' := by
  rw [importHosts] at h
  cases hplan : m.importPlan C J st specs now draws with
  | error err => simp [hplan] at h
  | ok plan =>
    obtain ⟨outcomes', envs⟩ := plan
    obtain ⟨hosts, keys, turns, hhosts, hkeys, himport, hturns, rfl, rfl⟩ := importPlan_ok hplan
    refine ⟨hosts, keys, turns, hhosts, hkeys, himport, hturns, ?_⟩
    simp only [hplan] at h
    cases dryRun with
    | true =>
      simp only [if_true, Prod.mk.injEq, Except.ok.injEq] at h
      exact ⟨h.2.symm, h.1.symm⟩
    | false =>
      have hw := writes_of_turns hC hfresh hturns
      obtain ⟨st₁, hwrite, hadded⟩ := writeAll_new (C := C) 0 hw.first hw.none hw.nodup
      simp only [Bool.false_eq_true, if_false, hwrite, Prod.mk.injEq, Except.ok.injEq] at h
      obtain ⟨rfl, rfl⟩ := h
      exact ⟨rfl, hadded⟩

/-- With new ids, only a refusal ends in an error, and then nothing is written. -/
theorem importHosts_error {st st' : Store} {specs : List HostSpec} {dryRun : Bool} {now : String}
    {draws : ℕ → ImportDraw} {err : Error} (hC : C.Correct)
    (hfresh : Fresh C m st draws specs.length)
    (h : m.importHosts C J st specs dryRun now draws (fun _ => none) = (st', .error err)) :
    st' = st := by
  rw [importHosts] at h
  cases hplan : m.importPlan C J st specs now draws with
  | error err =>
    simp only [hplan, Prod.mk.injEq] at h
    exact h.1.symm
  | ok plan =>
    obtain ⟨outcomes', envs⟩ := plan
    obtain ⟨hosts, keys, turns, -, -, -, hturns, rfl, rfl⟩ := importPlan_ok hplan
    simp only [hplan] at h
    cases dryRun with
    | true => simp at h
    | false =>
      have hw := writes_of_turns hC hfresh hturns
      obtain ⟨st₁, hwrite, -⟩ := writeAll_new (C := C) 0 hw.first hw.none hw.nodup
      simp [hwrite] at h

end Manager

/-- The directory with the new hosts is tidy. -/
theorem Sane.tidy_import {st : Store} (hs : Sane C J G m st) {hosts : List HostView}
    {keys : List KeyView} (hhosts : m.hostsLocked C J st = .ok hosts)
    (hkeys : m.keysLocked C J st = .ok keys) {specs : List Manager.HostSpec}
    (himport : Manager.Importable hosts (keys.map KeyView.recordID) specs)
    {draws : ℕ → Manager.ImportDraw} (hfresh : m.Fresh C st draws specs.length)
    (hnodup : ((Manager.createdHosts hosts draws (specs.map Manager.HostSpec.payload)).map
      Prod.fst).Nodup) {H : Directory}
    (hat : ∀ id q, H id q ↔ (id, q) ∈ Manager.createdHosts hosts draws
      (specs.map Manager.HostSpec.payload) ∨ HostAt C J m st id q) :
    Tidy H fun k => ∃ p, KeyAt C J m st k p := by
  obtain ⟨hlist, hid, -⟩ := hostsLocked_ok hs.filed hhosts
  have halias := hs.tidy.nodup_alias hlist hid
  have hnames : ((specs.map Manager.HostSpec.payload).map HostPayload.hostAlias).Nodup := by
    rw [List.map_map]
    exact himport.nodup
  have hnew : ∀ x ∈ Manager.createdHosts hosts draws (specs.map Manager.HostSpec.payload),
      x.2.hostAlias ∉ hosts.map HostView.hostAlias ∧ (∃ spec ∈ specs, spec.payload = x.2) ∧
        ∃ i < specs.length, x.1 = (draws i).id.id := by
    rintro ⟨id, p⟩ hx
    obtain ⟨i, hmem, hname, rfl⟩ := Manager.mem_createdHosts.1 hx
    exact ⟨hname, List.mem_map.1 (List.fst_mem_of_mem_zipIdx hmem), i,
      by simpa using List.snd_lt_of_mem_zipIdx hmem, rfl⟩
  -- a name of the vault or of the import is one of a host afterwards
  have hnamed : ∀ a, a ∈ hosts.map HostView.hostAlias ∨ a ∈ specs.map Manager.HostSpec.hostAlias →
      ∃ j q, H j q ∧ q.hostAlias = a := by
    intro a ha
    by_cases hold : a ∈ hosts.map HostView.hostAlias
    · obtain ⟨v, hv, rfl⟩ := List.mem_map.1 hold
      obtain ⟨q, hq, hview⟩ := (hlist v).1 hv
      exact ⟨_, q, (hat _ q).2 (.inr hq), by rw [hview]; rfl⟩
    · obtain ⟨spec, hspec, rfl⟩ := List.mem_map.1 (ha.resolve_left hold)
      have hmem : spec.payload ∈ (specs.map Manager.HostSpec.payload).zipIdx.map Prod.fst := by
        rw [List.zipIdx_map_fst]
        exact List.mem_map_of_mem hspec
      obtain ⟨⟨p, i⟩, hx, heq⟩ := List.mem_map.1 hmem
      obtain rfl : p = spec.payload := heq
      exact ⟨_, _, (hat _ _).2 (.inl (Manager.mem_createdHosts.2 ⟨i, hx, hold, rfl⟩)), rfl⟩
  -- the jumps afterwards are those that were checked
  have hjumps : ∀ a b, JumpsIn H a b →
      Jumps (Manager.importJumps hosts (specs.map Manager.HostSpec.payload)) a b := by
    rintro a b ⟨i, q, hq, rfl, hb⟩
    rw [Jumps, Manager.lookup_importJumps halias hnames]
    rcases (hat i q).1 hq with hq | hq
    · obtain ⟨hname, ⟨spec, hspec, rfl⟩, -⟩ := hnew _ hq
      exact .inl ⟨_, List.mem_map_of_mem hspec, hname, rfl, hb⟩
    · exact .inr ⟨_, mem_hosts hlist hq, rfl, hb⟩
  refine hs.tidy.putAll hat ?_ hnodup ?_ ?_ ?_ ?_ ?_
  · rintro x hx q ⟨e, hq⟩
    obtain ⟨-, -, i, hi, heq⟩ := hnew x hx
    cases hq.head.symm.trans (hfresh.new i hi x.1 (List.mem_cons.2 (.inl heq)))
  · exact Manager.nodup_created_aliases himport
  · intro x hx j q hq heq
    exact (hnew x hx).1 (heq ▸ List.mem_map_of_mem (mem_hosts hlist hq))
  · intro x hx a ha
    obtain ⟨-, ⟨spec, hspec, heq⟩, -⟩ := hnew x hx
    exact hnamed a (himport.jump spec hspec a (by rw [← heq] at ha; exact ha))
  · intro x hx hback
    obtain ⟨hname, ⟨spec, hspec, heq⟩, -⟩ := hnew x hx
    rw [← heq] at hname hback
    have hback := TransGen.mono hjumps _ _ hback
    refine himport.loop spec hspec hname ?_ hback
    -- the way begins with the jump of the host
    obtain ⟨b, hfirst, -⟩ := TransGen.head'_iff.1 hback
    have hself := (Manager.lookup_importJumps halias hnames (a := spec.hostAlias)).2
      (.inl ⟨_, List.mem_map_of_mem hspec, hname, rfl, rfl⟩)
    have hjump : spec.proxyJump = some b := Option.some.inj (hself.symm.trans hfirst)
    rw [hjump]
    rfl
  · intro x hx k hk
    obtain ⟨-, ⟨spec, hspec, heq⟩, -⟩ := hnew x hx
    exact (mem_keyIDs hs.filed hkeys).1 (himport.keys spec hspec k (by rw [← heq] at hk; exact hk))

/-- An import puts the new hosts into the directory. -/
theorem Sane.importHosts (hC : C.Correct) (hJ : J.Lawful C) {st st' : Store}
    (hs : Sane C J G m st) {specs : List Manager.HostSpec} {dryRun : Bool} {now : String}
    {draws : ℕ → Manager.ImportDraw} {outcomes : List ImportOutcome}
    (hfresh : m.Fresh C st draws specs.length)
    (h : m.importHosts C J st specs dryRun now draws (fun _ => none) = (st', .ok outcomes))
    (hshort : Short C m st') : Sane C J G m st' := by
  obtain ⟨hosts, keys, turns, hhosts, hkeys, himport, hturns, -, hdone⟩ :=
    Manager.importHosts_ok hC hfresh h
  cases dryRun with
  | true => exact hdone ▸ hs
  | false =>
    rw [if_neg Bool.false_ne_true] at hdone
    have hw := Manager.writes_of_turns hC hfresh hturns
    have hshort : ∀ env ∈ turns.filterMap Prod.snd, ShortRow C m env := fun env henv =>
      hshort _ env (hdone.new env henv)
    have hvalid : ∀ p ∈ specs.map Manager.HostSpec.payload, p.validate = .ok () := by
      rw [List.forall_mem_map]
      exact himport.valid
    have hnodup : ((Manager.createdHosts hosts draws (specs.map Manager.HostSpec.payload)).map
        Prod.fst).Nodup := Manager.nodup_createdHosts hfresh
    have hat : ∀ id q, HostAt C J m st' id q ↔ (id, q) ∈ Manager.createdHosts hosts draws
        (specs.map Manager.HostSpec.payload) ∨ HostAt C J m st id q := fun id q =>
      hw.hostAt hC hJ hs.enrolled hvalid hdone hshort hnodup
    refine ⟨hdone.filed hs.filed, hs.enrolled.congr hdone.same.devices,
      hdone.allHold hs.hosts fun env henv htype => ?_,
      hdone.allHold hs.keys fun env henv htype => absurd htype (hw.key env henv), ?_, ?_⟩
    · obtain ⟨p, -, hp⟩ := hw.holds hC hJ hs.enrolled hvalid hdone hshort henv htype
      exact ⟨p, hp⟩
    · rintro k p ⟨e, hp⟩
      exact hs.good k p ⟨e, (hdone.holds_foreign hw.none hw.key).1 hp⟩
    · refine (hs.tidy_import hhosts hkeys himport hfresh hnodup hat).congr (fun _ _ => Iff.rfl) ?_
      rintro k ⟨p, e, hp⟩
      exact ⟨p, e, (hdone.holds_foreign hw.none hw.key).2 hp⟩

end Sshstate.Vault
