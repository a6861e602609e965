/-
  What a snapshot hands over.

  `Snapshot` reads the outbox once, and then the heads of one record type after the
  other; a head whose mutation was not in the outbox is taken for accepted.  An edit that
  is committed in between is not in that list, so that its head is handed over before the
  relay has seen it (`snapshot_unaccepted`).

  Where no query takes a head that is pending at that moment (`AcceptedCopies`), a snapshot
  has accepted heads only, one for each record (`Sorted`): heads of one record are of one
  type, and each type is read once.
-/
import Sshstate.Proof.Track

namespace Sshstate.Vault

variable {C : Suite}

/-! ## The list of heads -/

theorem headOf_ok {env : Envelope} {h : Head} (hok : headOf C env = .ok h) :
    h = { recordID := env.context.recordID, rev := env.context.rev, digest := env.digest C,
          deleted := env.context.deleted } := by
  simp only [headOf, Envelope.digestE, Except.bind_eq_ok, Except.pure_eq_ok, Except.ok.injEq] at hok
  obtain ⟨_, ⟨_, -, rfl⟩, rfl⟩ := hok
  rfl

theorem sorted_sortHeads (heads : List Head) :
    (sortHeads heads).Pairwise fun a b => a.recordID ≤ b.recordID := by
  have htotal : Std.Total fun a b : Head => ¬ b.recordID < a.recordID :=
    ⟨fun a b => (le_total a.recordID b.recordID).imp not_lt_of_ge not_lt_of_ge⟩
  have htrans : IsTrans Head fun a b => ¬ b.recordID < a.recordID :=
    ⟨fun a b c hab hbc => not_lt_of_ge ((not_lt.1 hab).trans (not_lt.1 hbc))⟩
  exact (List.pairwise_insertionSort _ heads).imp not_lt.1

/-- The list of heads has the entries of the envelopes, in the order of their records. -/
theorem Copy.exportSnapshot_ok {c : Copy} {s : ExportSnapshot}
    (h : c.exportSnapshot C = .ok s) :
    (s.records ++ s.conflicts).Perm c.heads ∧
    s.heads.Perm ((s.records ++ s.conflicts).map fun env =>
      { recordID := env.context.recordID, rev := env.context.rev, digest := env.digest C,
        deleted := env.context.deleted }) ∧
    s.heads.Pairwise fun a b => a.recordID ≤ b.recordID := by
  simp only [Copy.exportSnapshot, Except.bind_eq_ok, Except.pure_eq_ok, Except.ok.injEq] at h
  obtain ⟨heads, hheads, rfl⟩ := h
  have hperm : (c.heads.filter (fun env => !env.context.recordType.isConflict) ++
      c.heads.filter fun env => env.context.recordType.isConflict).Perm c.heads := by
    have h := List.filter_append_perm (fun env : Envelope => !env.context.recordType.isConflict)
      c.heads
    simpa using h
  have hmap : heads = c.heads.map fun env =>
      { recordID := env.context.recordID, rev := env.context.rev, digest := env.digest C,
        deleted := env.context.deleted } := by
    have hall := Except.mapM_eq_ok.1 hheads
    clear hheads hperm
    generalize c.heads = envs at hall
    induction hall with
    | nil => rfl
    | cons h _ ih => rw [List.map_cons, ← ih, headOf_ok h]
  refine ⟨hperm, ?_, ?_⟩
  · rw [sortHeads]
    refine (List.perm_insertionSort _ _).trans ?_
    rw [hmap]
    exact (hperm.map _).symm
  · exact sorted_sortHeads heads

/-- The heads of a type are of different records. -/
theorem Store.nodup_allRecords {st : Store} (t : RecordType)
    (h : ∀ id e, st.head id = some e → e.context.recordID = id) :
    ((st.allRecords t).map (·.context.recordID)).Nodup := by
  have hkeys : (st.records.entries.map Sigma.snd).map (·.context.recordID) = st.records.keys := by
    rw [List.map_map]
    exact List.map_congr_left fun row hrow => h row.1 row.2 (AList.mem_lookup_iff.2 hrow)
  have hnodup : ((st.records.entries.map Sigma.snd).map (·.context.recordID)).Nodup := by
    rw [hkeys]; exact st.records.keys_nodup
  refine ((List.perm_insertionSort _ _).map _).nodup_iff.2 ?_
  exact hnodup.sublist (List.filter_sublist.map _)

end Sshstate.Vault

namespace Sshstate.Sync

open Vault (Store Copy ExportSnapshot)

variable {C : Suite} {V : Setup}

/-! ## One head for each record -/

/-- A copy has the heads of different records, all of types it has read. -/
structure Sorted (c : Copy) : Prop where
  ids : (c.heads.map (·.context.recordID)).Nodup
  types : ∀ e ∈ c.heads, e.context.recordType ∉ c.todo
  todo : c.todo.Nodup

theorem Sorted.new {c : Copy} (hheads : c.heads = []) (htodo : c.todo = Vault.snapshotTypes) :
    Sorted c := by
  refine ⟨by rw [hheads]; exact List.nodup_nil, fun e he => ?_, by rw [htodo]; decide⟩
  rw [hheads] at he
  exact absurd he List.not_mem_nil

/-- A query reads the heads of a type that was not read before, and a record has one type. -/
theorem Sorted.read {F : Fleet} (ht : Tidy C V F) {c c' : Copy} (hmem : c ∈ F.copies)
    (hc : Sorted c) {n : Node} (hn : F.nodes c.device = some n) (h : c.read n.store = some c') :
    Sorted c' := by
  obtain ⟨-, rfl⟩ | ⟨unpublished, t, todo, -, htodo, -, rfl⟩ | ⟨_, -, -, -, rfl⟩ := Copy.read_cases h
  · exact ⟨hc.ids, hc.types, hc.todo⟩
  · have hnodup := hc.todo
    rw [htodo, List.nodup_cons] at hnodup
    have hheads := (ht.nodes _ n hn).heads
    have hrows := Store.nodup_allRecords t fun id e he => (hheads id e he).1
    have hnew : ∀ e ∈ (n.store.allRecords t).filter (·.context.mutationID ∉ unpublished),
        e.context.recordType = t ∧ e.strip ∈ F.committed := by
      intro e he
      obtain ⟨⟨id, hid⟩, htype⟩ := Store.mem_allRecords.1 (List.mem_of_mem_filter he)
      exact ⟨htype, (hheads id e hid).2⟩
    refine ⟨?_, fun e he => ?_, hnodup.2⟩
    · rw [List.map_append, List.nodup_append]
      refine ⟨hc.ids, hrows.sublist (List.filter_sublist.map _), fun id hid id' hid' heq => ?_⟩
      obtain ⟨e, he, rfl⟩ := List.mem_map.1 hid
      obtain ⟨e', he', rfl⟩ := List.mem_map.1 hid'
      have hsame := (ht.siblings _ (ht.copies c hmem e he) _ (hnew e' he').2 heq).1
      rw [Envelope.strip_context, Envelope.strip_context, (hnew e' he').1] at hsame
      exact hc.types e he (by rw [hsame, htodo]; exact List.mem_cons_self)
    · rcases List.mem_append.1 he with he | he
      · exact fun hmem' => hc.types e he (by rw [htodo]; exact List.mem_cons_of_mem t hmem')
      · rw [(hnew e he).1]; exact hnodup.1
  · exact ⟨hc.ids, hc.types, hc.todo⟩

theorem sorted_step {F F' : Fleet} (ht : Tidy C V F) (hs : ∀ c ∈ F.copies, Sorted c) {l : Label}
    (h : F.step C V l = some F') : ∀ c ∈ F'.copies, Sorted c := by
  have hm := moves_of_step h
  clear h
  cases hm with
  | snapshot node =>
    intro c hc
    rcases List.mem_append.1 hc with hc | hc
    · exact hs c hc
    · rw [List.mem_singleton.1 hc]; exact .new rfl rfl
  | archive node =>
    intro c hc
    rcases List.mem_append.1 hc with hc | hc
    · exact hs c hc
    · rw [List.mem_singleton.1 hc]; exact .new rfl rfl
  | read copy node h =>
    intro c hc
    rcases List.mem_or_eq_of_mem_set hc with hc | rfl
    · exact hs c hc
    · have hmem := List.mem_of_getElem? copy
      exact (hs _ hmem).read ht hmem node h
  | _ => exact hs

/-- **Main result.**  In the runs in which no query of a snapshot takes a head that is
    pending at that moment, what a snapshot has read (and so what a finished one hands over)
    is in the relay's log, one head for each record, and its list of heads is sorted and
    agrees with them. -/
theorem snapshot_accepted (A : Founding C) {F : Fleet}
    (h : Run.Reach (Fleet.step C A.setup) AcceptedCopies A.fleet F)
    (hd : Distinct C A.setup.genesis.vaultID F.ids) {c : Copy} (hc : c ∈ F.copies)
    {s : ExportSnapshot} (hs : c.exportSnapshot C = .ok s) :
    (∀ e ∈ s.records ++ s.conflicts, InLog F.relay e) ∧
    ((s.records ++ s.conflicts).map (·.context.recordID)).Nodup ∧
    s.heads.Pairwise (fun a b => a.recordID < b.recordID) ∧
    s.heads.Perm ((s.records ++ s.conflicts).map fun env =>
      { recordID := env.context.recordID, rev := env.context.rev, digest := env.digest C,
        deleted := env.context.deleted }) := by
  have hinv : Distinct C A.setup.genesis.vaultID F.ids →
      Tidy C A.setup F ∧ Backed F ∧ ∀ c ∈ F.copies, Sorted c :=
    h.invariant (P := fun F => Distinct C A.setup.genesis.vaultID F.ids →
        Tidy C A.setup F ∧ Backed F ∧ ∀ c ∈ F.copies, Sorted c)
      (fun _ => ⟨A.tidy, A.backed, fun c hc => absurd hc List.not_mem_nil⟩)
      fun F l F' ih hok hstep hd' => by
        obtain ⟨ht, hk, hsort⟩ := ih (hd'.of_suffix (ids_suffix hstep))
        exact ⟨ht.step hstep hd', hk.step ht.toBase (fun i hl => hk.read ht.toBase (hl ▸ hok)) hstep
          hd'.nodup, sorted_step ht hsort hstep⟩
  obtain ⟨ht, hk, hsort⟩ := hinv hd
  obtain ⟨hperm, hheads, hsorted⟩ := Copy.exportSnapshot_ok hs
  have hnodup : ((s.records ++ s.conflicts).map (·.context.recordID)).Nodup :=
    (hperm.map _).nodup_iff.2 (hsort c hc).ids
  refine ⟨fun e he => hk.copies c hc e (hperm.subset he), hnodup, ?_, hheads⟩
  have hids : (s.heads.map (·.recordID)).Nodup := by
    refine (hheads.map _).nodup_iff.2 ?_
    rw [List.map_map]
    exact hnodup
  exact (hsorted.and (List.pairwise_map.1 hids)).imp fun h => lt_of_le_of_ne h.1 h.2

namespace Vault01

/-- The device `0a` publishes a host and reads a snapshot. -/
def handed : Fleet :=
  (run AcceptedCopies (published ++ .snapshot (Sample.id 0x0a) :: List.replicate 6 (.read 0))).get
    (by decide)

/-- A host is created after the outbox was read. -/
def handedEarly : Fleet :=
  (run (fun _ _ => True) ([.snapshot (Sample.id 0x0a), .read 0,
    .edit (Sample.id 0x0a) [create 0x20 0x30]] ++ List.replicate 5 (.read 0))).get (by decide)

/-- The snapshots of the two runs. -/
def handedCopy : Copy := handed.copies[0]?.get (by decide)
def earlyCopy : Copy := handedEarly.copies[0]?.get (by decide)

def handedSnapshot : ExportSnapshot := (handedCopy.exportSnapshot sample).get (by decide)
def earlySnapshot : ExportSnapshot := (earlyCopy.exportSnapshot sample).get (by decide)

end Vault01

open Vault01 in
/-- A finished snapshot of one published host. -/
theorem snapshot_accepted_published :
    handedCopy.acceptedOnly = true ∧ handedCopy.complete = true ∧
    handedSnapshot.records.map (·.context.recordID) = [Sample.id 0x20] ∧
    (∀ e ∈ handedSnapshot.records ++ handedSnapshot.conflicts, InLog handed.relay e) ∧
    handedSnapshot.heads.Pairwise (fun a b => a.recordID < b.recordID) := by
  have hreach : Run.Reach (Fleet.step sample setup) AcceptedCopies founding.fleet handed :=
    Run.reach_of_replay (Option.some_get _).symm
  have hcopy : handedCopy ∈ handed.copies := List.mem_of_getElem? (Option.some_get _).symm
  obtain ⟨hlog, -, hsorted, -⟩ := snapshot_accepted founding hreach (by decide) hcopy
    (Except.eq_ok_get _)
  exact ⟨by decide, by decide, by decide, hlog, hsorted⟩

open Vault01 in
/-- The snapshot hands over a host that the relay has not seen. -/
theorem snapshot_unaccepted :
    Run.Reach (Fleet.step sample setup) (fun _ _ => True) founding.fleet handedEarly ∧
    Distinct sample setup.genesis.vaultID handedEarly.ids ∧ earlyCopy ∈ handedEarly.copies ∧
    earlyCopy.acceptedOnly = true ∧ earlyCopy.complete = true ∧
    earlyCopy.exportSnapshot sample = .ok earlySnapshot ∧
    ∃ e ∈ earlySnapshot.records ++ earlySnapshot.conflicts, ¬ InLog handedEarly.relay e := by
  refine ⟨Run.reach_of_replay (Option.some_get _).symm, by decide,
    List.mem_of_getElem? (Option.some_get _).symm, by decide, by decide,
    Except.eq_ok_get _, by decide⟩

end Sshstate.Sync
