/-
  A snapshot is read back sorted by record id.

  The lines of different record ids have one order, so the bytes depend on the set of the
  envelopes alone (`build_perm`), and reading them back gives the envelopes
  (`parse_build`).
-/
import Sshstate.Enroll.Snapshot
import Sshstate.Proof.Export

namespace Sshstate.Enroll.Snapshot

open Export (newline joinLines sortEnvelopes sortEnvelopes_spec splitOn_joinLines length_joinLines)

variable {D : ByteDecoder}

/-- The canonical JSON of an envelope is one line of at most 1 MiB, and it is decoded to the
    envelope. -/
structure Reads (D : ByteDecoder) (env : Envelope) : Prop where
  newline_notMem : newline ∉ (Envelope.codec D.toDecoder).canonicalBytes env
  size : ((Envelope.codec D.toDecoder).canonicalBytes env).length ≤ maxObjectBytes
  decodes : strictUnmarshalBytes D (Envelope.codec D.toDecoder) .zero
    ((Envelope.codec D.toDecoder).canonicalBytes env) = .ok env

theorem canonicalBytes_ne_nil (env : Envelope) :
    (Envelope.codec D.toDecoder).canonicalBytes env ≠ [] := by
  have hbrace : ∃ rest, (Envelope.codec D.toDecoder).canonicalText env = '\x7b' :: rest := ⟨_, rfl⟩
  obtain ⟨rest, hrest⟩ := hbrace
  simp [Codec.canonicalBytes, hrest, utf8]

/-- The size of the snapshot of a list of envelopes. -/
def snapshotSize (D : ByteDecoder) (envs : List Envelope) : ℕ :=
  (envs.map fun env => ((Envelope.codec D.toDecoder).canonicalBytes env).length + 1).sum

/-- Sorted by record id, each id once. -/
def Ascending (envs : List Envelope) : Prop :=
  envs.Pairwise fun p q => p.context.recordID < q.context.recordID

theorem ascending_sortEnvelopes {envs : List Envelope}
    (h : (envs.map fun env => env.context.recordID).Nodup) : Ascending (sortEnvelopes envs) := by
  obtain ⟨hperm, hsorted⟩ := sortEnvelopes_spec envs
  have hne : (sortEnvelopes envs).Pairwise fun p q => p.context.recordID ≠ q.context.recordID :=
    List.pairwise_map.1 ((hperm.map _).nodup_iff.2 h)
  exact (hsorted.and hne).imp fun hpq => lt_of_le_of_ne hpq.1 hpq.2

/-- Sorted lists of the same envelopes are equal. -/
theorem Ascending.eq_of_perm {envs envs' : List Envelope} (h : Ascending envs)
    (h' : Ascending envs') (hperm : envs.Perm envs') : envs = envs' :=
  hperm.eq_of_pairwise (fun _ _ _ _ hab hba => absurd hba (lt_asymm hab)) h h'

theorem sortEnvelopes_perm {envs envs' : List Envelope} (hperm : envs'.Perm envs)
    (h : (envs.map fun env => env.context.recordID).Nodup) :
    sortEnvelopes envs' = sortEnvelopes envs := by
  refine (ascending_sortEnvelopes ((hperm.map _).nodup_iff.2 h)).eq_of_perm
    (ascending_sortEnvelopes h) ?_
  exact (sortEnvelopes_spec envs').1.trans (hperm.trans (sortEnvelopes_spec envs).1.symm)

theorem length_lines (envs : List Envelope) :
    (joinLines ((sortEnvelopes envs).map (Envelope.codec D.toDecoder).canonicalBytes)).length =
      snapshotSize D envs := by
  rw [length_joinLines, List.map_map]
  exact ((sortEnvelopes_spec envs).1.map _).sum_eq

theorem build_eq_ok {envs : List Envelope} {raw : Bytes} :
    build D envs = .ok raw ↔ snapshotSize D envs ≤ maxSnapshotBytes ∧
      raw = joinLines ((sortEnvelopes envs).map (Envelope.codec D.toDecoder).canonicalBytes) := by
  rw [build, Except.require_bind_eq_ok, length_lines, Except.pure_eq_ok, Except.ok.injEq]
  exact and_congr_right fun _ => eq_comm

/-- Lines that are decoded are read one after the other. -/
theorem parseLines_map {envs : List Envelope} (h : ∀ env ∈ envs, Reads D env) (i : ℕ) :
    parseLines D i (envs.map (Envelope.codec D.toDecoder).canonicalBytes) = .ok envs := by
  induction envs generalizing i with
  | nil => rfl
  | cons env envs ih =>
    rw [List.map_cons, parseLines, if_neg (canonicalBytes_ne_nil env), (h env (by simp)).decodes,
      ih (fun e he => h e (List.mem_cons_of_mem _ he)) (i + 1)]
    rfl

/-- What was built is read back, in its order. -/
theorem parse_build {envs : List Envelope} (h : ∀ env ∈ envs, Reads D env) {raw : Bytes}
    (hraw : build D envs = .ok raw) : parse D raw = .ok (sortEnvelopes envs) := by
  obtain ⟨hsize, rfl⟩ := build_eq_ok.1 hraw
  have hperm := (sortEnvelopes_spec envs).1
  rw [parse, Except.require_bind_eq_ok, length_lines]
  refine ⟨hsize, ?_⟩
  by_cases hnil : sortEnvelopes envs = []
  · rw [hnil]
    rfl
  · have hlines : ∀ l ∈ (sortEnvelopes envs).map (Envelope.codec D.toDecoder).canonicalBytes,
        l ≠ [] ∧ newline ∉ l := by
      intro l hl
      obtain ⟨env, henv, rfl⟩ := List.mem_map.1 hl
      exact ⟨canonicalBytes_ne_nil env, (h env (hperm.subset henv)).newline_notMem⟩
    rw [splitOn_joinLines hlines (by simpa using hnil)]
    exact parseLines_map (fun env henv => h env (hperm.subset henv)) 0

theorem build_perm {envs envs' : List Envelope} (hperm : envs'.Perm envs)
    (h : (envs.map fun env => env.context.recordID).Nodup) : build D envs' = build D envs := by
  rw [build, build, sortEnvelopes_perm hperm h]

/-- **Main result.**  The snapshot of envelopes with different record ids is read back sorted
    by record id; it is the same for every order of the envelopes, and different envelopes
    have different snapshots. -/
theorem snapshot_codec (D : ByteDecoder) (envs : List Envelope) (hreads : ∀ env ∈ envs, Reads D env)
    (hids : (envs.map fun env => env.context.recordID).Nodup)
    (hsize : snapshotSize D envs ≤ maxSnapshotBytes) :
    (∃ raw sorted, build D envs = .ok raw ∧ parse D raw = .ok sorted ∧ sorted.Perm envs ∧
      Ascending sorted) ∧
    (∀ envs' : List Envelope, envs'.Perm envs → build D envs' = build D envs) ∧
    ∀ envs' : List Envelope, (∀ env ∈ envs', Reads D env) → build D envs' = build D envs →
      envs'.Perm envs := by
  have hbuild : build D envs = .ok _ := build_eq_ok.2 ⟨hsize, rfl⟩
  have hparse := parse_build hreads hbuild
  refine ⟨⟨_, _, hbuild, hparse, (sortEnvelopes_spec envs).1, ascending_sortEnvelopes hids⟩,
    fun envs' hperm => build_perm hperm hids, fun envs' hreads' heq => ?_⟩
  have hparse' := parse_build hreads' (heq.trans hbuild)
  have hsame : sortEnvelopes envs' = sortEnvelopes envs := Except.ok.inj (hparse'.symm.trans hparse)
  exact (sortEnvelopes_spec envs').1.symm.trans (hsame ▸ (sortEnvelopes_spec envs).1)

/-- The envelopes that a device accepts are read back, up to 1 MiB. -/
theorem Reads.of_valid (hD : D.Lawful) {env : Envelope} (h : env.Valid) (hr : env.InRange)
    (hsize : ((Envelope.codec D.toDecoder).canonicalBytes env).length ≤ maxObjectBytes) :
    Reads D env := by
  obtain ⟨hplain, hread⟩ := Envelope.reads (D := D.toDecoder) h hr
  exact ⟨Codec.newline_notMem_canonicalBytes hplain, hsize,
    (Codec.strictUnmarshalBytes_canonical hD hplain hread).2 hsize⟩

namespace Snapshot01

open Export.Slices01 (decoder decoder_lawful)

/-- The first version of the host record `r`. -/
def host (r : ID) : Envelope := Sample.version (Sample.id 0x0a) [10] r (Sample.id 0x21) 1 none

def hosts : List Envelope := [host (Sample.id 0x12), host (Sample.id 0x11)]

theorem length_hosts : hosts.map (fun env =>
    ((Envelope.codec decoder.toDecoder).canonicalBytes env).length) = [398, 398] := by
  decide +kernel

theorem reads_hosts : ∀ env ∈ hosts, Reads decoder env := by
  intro env henv
  have hlength : ((Envelope.codec decoder.toDecoder).canonicalBytes env).length = 398 := by
    have hmem := List.mem_map_of_mem
      (f := fun env => ((Envelope.codec decoder.toDecoder).canonicalBytes env).length) henv
    rw [length_hosts] at hmem
    simpa using hmem
  have hvalid : ∀ env ∈ hosts, env.validate = .ok () := by decide
  have hrange : ∀ env ∈ hosts, env.context.keyEpoch = 1 ∧ env.context.rev = 1 ∧ env.seq = 0 := by
    decide
  obtain ⟨hepoch, hrev, hseq⟩ := hrange env henv
  refine .of_valid decoder_lawful (Envelope.validate_eq_ok.1 (hvalid env henv)) ⟨?_, ?_, ?_⟩ ?_
  · rw [hepoch]; decide
  · rw [hrev]; decide
  · rw [hseq]; decide
  · rw [hlength]; decide

/-- The two hosts are read back in the order of their ids. -/
theorem snapshot_codec_hosts :
    ∃ raw sorted, build decoder hosts = .ok raw ∧ parse decoder raw = .ok sorted ∧
      sorted.Perm hosts ∧ Ascending sorted := by
  refine (snapshot_codec decoder hosts reads_hosts (by decide) ?_).1
  have hsize : snapshotSize decoder hosts = 798 := by
    have hmap : snapshotSize decoder hosts = ((hosts.map fun env =>
        ((Envelope.codec decoder.toDecoder).canonicalBytes env).length).map (· + 1)).sum := by
      rw [snapshotSize, List.map_map]
      rfl
    rw [hmap, length_hosts]
    rfl
  rw [hsize]
  decide

end Snapshot01

end Sshstate.Enroll.Snapshot
