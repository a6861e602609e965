/-
  The lines of an archive and of a snapshot: they are split as they were joined
  (`splitOn_joinLines`), and the envelopes are written sorted by record id
  (`sortEnvelopes_spec`).
-/
import Sshstate.Proof.Membership
import Sshstate.Proof.Slices

namespace Sshstate.Export

open Json (PlainText byteLength)
open Codec (digits)

variable {C : Suite} {D : ByteDecoder}

/-! ## Lines -/

theorem intercalate_concat (l : List Bytes) (last : Bytes) :
    [newline].intercalate (l ++ [last]) = joinLines l ++ last := by
  induction l with
  | nil => simp [joinLines]
  | cons a l ih =>
    have hne : l ++ [last] ≠ [] := by simp
    obtain ⟨x, rest, hx⟩ := List.exists_cons_of_ne_nil hne
    rw [hx] at ih
    rw [List.cons_append, hx, List.intercalate_cons_cons, ih]
    simp [joinLines]

/-- Lines that are not empty and have no newline in them are split as they were joined. -/
theorem splitOn_joinLines {ls : List Bytes} (h : ∀ l ∈ ls, l ≠ [] ∧ newline ∉ l) (hls : ls ≠ []) :
    ((joinLines ls).rdropWhile (· = newline)).splitOn newline = ls := by
  obtain ⟨init, last, rfl⟩ := (List.eq_nil_or_concat' ls).resolve_left hls
  obtain ⟨hne, hlast⟩ := h last (by simp)
  obtain ⟨front, x, rfl⟩ := (List.eq_nil_or_concat' last).resolve_left hne
  have hx : x ≠ newline := by
    rintro rfl
    exact hlast (by simp)
  have hdrop : (joinLines (init ++ [front ++ [x]])).rdropWhile (· = newline) =
      [newline].intercalate (init ++ [front ++ [x]]) := by
    have hlines : joinLines (init ++ [front ++ [x]]) = joinLines init ++ front ++ [x] ++ [newline] := by
      simp [joinLines]
    rw [hlines, List.rdropWhile_concat_pos _ _ _ (by simp),
      List.rdropWhile_concat_neg _ _ _ (by simpa using hx), intercalate_concat, List.append_assoc]
  rw [hdrop, List.splitOn_intercalate _ (fun l hl => (h l hl).2) (by simp)]

theorem length_joinLines (ls : List Bytes) :
    (joinLines ls).length = (ls.map fun l => l.length + 1).sum := by
  simp [joinLines, List.length_flatMap]

/-! ## The order of the envelopes -/

theorem sink_perm (env : Envelope) : ∀ l : List Envelope, (sink env l).Perm (env :: l)
  | [] => .refl _
  | p :: ps => by
    rw [sink]
    split_ifs
    · exact ((sink_perm env ps).cons p).trans (.swap _ _ _)
    · exact .refl _

/-- From the last to the first. -/
def Descending (l : List Envelope) : Prop :=
  l.Pairwise fun p q => q.context.recordID ≤ p.context.recordID

theorem Descending.sink {env : Envelope} : ∀ {l : List Envelope}, Descending l →
    Descending (sink env l)
  | [], _ => List.pairwise_singleton _ _
  | p :: ps, h => by
    obtain ⟨hp, hps⟩ := List.pairwise_cons.1 h
    rw [Export.sink]
    split_ifs with hlt
    · refine List.pairwise_cons.2 ⟨fun q hq => ?_, Descending.sink hps⟩
      rcases List.mem_cons.1 ((sink_perm env ps).subset hq) with rfl | hq
      · exact le_of_lt hlt
      · exact hp q hq
    · refine List.pairwise_cons.2 ⟨fun q hq => ?_, h⟩
      rcases List.mem_cons.1 hq with rfl | hq
      · exact not_lt.1 hlt
      · exact (hp q hq).trans (not_lt.1 hlt)

/-- `encodeEnvelopes` writes all envelopes, sorted by record id. -/
theorem sortEnvelopes_spec (envs : List Envelope) : (sortEnvelopes envs).Perm envs ∧
    (sortEnvelopes envs).Pairwise fun p q => p.context.recordID ≤ q.context.recordID := by
  have hfold : ∀ (envs acc : List Envelope), Descending acc →
      (envs.foldl (fun sorted env => sink env sorted) acc).Perm (acc ++ envs) ∧
      Descending (envs.foldl (fun sorted env => sink env sorted) acc) := by
    intro envs
    induction envs with
    | nil => exact fun acc h => ⟨by simp, h⟩
    | cons env envs ih =>
      intro acc h
      obtain ⟨hperm, hdesc⟩ := ih (sink env acc) h.sink
      refine ⟨hperm.trans (((sink_perm env acc).append_right envs).trans ?_), hdesc⟩
      exact List.perm_middle.symm
  obtain ⟨hperm, hdesc⟩ := hfold envs [] .nil
  exact ⟨(List.reverse_perm _).trans hperm, List.pairwise_reverse.2 hdesc⟩

end Sshstate.Export
