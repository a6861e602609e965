/-
  Patterns with two wildcards.

  A pattern is matched by a subject that can be cut into one part for each of its symbols:
  any part for `star`, a single symbol for `one`, and the symbol itself for every other
  (`Matches`).  A star is followed by some tail of the subject, and stars in a row are as
  good as one (`matches_star_cons`).
-/
import Mathlib.Data.List.Forall2
import Mathlib.Data.List.Infix
import Mathlib.Tactic.Common

namespace Glob

variable {α : Type} [DecidableEq α] (star one : α)

/-- The part that stands for one symbol of a pattern. -/
def Fits (c : α) (part : List α) : Prop :=
  if c = star then True else if c = one then part.length = 1 else part = [c]

/-- The subject can be cut into parts that fit the symbols of the pattern. -/
def Matches (pattern subject : List α) : Prop :=
  ∃ parts, List.Forall₂ (Fits star one) pattern parts ∧ parts.flatten = subject

instance instDecidableFits (c : α) (part : List α) : Decidable (Fits star one c part) :=
  inferInstanceAs (Decidable (if c = star then True else if c = one then part.length = 1
    else part = [c]))

variable {star one}

theorem matches_nil {s : List α} : Matches star one [] s ↔ s = [] := by
  constructor
  · rintro ⟨parts, h, rfl⟩
    rw [List.forall₂_nil_left_iff.1 h, List.flatten_nil]
  · rintro rfl
    exact ⟨[], .nil, rfl⟩

theorem matches_cons {c : α} {p s : List α} :
    Matches star one (c :: p) s ↔
      ∃ part rest, Fits star one c part ∧ Matches star one p rest ∧ part ++ rest = s := by
  constructor
  · rintro ⟨parts, h, rfl⟩
    obtain ⟨part, parts', hc, hp, rfl⟩ := List.forall₂_cons_left_iff.1 h
    exact ⟨part, parts'.flatten, hc, ⟨parts', hp, rfl⟩, rfl⟩
  · rintro ⟨part, rest, hc, ⟨parts, hp, rfl⟩, rfl⟩
    exact ⟨part :: parts, .cons hc hp, rfl⟩

theorem matches_star {p s : List α} :
    Matches star one (star :: p) s ↔ ∃ rest, rest <:+ s ∧ Matches star one p rest := by
  rw [matches_cons]
  constructor
  · rintro ⟨part, rest, -, hp, rfl⟩
    exact ⟨rest, List.suffix_append part rest, hp⟩
  · rintro ⟨rest, ⟨part, rfl⟩, hp⟩
    exact ⟨part, rest, by simp [Fits], hp, rfl⟩

/-- Stars in a row are as good as one. -/
theorem matches_star_cons {p s : List α} :
    Matches star one (star :: p) s ↔
      ∃ rest, rest <:+ s ∧ Matches star one (p.dropWhile (· = star)) rest := by
  induction p generalizing s with
  | nil => exact matches_star
  | cons c p ih =>
    by_cases hc : c = star
    · subst hc
      rw [matches_star, List.dropWhile_cons_of_pos (by simp)]
      constructor
      · rintro ⟨t, ht, hp⟩
        obtain ⟨rest, hrest, hp⟩ := ih.1 hp
        exact ⟨rest, hrest.trans ht, hp⟩
      · rintro ⟨rest, hrest, hp⟩
        exact ⟨s, List.suffix_rfl, ih.2 ⟨rest, hrest, hp⟩⟩
    · rw [matches_star, List.dropWhile_cons_of_neg (by simpa using hc)]

theorem matches_one {p s : List α} (h : one ≠ star) :
    Matches star one (one :: p) s ↔ ∃ a rest, s = a :: rest ∧ Matches star one p rest := by
  rw [matches_cons]
  constructor
  · rintro ⟨part, rest, hfit, hp, rfl⟩
    rw [Fits, if_neg h, if_pos rfl, List.length_eq_one_iff] at hfit
    obtain ⟨a, rfl⟩ := hfit
    exact ⟨a, rest, rfl, hp⟩
  · rintro ⟨a, rest, rfl, hp⟩
    exact ⟨[a], rest, by simp [Fits, h], hp, rfl⟩

theorem matches_symbol {c : α} {p s : List α} (hs : c ≠ star) (ho : c ≠ one) :
    Matches star one (c :: p) s ↔ ∃ rest, s = c :: rest ∧ Matches star one p rest := by
  rw [matches_cons]
  constructor
  · rintro ⟨part, rest, hfit, hp, rfl⟩
    rw [Fits, if_neg hs, if_neg ho] at hfit
    exact ⟨rest, by rw [hfit]; rfl, hp⟩
  · rintro ⟨rest, rfl, hp⟩
    exact ⟨[c], rest, by simp [Fits, hs, ho], hp, rfl⟩

end Glob
