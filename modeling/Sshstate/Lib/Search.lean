/-
  The first occurrence of a pattern in a text.

  `index pat s` is the position of the first occurrence (`index_eq_some`), and there is
  none exactly if the pattern is no infix (`index_eq_none`).  A pattern without the
  separator is searched line by line (`index_append_cons`), and a front that does not
  hold its first element is passed over (`index_append_of_notMem`).
-/
import Mathlib.Data.List.Infix
import Mathlib.Tactic.Common

namespace Search

variable {α : Type} [DecidableEq α]

/-- The position of the first occurrence of `pat`. -/
def index (pat : List α) : List α → Option ℕ
  | [] => if pat = [] then some 0 else none
  | a :: s => if pat <+: a :: s then some 0 else (index pat s).map (· + 1)

theorem index_of_prefix {pat s : List α} (h : pat <+: s) : index pat s = some 0 := by
  cases s with
  | nil => simp [index, List.prefix_nil.1 h]
  | cons a s => simp [index, h]

/-- The position of an occurrence with none before it. -/
theorem index_eq_some {pat s : List α} {i : ℕ} :
    index pat s = some i ↔
      i ≤ s.length ∧ pat <+: s.drop i ∧ ∀ j < i, ¬ pat <+: s.drop j := by
  induction s generalizing i with
  | nil =>
    by_cases hpat : pat = []
    · simp only [index, hpat, if_true, Option.some.injEq, List.length_nil]
      refine ⟨fun h => ?_, fun h => (Nat.le_zero.1 h.1).symm⟩
      subst h
      exact ⟨le_rfl, List.nil_prefix, fun j hj => absurd hj (Nat.not_lt_zero j)⟩
    · simp [index, hpat]
  | cons a s ih =>
    by_cases hpat : pat <+: a :: s
    · simp only [index, if_pos hpat, Option.some.injEq]
      refine ⟨?_, fun h => ?_⟩
      · rintro rfl
        exact ⟨Nat.zero_le _, hpat, fun j hj => absurd hj (Nat.not_lt_zero j)⟩
      · by_contra hi
        exact h.2.2 0 (by omega) hpat
    · simp only [index, if_neg hpat, Option.map_eq_some_iff, ih]
      constructor
      · rintro ⟨k, ⟨hk, hp, hfirst⟩, rfl⟩
        refine ⟨by simpa using hk, by simpa using hp, fun j hj => ?_⟩
        cases j with
        | zero => simpa using hpat
        | succ j => simpa using hfirst j (by omega)
      · rintro ⟨hk, hp, hfirst⟩
        cases i with
        | zero => exact absurd (by simpa using hp) hpat
        | succ i =>
          refine ⟨i, ⟨by simpa using hk, by simpa using hp, fun j hj => ?_⟩, rfl⟩
          simpa using hfirst (j + 1) (by omega)

theorem index_eq_none {pat s : List α} : index pat s = none ↔ ¬ pat <:+: s := by
  induction s with
  | nil => simp [index]
  | cons a s ih =>
    rw [List.infix_cons_iff, not_or, ← ih]
    by_cases hpat : pat <+: a :: s <;> simp [index, hpat]

/-- No occurrence begins in a front that does not hold the first element of the pattern. -/
theorem index_append_of_notMem {c : α} {pat front s : List α} (h : c ∉ front) :
    index (c :: pat) (front ++ s) = (index (c :: pat) s).map (· + front.length) := by
  induction front with
  | nil => simp
  | cons a front ih =>
    have hpat : ¬ c :: pat <+: a :: (front ++ s) := fun hp =>
      h (List.mem_cons.2 (.inl (List.cons_prefix_cons.1 hp).1))
    rw [List.cons_append, index, if_neg hpat, ih (fun hc => h (List.mem_cons_of_mem _ hc)),
      Option.map_map]
    rfl

omit [DecidableEq α] in
/-- A prefix without the separator ends before it. -/
theorem prefix_of_prefix_append_cons {sep : α} {pat line rest : List α} (hsep : sep ∉ pat)
    (h : pat <+: line ++ sep :: rest) : pat <+: line := by
  rcases List.prefix_or_prefix_of_prefix h (List.prefix_append line _) with hl | hl
  · exact hl
  · obtain ⟨t, rfl⟩ := hl
    rw [List.prefix_append_right_inj] at h
    cases t with
    | nil => simp
    | cons a t =>
      obtain ⟨rfl, -⟩ := List.cons_prefix_cons.1 h
      exact absurd (by simp) hsep

/-- A pattern without the separator occurs in the first line or after it. -/
theorem index_append_cons {sep : α} {pat line rest : List α} (hsep : sep ∉ pat)
    (hline : ¬ pat <:+: line) :
    index pat (line ++ sep :: rest) = (index pat rest).map (· + (line.length + 1)) := by
  induction line with
  | nil =>
    have hpat : ¬ pat <+: [] ++ sep :: rest := fun hp =>
      hline (prefix_of_prefix_append_cons hsep hp).isInfix
    rw [List.nil_append] at hpat ⊢
    simp [index, hpat]
  | cons a line ih =>
    rw [List.infix_cons_iff, not_or] at hline
    have hpat : ¬ pat <+: a :: line ++ sep :: rest := fun hp =>
      hline.1 (prefix_of_prefix_append_cons hsep hp)
    rw [List.cons_append] at hpat ⊢
    rw [index, if_neg hpat, ih hline.2, Option.map_map]
    rfl

end Search
