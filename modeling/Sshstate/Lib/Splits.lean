/-
  The places of a list: `pre ++ x :: post` is the list seen from the entry `x`.

  Two places of one list are the same, or one stands before the other (`split_cases`); a place
  of a list with one more entry at its end is the last one or an old one (`split_concat`).
-/
import Mathlib.Data.List.Basic
import Mathlib.Tactic.Common

namespace Splits

variable {α : Type} {pre post pre' post' l : List α} {x y : α}

/-- Two entries of a list: the one stands before the other, or they are the same. -/
theorem split_cases (h : pre ++ x :: post = pre' ++ y :: post') :
    (y ∈ post ∧ x ∈ pre') ∨ (x = y ∧ post = post') ∨ (x ∈ post' ∧ y ∈ pre) := by
  rcases List.append_eq_append_iff.1 h with ⟨l, rfl, hl⟩ | ⟨l, rfl, hl⟩
  · cases l with
    | nil => exact .inr (.inl (List.cons.inj hl))
    | cons w l =>
      obtain ⟨rfl, rfl⟩ := List.cons.inj hl
      exact .inl ⟨by simp, by simp⟩
  · cases l with
    | nil => exact .inr (.inl ((List.cons.inj hl).imp Eq.symm Eq.symm))
    | cons w l =>
      obtain ⟨rfl, rfl⟩ := List.cons.inj hl
      exact .inr (.inr ⟨by simp, by simp⟩)

/-- An entry of a list that ends with `y`. -/
theorem split_concat (h : l ++ [y] = pre ++ x :: post) :
    (l = pre ∧ y = x ∧ post = []) ∨ ∃ post', post = post' ++ [y] ∧ l = pre ++ x :: post' := by
  rcases List.eq_nil_or_concat post with rfl | ⟨post, z, rfl⟩
  · obtain ⟨hpre, hx⟩ := List.append_inj' h rfl
    exact .inl ⟨hpre, List.singleton_inj.1 hx, rfl⟩
  · rw [List.concat_eq_append, ← List.cons_append, ← List.append_assoc] at h
    obtain ⟨hl, hz⟩ := List.append_inj' h rfl
    obtain rfl := List.singleton_inj.1 hz
    exact .inr ⟨post, List.concat_eq_append .., hl⟩

end Splits
