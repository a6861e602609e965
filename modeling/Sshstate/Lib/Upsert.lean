/-
  Tables with a key.

  `upsert` replaces the row of its key or appends a row, as
  `INSERT … ON CONFLICT (key) DO UPDATE` does.  A table that is filled by puts, each of which
  removes some of the earlier rows, holds the rows that no later put has removed
  (`mem_foldl_put`).
-/
import Mathlib.Data.List.Induction
import Sshstate.Lib.Splits

namespace Upsert

variable {α κ : Type} [DecidableEq κ] (key : α → κ)

/-- The row of the key of `x` becomes `x`. -/
def upsert (x : α) (rows : List α) : List α :=
  if rows.any fun y => key y = key x then rows.map fun y => if key y = key x then x else y
  else rows ++ [x]

variable {key}

@[simp] theorem mem_upsert {x z : α} {rows : List α} :
    z ∈ upsert key x rows ↔ z = x ∨ z ∈ rows ∧ key z ≠ key x := by
  by_cases h : rows.any fun y => key y = key x
  · rw [upsert, if_pos h, List.mem_map]
    obtain ⟨y, hy, hkey⟩ := List.any_eq_true.1 h
    constructor
    · rintro ⟨w, hw, rfl⟩
      by_cases hk : key w = key x
      · exact .inl (if_pos hk)
      · exact .inr ⟨(if_neg hk).symm ▸ hw, (if_neg hk).symm ▸ hk⟩
    · rintro (rfl | ⟨hz, hk⟩)
      · exact ⟨y, hy, if_pos (of_decide_eq_true hkey)⟩
      · exact ⟨z, hz, if_neg hk⟩
  · rw [upsert, if_neg h, List.mem_append, List.mem_singleton]
    have hne : ∀ y ∈ rows, key y ≠ key x := by simpa using h
    constructor
    · rintro (hz | rfl)
      · exact .inr ⟨hz, hne z hz⟩
      · exact .inl rfl
    · rintro (rfl | ⟨hz, -⟩)
      · exact .inr rfl
      · exact .inl hz

/-- The rows of a table are the puts that no later one has removed. -/
theorem mem_foldl_put {put : List α → α → List α} {drops : α → α → Prop}
    (hput : ∀ rows x z, z ∈ put rows x ↔ z = x ∨ z ∈ rows ∧ ¬ drops x z) (log : List α) (z : α) :
    z ∈ log.foldl put [] ↔ ∃ pre post, log = pre ++ z :: post ∧ ∀ x ∈ post, ¬ drops x z := by
  induction log using List.reverseRecOn with
  | nil => simp
  | append_singleton log x ih =>
    rw [List.foldl_append, List.foldl_cons, List.foldl_nil, hput, ih]
    constructor
    · rintro (rfl | ⟨⟨pre, post, rfl, hpost⟩, hx⟩)
      · exact ⟨log, [], rfl, by simp⟩
      · refine ⟨pre, post ++ [x], by simp, fun y hy => ?_⟩
        rcases List.mem_append.1 hy with hy | hy
        · exact hpost y hy
        · rw [List.mem_singleton.1 hy]; exact hx
    · rintro ⟨pre, post, hlog, hpost⟩
      -- the put of `z` is the last one, or stands before it
      rcases Splits.split_concat hlog with ⟨-, rfl, -⟩ | ⟨post, rfl, hlog'⟩
      · exact .inl rfl
      · exact .inr ⟨⟨pre, post, hlog', fun y hy => hpost y (by simp [hy])⟩, hpost x (by simp)⟩

end Upsert
