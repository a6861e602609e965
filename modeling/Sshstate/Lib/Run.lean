/-
  Runs of a guarded step function `step : S → L → Option S` (`none`: the step is
  not enabled).

  `Reach` are the states of the runs all of whose steps meet a condition `ok`;
  an invariant is proved once for all of them (`Reach.invariant`).  `replay`
  executes a list of labels and checks the condition on the way, so that a
  concrete run is evaluated (`reach_of_replay`).
-/
import Mathlib.Tactic.Common

namespace Run

variable {S L : Type} (step : S → L → Option S) (ok : S → L → Prop)

/-- The states reached from `s₀` by steps that meet `ok`. -/
inductive Reach (s₀ : S) : S → Prop
  | refl : Reach s₀ s₀
  | tail {s s' : S} {l : L} : Reach s₀ s → ok s l → step s l = some s' → Reach s₀ s'

variable {step ok}

theorem Reach.invariant {s₀ s : S} {P : S → Prop} (h : Reach step ok s₀ s) (h₀ : P s₀)
    (hstep : ∀ s l s', P s → ok s l → step s l = some s' → P s') : P s := by
  induction h with
  | refl => exact h₀
  | tail _ hok hs ih => exact hstep _ _ _ ih hok hs

/-- The invariant rule, where a step may also use what is known of its run. -/
theorem Reach.induct_tail {s₀ s : S} {P : S → Prop} (h : Reach step ok s₀ s) (h₀ : P s₀)
    (hstep : ∀ s l s', Reach step ok s₀ s → P s → ok s l → step s l = some s' → P s') : P s := by
  induction h with
  | refl => exact h₀
  | tail hs hok hstep' ih => exact hstep _ _ _ hs ih hok hstep'

theorem Reach.trans {s₀ s₁ s₂ : S} (h : Reach step ok s₀ s₁) (h' : Reach step ok s₁ s₂) :
    Reach step ok s₀ s₂ := by
  induction h' with
  | refl => exact h
  | tail _ hok hs ih => exact .tail ih hok hs

/-- A run that meets a stronger condition. -/
theorem Reach.mono {ok' : S → L → Prop} (hok : ∀ s l, ok s l → ok' s l) {s₀ s : S}
    (h : Reach step ok s₀ s) : Reach step ok' s₀ s := by
  induction h with
  | refl => exact .refl
  | tail _ h hs ih => exact .tail ih (hok _ _ h) hs

variable (step ok) in
/-- Execute the steps `ls`, as long as each is enabled and meets `ok`. -/
def replay [∀ s l, Decidable (ok s l)] : S → List L → Option S
  | s, [] => some s
  | s, l :: ls => if ok s l then (step s l).bind fun s' => replay s' ls else none

theorem reach_of_replay [∀ s l, Decidable (ok s l)] {ls : List L} {s s' : S}
    (h : replay step ok s ls = some s') : Reach step ok s s' := by
  induction ls generalizing s with
  | nil => cases h; exact .refl
  | cons l ls ih =>
    unfold replay at h
    split_ifs at h with hok
    obtain ⟨s₁, hs, h'⟩ := Option.bind_eq_some_iff.1 h
    exact (Reach.tail .refl hok hs).trans (ih h')

end Run
