/-
  Commands that change a state and may fail.

  `EStateM` keeps the state of a command that fails.  The primitive commands are evaluated by
  `simp`; a command that succeeds comes apart at each bind (`bind_eq_ok`), and what its parts
  keep is kept by the whole, whether it fails or not (`state_bind`).
-/
import Mathlib.Tactic.Common

namespace EStateM

variable {ε σ α β : Type}

@[simp] theorem get_bind (f : σ → EStateM ε σ β) (s : σ) : (get >>= f) s = f s s := rfl

@[simp] theorem set_bind (s' : σ) (f : PUnit → EStateM ε σ β) (s : σ) :
    (set s' >>= f) s = f ⟨⟩ s' := rfl

@[simp] theorem modify_bind (g : σ → σ) (f : PUnit → EStateM ε σ β) (s : σ) :
    ((modify g : EStateM ε σ PUnit) >>= f) s = f ⟨⟩ (g s) := rfl

@[simp] theorem pure_apply (a : α) (s : σ) : (pure a : EStateM ε σ α) s = .ok a s := rfl

@[simp] theorem set_apply (s' s : σ) : (set s' : EStateM ε σ PUnit) s = .ok ⟨⟩ s' := rfl

@[simp] theorem throw_apply (e : ε) (s : σ) : (throw e : EStateM ε σ α) s = .error e s := rfl

theorem bind_of_ok {x : EStateM ε σ α} {f : α → EStateM ε σ β} {s t : σ} {a : α}
    (h : x s = .ok a t) : (x >>= f) s = f a t := by
  show (EStateM.bind x f) s = _
  simp [EStateM.bind, h]

theorem bind_of_error {x : EStateM ε σ α} {f : α → EStateM ε σ β} {s t : σ} {e : ε}
    (h : x s = .error e t) : (x >>= f) s = .error e t := by
  show (EStateM.bind x f) s = _
  simp [EStateM.bind, h]

theorem if_apply (p : Prop) [Decidable p] (x y : EStateM ε σ α) (s : σ) :
    (if p then x else y) s = if p then x s else y s := by
  split_ifs <;> rfl

theorem bind_eq_ok {x : EStateM ε σ α} {f : α → EStateM ε σ β} {s t : σ} {b : β} :
    (x >>= f) s = .ok b t ↔ ∃ a u, x s = .ok a u ∧ f a u = .ok b t := by
  show (EStateM.bind x f) s = _ ↔ _
  cases h : x s <;> simp [EStateM.bind, h]

/-- The state a command leaves, whether it fails or not. -/
def Result.state : Result ε σ α → σ
  | .ok _ s => s
  | .error _ s => s

@[simp] theorem state_ok (a : α) (s : σ) : (.ok a s : Result ε σ α).state = s := rfl

@[simp] theorem state_error (e : ε) (s : σ) : (.error e s : Result ε σ α).state = s := rfl

/-- What holds after the first part, and is kept by the second, holds after both. -/
theorem state_bind {P : σ → Prop} {x : EStateM ε σ α} {f : α → EStateM ε σ β} {s : σ}
    (hx : P (x s).state) (hf : ∀ a t, x s = .ok a t → P (f a t).state) :
    P ((x >>= f) s).state := by
  show P ((EStateM.bind x f) s).state
  cases h : x s with
  | ok a t => simpa [EStateM.bind, h] using hf a t h
  | error e t => simpa [EStateM.bind, h, Result.state] using hx

end EStateM
