/-
  Fallible code as `Except`: how a successful computation comes apart.

  A transaction body is a chain of checks and writes in the `Except` monad.
  The lemmas here turn "the chain returned" into the list of facts its checks
  established (`bind_eq_ok`, `require_eq_ok`), and give the induction rule for
  a loop that stops at the first error (`foldlM_induct`).
-/
import Mathlib.Data.List.Forall2
import Mathlib.Tactic.Common

/-! ## Lists that agree place by place -/

namespace List.Forall₂

variable {α β : Type} {R : α → β → Prop} {l : List α} {l' : List β}

theorem exists_left (h : List.Forall₂ R l l') {b : β} (hb : b ∈ l') : ∃ a ∈ l, R a b := by
  induction h with
  | nil => simp at hb
  | @cons a b' l l' hab _ ih =>
    rcases List.mem_cons.1 hb with rfl | hb
    · exact ⟨a, List.mem_cons_self, hab⟩
    · obtain ⟨a', ha', hab'⟩ := ih hb
      exact ⟨a', List.mem_cons_of_mem _ ha', hab'⟩

theorem exists_right (h : List.Forall₂ R l l') {a : α} (ha : a ∈ l) : ∃ b ∈ l', R a b :=
  exists_left h.flip ha

theorem map_eq {γ : Type} {f : α → γ} {g : β → γ} (h : List.Forall₂ R l l')
    (hR : ∀ a b, R a b → f a = g b) : l.map f = l'.map g := by
  induction h with
  | nil => rfl
  | cons hab _ ih => rw [List.map_cons, List.map_cons, ih, hR _ _ hab]

end List.Forall₂

namespace Except

variable {ε α β : Type}

/-- Fail with `e` unless `p` holds. -/
def require (p : Prop) [Decidable p] (e : ε) : Except ε Unit :=
  if p then .ok () else .error e

@[simp] theorem bind_ok' (a : α) (f : α → Except ε β) : ((Except.ok a : Except ε α) >>= f) = f a := rfl

@[simp] theorem bind_error' (e : ε) (f : α → Except ε β) :
    ((Except.error e : Except ε α) >>= f) = .error e := rfl

@[simp] theorem pure_eq_ok (a : α) : (pure a : Except ε α) = .ok a := rfl

@[simp] theorem throw_eq_error (e : ε) : (throw e : Except ε α) = .error e := rfl

theorem bind_eq_ok {x : Except ε α} {f : α → Except ε β} {b : β} :
    (x >>= f) = .ok b ↔ ∃ a, x = .ok a ∧ f a = .ok b := by
  cases x <;> simp

@[simp] theorem require_eq_ok {p : Prop} [Decidable p] {e : ε} {u : Unit} :
    require p e = .ok u ↔ p := by
  unfold require; split_ifs with h <;> simp [h]

theorem require_bind_eq_ok {p : Prop} [Decidable p] {e : ε} {f : Unit → Except ε β} {b : β} :
    (require p e >>= f) = .ok b ↔ p ∧ f () = .ok b := by
  unfold require; split_ifs with h <;> simp [h]

@[simp] theorem mapError_eq_ok {ε' : Type} {g : ε → ε'} {x : Except ε α} {a : α} :
    x.mapError g = .ok a ↔ x = .ok a := by
  cases x <;> simp [Except.mapError]

theorem map_eq_ok {f : α → β} {x : Except ε α} {b : β} :
    x.map f = .ok b ↔ ∃ a, x = .ok a ∧ f a = b := by
  cases x <;> simp [Except.map]

/-- The value of a computation that returned one. -/
def get : (x : Except ε α) → x.toBool = true → α
  | .ok a, _ => a
  | .error _, h => Bool.noConfusion h

theorem eq_ok_get : ∀ {x : Except ε α} (h : x.toBool = true), x = .ok (x.get h)
  | .ok _, _ => rfl
  | .error _, h => Bool.noConfusion h

/-- The loop rule: what holds before a loop and is kept by every turn that
    succeeds holds after the loop, if the whole loop succeeds. -/
theorem foldlM_induct {P : β → Prop} {f : β → α → Except ε β} :
    ∀ {l : List α} {b b' : β}, l.foldlM f b = .ok b' → P b →
      (∀ a ∈ l, ∀ x x', f x a = .ok x' → P x → P x') → P b'
  | [], b, b', h, hb, _ => by
    simp only [List.foldlM_nil, pure_eq_ok, Except.ok.injEq] at h; exact h ▸ hb
  | a :: l, b, b', h, hb, hstep => by
    rw [List.foldlM_cons, bind_eq_ok] at h
    obtain ⟨x, hx, hl⟩ := h
    exact foldlM_induct hl (hstep a (by simp) b x hx hb)
      fun c hc => hstep c (List.mem_cons_of_mem a hc)

/-- What every turn that succeeds establishes of its element holds of all, if the whole loop
    succeeds. -/
theorem forall_of_foldlM {P : α → Prop} {f : β → α → Except ε β}
    (hf : ∀ a x x', f x a = .ok x' → P a) :
    ∀ {l : List α} {b b' : β}, l.foldlM f b = .ok b' → ∀ a ∈ l, P a
  | [], _, _, _, a, ha => absurd ha List.not_mem_nil
  | a :: l, b, b', h, c, hc => by
    rw [List.foldlM_cons, bind_eq_ok] at h
    obtain ⟨x, hx, hl⟩ := h
    rcases List.mem_cons.1 hc with rfl | hc
    · exact hf c b x hx
    · exact forall_of_foldlM hf hl c hc

/-- A loop that collects results succeeds when every turn does. -/
theorem mapM_eq_ok {f : α → Except ε β} :
    ∀ {l : List α} {l' : List β}, l.mapM f = .ok l' ↔ List.Forall₂ (fun a b => f a = .ok b) l l'
  | [], l' => by simp [eq_comm]
  | a :: l, l' => by
    simp only [List.mapM_cons, bind_eq_ok, pure_eq_ok, Except.ok.injEq, List.forall₂_cons_left_iff,
      mapM_eq_ok]
    constructor
    · rintro ⟨b, hb, bs, hbs, rfl⟩; exact ⟨b, bs, hb, hbs, rfl⟩
    · rintro ⟨b, bs, hb, hbs, rfl⟩; exact ⟨b, hb, bs, hbs, rfl⟩

theorem exists_mapM_ok {f : α → Except ε β} {l : List α} :
    (∃ l', l.mapM f = .ok l') ↔ ∀ a ∈ l, ∃ b, f a = .ok b := by
  simp only [mapM_eq_ok]
  induction l with
  | nil => simp
  | cons a l ih =>
    rw [List.forall_mem_cons, ← ih]
    constructor
    · rintro ⟨_, _ | ⟨hb, hbs⟩⟩; exact ⟨⟨_, hb⟩, _, hbs⟩
    · rintro ⟨⟨b, hb⟩, bs, hbs⟩; exact ⟨b :: bs, .cons hb hbs⟩

/-- A loop that succeeds has the result of every turn. -/
theorem mem_of_mapM {f : α → Except ε β} {l : List α} {l' : List β} (h : l.mapM f = .ok l')
    {a : α} {b : β} (ha : a ∈ l) (hb : f a = .ok b) : b ∈ l' := by
  rw [mapM_eq_ok] at h
  induction h with
  | nil => exact absurd ha List.not_mem_nil
  | @cons a' b' l l' hab _ ih =>
    rcases List.mem_cons.1 ha with rfl | ha
    · cases hab.symm.trans hb; exact List.mem_cons_self
    · exact List.mem_cons_of_mem _ (ih ha)

theorem mem_mapM {f : α → Except ε β} {l : List α} {l' : List β} (h : l.mapM f = .ok l') {b : β} :
    b ∈ l' ↔ ∃ a ∈ l, f a = .ok b := by
  exact ⟨fun hb => (mapM_eq_ok.1 h).exists_left hb, fun ⟨a, ha, hab⟩ => mem_of_mapM h ha hab⟩

theorem map_mapM {γ : Type} {f : α → Except ε β} {g : β → γ} {k : α → γ}
    (hf : ∀ a b, f a = .ok b → g b = k a) {l : List α} {l' : List β} (h : l.mapM f = .ok l') :
    l'.map g = l.map k :=
  ((mapM_eq_ok.1 h).map_eq fun a b hab => (hf a b hab).symm).symm

theorem toOption_eq_some {x : Except ε α} {a : α} : x.toOption = some a ↔ x = .ok a := by
  cases x <;> simp [Except.toOption]

end Except
