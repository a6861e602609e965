/-
  Append-only logs whose entries belong to keys.

  `ofKey key k l` are the entries of `k` in the order of the log and `last?` is
  the newest of them.  A log is `Linked` when the first entry of every key is a
  root and every later one is linked to the entry of its key just before it;
  appending keeps this if the new entry is linked to the newest one
  (`Linked.append`).  With a rank that starts at 1 and grows by one along each
  link, the entries of a key carry the ranks 1, 2, 3, … (`Linked.rank_getElem`).
-/
import Mathlib.Data.List.Chain
import Mathlib.Data.List.Induction
import Mathlib.Tactic.Common

namespace KeyedLog

variable {α κ : Type} [DecidableEq κ] (key : α → κ)

/-- The entries of one key. -/
def ofKey (k : κ) (l : List α) : List α := l.filter fun a => key a = k

/-- The newest entry of one key. -/
def last? (k : κ) (l : List α) : Option α := (ofKey key k l).getLast?

variable {key}

@[simp] theorem mem_ofKey {k : κ} {l : List α} {a : α} : a ∈ ofKey key k l ↔ a ∈ l ∧ key a = k := by
  simp [ofKey]

theorem ofKey_append (k : κ) (l l' : List α) :
    ofKey key k (l ++ l') = ofKey key k l ++ ofKey key k l' := List.filter_append ..

theorem ofKey_concat (k : κ) (l : List α) (a : α) :
    ofKey key k (l ++ [a]) = if key a = k then ofKey key k l ++ [a] else ofKey key k l := by
  rw [ofKey_append]; split_ifs with h <;> simp [ofKey, h]

@[simp] theorem last?_nil (k : κ) : last? key k ([] : List α) = none := rfl

theorem last?_concat (k : κ) (l : List α) (a : α) :
    last? key k (l ++ [a]) = if key a = k then some a else last? key k l := by
  unfold last?; rw [ofKey_concat]; split_ifs <;> simp

theorem last?_append (k : κ) (l l' : List α) :
    last? key k (l ++ l') = (last? key k l').or (last? key k l) := by
  unfold last?; rw [ofKey_append, List.getLast?_append]

theorem mem_of_last? {k : κ} {l : List α} {a : α} (h : last? key k l = some a) :
    a ∈ l ∧ key a = k :=
  mem_ofKey.1 (List.mem_of_getLast? h)

theorem last?_eq_none {k : κ} {l : List α} : last? key k l = none ↔ ∀ a ∈ l, key a ≠ k := by
  simp [last?, ofKey]

variable (key) in
theorem exists_last? {l : List α} {a : α} (h : a ∈ l) : ∃ b, last? key (key a) l = some b := by
  rcases hl : last? key (key a) l with _ | b
  · exact absurd rfl (last?_eq_none.1 hl a h)
  · exact ⟨b, rfl⟩

/-- In a log whose entries of a key are ordered, the newest one comes after the others. -/
theorem rel_last? {R : α → α → Prop} {l : List α} (h : l.Pairwise fun a b => key a = key b → R a b)
    {a b : α} (ha : a ∈ l) (hb : last? key (key a) l = some b) : a = b ∨ R a b := by
  induction l using List.reverseRecOn with
  | nil => cases ha
  | append_singleton l x ih =>
    rw [List.pairwise_append] at h
    rw [last?_concat] at hb
    rcases List.mem_append.1 ha with ha | ha
    · split_ifs at hb with hx
      · obtain rfl : x = b := Option.some.inj hb
        exact Or.inr (h.2.2 a ha x (by simp) hx.symm)
      · exact ih h.1 ha hb
    · obtain rfl := List.mem_singleton.1 ha
      rw [if_pos rfl] at hb
      exact Or.inl (Option.some.inj hb)

/-! ## Linked logs -/

variable (key) in
/-- The first entry of every key is a root, every later one is linked to the
    entry of its key before it. -/
def Linked (root : α → Prop) (link : α → α → Prop) (l : List α) : Prop :=
  ∀ k, (∀ a ∈ (ofKey key k l).head?, root a) ∧ (ofKey key k l).IsChain link

variable {root : α → Prop} {link : α → α → Prop} {l : List α}

theorem Linked.nil : Linked key root link [] := fun _ => by simp [ofKey]

theorem Linked.append {a : α} (h : Linked key root link l)
    (hroot : last? key (key a) l = none → root a)
    (hlink : ∀ p, last? key (key a) l = some p → link p a) : Linked key root link (l ++ [a]) := by
  intro k
  rw [ofKey_concat]
  split_ifs with hk
  · subst hk
    obtain ⟨hhead, hchain⟩ := h (key a)
    refine ⟨fun b hb => ?_, ?_⟩
    · rcases hl : ofKey key (key a) l with _ | ⟨c, cs⟩
      · rw [hl] at hb
        have hab : b = a := by simpa using hb.symm
        exact hab ▸ hroot (by simp [last?, hl])
      · rw [hl] at hb hhead
        exact hhead b (by simpa using hb)
    · refine List.isChain_append.2 ⟨hchain, List.isChain_singleton a, fun x hx y hy => ?_⟩
      have hya : y = a := by simpa using hy.symm
      exact hya ▸ hlink x hx
  · exact h k

section Rank
variable (rank : α → ℕ)

/-- The `i`-th entry of a key has rank `i + 1`. -/
theorem Linked.rank_getElem (h : Linked key root link l) (hr : ∀ a, root a → rank a = 1)
    (hl : ∀ a b, link a b → rank b = rank a + 1) (k : κ) :
    ∀ (i : ℕ) (hi : i < (ofKey key k l).length), rank (ofKey key k l)[i] = i + 1
  | 0, hi => hr _ ((h k).1 _ (by
      rw [List.head?_eq_getElem?, List.getElem?_eq_getElem hi]; rfl))
  | i + 1, hi => by
    have hlink := (List.isChain_iff_getElem.1 (h k).2) i hi
    rw [hl _ _ hlink, h.rank_getElem hr hl k i (by omega)]

variable (h : Linked key root link l) (hr : ∀ a, root a → rank a = 1)
  (hl : ∀ a b, link a b → rank b = rank a + 1)

include h hr hl

/-- No entry of a key outranks the newest one. -/
theorem Linked.rank_le_last {a p : α} (ha : a ∈ l) (hp : last? key (key a) l = some p) :
    rank a ≤ rank p := by
  have ha' : a ∈ ofKey key (key a) l := mem_ofKey.2 ⟨ha, rfl⟩
  obtain ⟨i, hi, hai⟩ := List.getElem_of_mem ha'
  have hpi : p = (ofKey key (key a) l)[(ofKey key (key a) l).length - 1] := by
    have := hp; unfold last? at this
    rw [List.getLast?_eq_getElem?, List.getElem?_eq_getElem (by omega)] at this
    exact (Option.some.inj this).symm
  have h1 := h.rank_getElem rank hr hl _ i hi
  have h2 := h.rank_getElem rank hr hl (key a) _ (by omega : (ofKey key (key a) l).length - 1 < _)
  rw [hai] at h1; rw [← hpi] at h2; omega

end Rank

end KeyedLog
