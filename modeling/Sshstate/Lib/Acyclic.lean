/-
  Relations in which no path comes back to where it began.

  A relation stays acyclic when edges are taken away (`Acyclic.mono`), and when edges that
  leave new places are added, as long as no path through the new relation comes back to one of
  these places (`Acyclic.of_new`); none does if nothing enters them (`not_transGen_of_entry`).
-/
import Mathlib.Logic.Relation
import Mathlib.Tactic.Common

namespace Relation

variable {α : Type} {r s : α → α → Prop}

/-- No path comes back to where it began. -/
def Acyclic (r : α → α → Prop) : Prop := ∀ a, ¬ TransGen r a a

theorem Acyclic.mono (h : Acyclic r) (hs : ∀ a b, s a b → r a b) : Acyclic s := fun a hback =>
  h a (TransGen.mono hs _ _ hback)

/-- A path of the new relation is one of the old relation, or it passes a new place. -/
theorem transGen_or_new {N : α → Prop} (hs : ∀ a b, s a b → N a ∨ r a b) {a b : α}
    (h : TransGen s a b) :
    TransGen r a b ∨ ∃ c, N c ∧ ReflTransGen s a c ∧ TransGen s c b := by
  induction h with
  | single hab =>
    rcases hs _ _ hab with hN | hr
    · exact .inr ⟨a, hN, .refl, .single hab⟩
    · exact .inl (.single hr)
  | tail hab hbc ih =>
    rcases ih with ih | ⟨c, hN, hac, hcb⟩
    · rcases hs _ _ hbc with hN | hr
      · exact .inr ⟨_, hN, hab.to_reflTransGen, .single hbc⟩
      · exact .inl (ih.tail hr)
    · exact .inr ⟨c, hN, hac, hcb.tail hbc⟩

theorem Acyclic.of_new {N : α → Prop} (h : Acyclic r) (hs : ∀ a b, s a b → N a ∨ r a b)
    (hN : ∀ a, N a → ¬ TransGen s a a) : Acyclic s := by
  intro a hback
  rcases transGen_or_new hs hback with hr | ⟨c, hc, hac, hca⟩
  · exact h a hr
  · exact hN c hc (hca.trans_left hac)

/-- No path comes back to a place that nothing enters. -/
theorem not_transGen_of_entry {a : α} (h : ∀ b, ¬ s b a) : ¬ TransGen s a a := fun hback => by
  obtain ⟨b, -, hb⟩ := TransGen.tail'_iff.1 hback
  exact h b hb

end Relation
