/-
  The devices of a fleet after a step of one of them.
-/
import Sshstate.Proof.Backed

namespace Sshstate.Sync

instance (r : Relay.Store) (e : Envelope) : Decidable (InLog r e) :=
  inferInstanceAs (Decidable (∃ row ∈ r.log, row.envelope = e.strip))

theorem mem_nodes_setNode {F : Fleet} {d d' : ID} {n' m : Node}
    (h : (F.setNode d n').nodes d' = some m) :
    (d' = d ∧ m = n') ∨ (d' ≠ d ∧ F.nodes d' = some m) := by
  by_cases hd : d' = d
  · subst hd; exact Or.inl ⟨rfl, by simpa [Fleet.setNode, eq_comm] using h⟩
  · exact Or.inr ⟨hd, by simpa [Fleet.setNode, hd] using h⟩

end Sshstate.Sync
