/-
  A directory of hosts that refer to one another and to keys.

  `Tidy` says that the names are different, that every jump names a host, that no jumps come
  back and that every key is there.  The lemmas say what keeps a directory tidy: to put a host
  (a new one or in the place of another), to put several new ones, and to remove a host or a key.
-/
import Sshstate.Lib.Acyclic
import Sshstate.Proof.Jumps
import Sshstate.Vault.Payload

namespace Sshstate.Vault

open Relation (TransGen Acyclic)

/-- A directory: which host is under an id. -/
abbrev Directory := ID → HostPayload → Prop

/-- The jumps between the names of a directory. -/
def JumpsIn (H : Directory) (a b : List Char) : Prop :=
  ∃ i p, H i p ∧ p.hostAlias = a ∧ p.proxyJump = some b

/-- A directory in order, with the keys `K`. -/
structure Tidy (H : Directory) (K : ID → Prop) : Prop where
  unique : ∀ {i p q}, H i p → H i q → p = q
  hostAlias : ∀ {i p j q}, H i p → H j q → p.hostAlias = q.hostAlias → i = j
  jump : ∀ {i p a}, H i p → p.proxyJump = some a → ∃ j q, H j q ∧ q.hostAlias = a
  acyclic : Acyclic (JumpsIn H)
  keys : ∀ {i p k}, H i p → k ∈ p.keyIDs → K k

namespace Tidy

variable {H H' : Directory} {K K' : ID → Prop}

/-- The empty directory. -/
theorem empty (hH : ∀ i p, ¬ H i p) : Tidy H K where
  unique h := absurd h (hH _ _)
  hostAlias h := absurd h (hH _ _)
  jump h := absurd h (hH _ _)
  acyclic a hback := by
    obtain ⟨b, ⟨i, p, hp, -⟩, -⟩ := TransGen.head'_iff.1 hback
    exact hH i p hp
  keys h := absurd h (hH _ _)

theorem congr (h : Tidy H K) (hH : ∀ i p, H' i p ↔ H i p) (hK : ∀ k, K k → K' k) : Tidy H' K' := by
  obtain rfl : H' = H := by
    funext i p
    exact propext (hH i p)
  exact ⟨h.unique, h.hostAlias, h.jump, h.acyclic, fun hp hk => hK _ (h.keys hp hk)⟩

/-- A host jumps through another one. -/
theorem jump_other (h : Tidy H K) {r : ID} {p : HostPayload} (hp : H r p) {a : List Char}
    (ha : p.proxyJump = some a) : a ≠ p.hostAlias ∧ ∃ j q, H j q ∧ j ≠ r ∧ q.hostAlias = a := by
  have hne : a ≠ p.hostAlias := fun heq =>
    h.acyclic p.hostAlias (.single ⟨r, p, hp, rfl, heq ▸ ha⟩)
  obtain ⟨j, q, hq, rfl⟩ := h.jump hp ha
  refine ⟨hne, j, q, hq, ?_, rfl⟩
  rintro rfl
  exact hne (by rw [h.unique hq hp])

/-! ## Putting a host -/

/-- `H'` is `H` with `p` under `r`. -/
def PutAt (H H' : Directory) (r : ID) (p : HostPayload) : Prop :=
  ∀ i q, H' i q ↔ (i = r ∧ q = p) ∨ (i ≠ r ∧ H i q)

section

variable {r : ID} {p : HostPayload} (h : Tidy H K) (hput : PutAt H H' r p)
include h hput

/-- A put host keeps the directory tidy if its name is new among the others, it jumps through
    one of them, no other one jumps through a name that is lost, and its jumps do not come
    back. -/
theorem put (hfresh : ∀ j q, H j q → j ≠ r → q.hostAlias ≠ p.hostAlias)
    (htarget : ∀ a, p.proxyJump = some a → ∃ j q, H j q ∧ j ≠ r ∧ q.hostAlias = a)
    (hlost : ∀ q, H r q → q.hostAlias = p.hostAlias ∨
      ∀ j q', H j q' → j ≠ r → q'.proxyJump ≠ some q.hostAlias)
    (hback : ¬ TransGen (JumpsIn H') p.hostAlias p.hostAlias) (hkeys : ∀ k ∈ p.keyIDs, K k) :
    Tidy H' K where
  unique := by
    intro i q q' hq hq'
    rcases (hput i q).1 hq with ⟨rfl, rfl⟩ | ⟨hi, hq⟩ <;> rcases (hput i q').1 hq' with ⟨hi', rfl⟩ | ⟨hi', hq'⟩
    · rfl
    · exact absurd rfl hi'
    · exact absurd hi' hi
    · exact h.unique hq hq'
  hostAlias := by
    intro i q j q' hq hq' heq
    rcases (hput i q).1 hq with ⟨rfl, rfl⟩ | ⟨hi, hq⟩ <;> rcases (hput j q').1 hq' with ⟨rfl, rfl⟩ | ⟨hj, hq'⟩
    · rfl
    · exact absurd heq.symm (hfresh j q' hq' hj)
    · exact absurd heq (hfresh i q hq hi)
    · exact h.hostAlias hq hq' heq
  jump := by
    intro i q a hq ha
    rcases (hput i q).1 hq with ⟨rfl, rfl⟩ | ⟨hi, hq⟩
    · obtain ⟨j, q', hq', hj, hname⟩ := htarget a ha
      exact ⟨j, q', (hput j q').2 (.inr ⟨hj, hq'⟩), hname⟩
    · obtain ⟨j, q', hq', rfl⟩ := h.jump hq ha
      by_cases hj : j = r
      · subst hj
        have hname := (hlost q' hq').resolve_right fun hnone => hnone i q hq hi ha
        exact ⟨j, p, (hput j p).2 (.inl ⟨rfl, rfl⟩), hname.symm⟩
      · exact ⟨j, q', (hput j q').2 (.inr ⟨hj, hq'⟩), rfl⟩
  acyclic := by
    refine h.acyclic.of_new (N := fun a => a = p.hostAlias) ?_ ?_
    · rintro a b ⟨i, q, hq, rfl, hb⟩
      rcases (hput i q).1 hq with ⟨rfl, rfl⟩ | ⟨-, hq⟩
      · exact .inl rfl
      · exact .inr ⟨i, q, hq, rfl, hb⟩
    · rintro a rfl
      exact hback
  keys := by
    intro i q k hq hk
    rcases (hput i q).1 hq with ⟨rfl, rfl⟩ | ⟨-, hq⟩
    · exact hkeys k hk
    · exact h.keys hq hk

omit h in
/-- Without a jump, no jumps come back to the put host. -/
theorem not_returns_of_none (hfresh : ∀ j q, H j q → j ≠ r → q.hostAlias ≠ p.hostAlias)
    (hnone : p.proxyJump = none) : ¬ TransGen (JumpsIn H') p.hostAlias p.hostAlias := by
  intro hback
  obtain ⟨b, ⟨i, q, hq, hname, hb⟩, -⟩ := TransGen.head'_iff.1 hback
  rcases (hput i q).1 hq with ⟨rfl, rfl⟩ | ⟨hi, hq⟩
  · simp [hnone] at hb
  · exact hfresh i q hq hi hname

/-- A host with its jump and its name as before. -/
theorem not_returns_of_same {old : HostPayload} (hold : H r old) (hname : p.hostAlias = old.hostAlias)
    (hjump : p.proxyJump = old.proxyJump) : ¬ TransGen (JumpsIn H') p.hostAlias p.hostAlias := by
  refine h.acyclic.mono ?_ p.hostAlias
  rintro a b ⟨i, q, hq, rfl, hb⟩
  rcases (hput i q).1 hq with ⟨rfl, rfl⟩ | ⟨-, hq⟩
  · exact ⟨i, old, hold, hname.symm, hjump ▸ hb⟩
  · exact ⟨i, q, hq, rfl, hb⟩

/-- A host with a new name, which no host jumps through. -/
theorem not_returns_of_renamed (hfresh : ∀ j q, H j q → q.hostAlias ≠ p.hostAlias)
    (hself : p.proxyJump ≠ some p.hostAlias) :
    ¬ TransGen (JumpsIn H') p.hostAlias p.hostAlias := by
  refine Relation.not_transGen_of_entry ?_
  rintro a ⟨i, q, hq, -, hb⟩
  rcases (hput i q).1 hq with ⟨rfl, rfl⟩ | ⟨-, hq⟩
  · exact hself hb
  · obtain ⟨j, q', hq', hname⟩ := h.jump hq hb
    exact hfresh j q' hq' hname

end

/-! ## Putting several hosts -/

/-- New hosts keep the directory tidy if their names are new, they jump through hosts that are
    there afterwards, and their jumps do not come back. -/
theorem putAll (h : Tidy H K) {new : List (ID × HostPayload)}
    (hput : ∀ i q, H' i q ↔ (i, q) ∈ new ∨ H i q)
    (hids : ∀ x ∈ new, ∀ q, ¬ H x.1 q) (hnodup : (new.map Prod.fst).Nodup)
    (hnames : (new.map fun x => x.2.hostAlias).Nodup)
    (hfresh : ∀ x ∈ new, ∀ j q, H j q → q.hostAlias ≠ x.2.hostAlias)
    (htarget : ∀ x ∈ new, ∀ a, x.2.proxyJump = some a → ∃ j q, H' j q ∧ q.hostAlias = a)
    (hback : ∀ x ∈ new, ¬ TransGen (JumpsIn H') x.2.hostAlias x.2.hostAlias)
    (hkeys : ∀ x ∈ new, ∀ k ∈ x.2.keyIDs, K k) : Tidy H' K where
  unique := by
    intro i q q' hq hq'
    rcases (hput i q).1 hq with hq | hq <;> rcases (hput i q').1 hq' with hq' | hq'
    · exact congrArg Prod.snd (List.inj_on_of_nodup_map hnodup hq hq' rfl)
    · exact absurd hq' (hids _ hq q')
    · exact absurd hq (hids _ hq' q)
    · exact h.unique hq hq'
  hostAlias := by
    intro i q j q' hq hq' heq
    rcases (hput i q).1 hq with hq | hq <;> rcases (hput j q').1 hq' with hq' | hq'
    · exact congrArg Prod.fst (List.inj_on_of_nodup_map hnames hq hq' heq)
    · exact absurd heq.symm (hfresh _ hq j q' hq')
    · exact absurd heq (hfresh _ hq' i q hq)
    · exact h.hostAlias hq hq' heq
  jump := by
    intro i q a hq ha
    rcases (hput i q).1 hq with hq | hq
    · exact htarget _ hq a ha
    · obtain ⟨j, q', hq', hname⟩ := h.jump hq ha
      exact ⟨j, q', (hput j q').2 (.inr hq'), hname⟩
  acyclic := by
    refine h.acyclic.of_new (N := fun a => ∃ x ∈ new, x.2.hostAlias = a) ?_ ?_
    · rintro a b ⟨i, q, hq, rfl, hb⟩
      rcases (hput i q).1 hq with hq | hq
      · exact .inl ⟨_, hq, rfl⟩
      · exact .inr ⟨i, q, hq, rfl, hb⟩
    · rintro _ ⟨x, hx, rfl⟩
      exact hback x hx
  keys := by
    intro i q k hq hk
    rcases (hput i q).1 hq with hq | hq
    · exact hkeys _ hq k hk
    · exact h.keys hq hk

/-! ## Removing -/

/-- A host that no other one jumps through can be removed. -/
theorem remove (h : Tidy H K) {r : ID} (hremove : ∀ i q, H' i q ↔ i ≠ r ∧ H i q)
    (hunused : ∀ q, H r q → ∀ j q', H j q' → j ≠ r → q'.proxyJump ≠ some q.hostAlias) :
    Tidy H' K where
  unique hq hq' := h.unique ((hremove _ _).1 hq).2 ((hremove _ _).1 hq').2
  hostAlias hq hq' heq := h.hostAlias ((hremove _ _).1 hq).2 ((hremove _ _).1 hq').2 heq
  jump := by
    intro i q a hq ha
    obtain ⟨hi, hq⟩ := (hremove i q).1 hq
    obtain ⟨j, q', hq', rfl⟩ := h.jump hq ha
    refine ⟨j, q', (hremove j q').2 ⟨?_, hq'⟩, rfl⟩
    rintro rfl
    exact hunused q' hq' i q hq hi ha
  acyclic := by
    refine h.acyclic.mono ?_
    rintro a b ⟨i, q, hq, hname, hb⟩
    exact ⟨i, q, ((hremove i q).1 hq).2, hname, hb⟩
  keys hq hk := h.keys ((hremove _ _).1 hq).2 hk

/-- A key that no host offers can be removed. -/
theorem removeKey (h : Tidy H K) {r : ID} (hunused : ∀ i q, H i q → r ∉ q.keyIDs)
    (hK : ∀ k, k ≠ r → K k → K' k) : Tidy H K' where
  unique := h.unique
  hostAlias := h.hostAlias
  jump := h.jump
  acyclic := h.acyclic
  keys := by
    intro i q k hq hk
    refine hK k ?_ (h.keys hq hk)
    rintro rfl
    exact hunused i q hq hk

end Tidy

end Sshstate.Vault
