/-
  Loops of jump hosts are found exactly.

  Both walks keep the same invariant: the places they have seen lead to one another or to
  the place they are at, and none of them leads back to the start.  When a walk stops
  without a result for the start, these places are closed under the jumps, so no number of
  jumps comes back (`not_transGen_of_closed`).  The places seen are different, and this
  bounds the turns.
-/
import Sshstate.Daemon.Generate

/-- No path comes back to a place in a closed set that no step inside enters. -/
theorem Relation.not_transGen_of_closed {α : Type} {r : α → α → Prop} {a : α} {T : α → Prop}
    (ha : T a) (hT : ∀ x, T x → ∀ y, r x y → T y ∧ y ≠ a) : ¬ Relation.TransGen r a a := by
  have hreach : ∀ y, Relation.TransGen r a y → T y ∧ y ≠ a := by
    intro y h
    induction h with
    | single h => exact hT a ha _ h
    | tail _ h ih => exact hT _ ih.1 _ h
  exact fun h => (hreach a h).2 rfl

namespace Sshstate

open Relation (TransGen ReflTransGen)

/-! ## Maps as lists -/

theorem mem_of_lookup {α β : Type} [BEq α] [LawfulBEq α] {l : List (α × β)} {k : α} {v : β}
    (h : l.lookup k = some v) : (k, v) ∈ l := by
  induction l with
  | nil => simp at h
  | cons p l ih =>
    obtain ⟨k', v'⟩ := p
    rw [List.lookup_cons] at h
    rcases Classical.em (k = k') with hk | hk
    · subst hk
      simp only [beq_self_eq_true, Option.some.injEq] at h
      exact List.mem_cons.2 (.inl (by rw [h]))
    · rw [beq_false_of_ne hk] at h
      exact List.mem_cons_of_mem _ (ih h)

/-- With different keys, what is in a map is found. -/
theorem lookup_eq_some {α β : Type} [BEq α] [LawfulBEq α] {l : List (α × β)}
    (hl : (l.map Prod.fst).Nodup) {k : α} {v : β} : l.lookup k = some v ↔ (k, v) ∈ l := by
  refine ⟨mem_of_lookup, fun h => ?_⟩
  induction l with
  | nil => simp at h
  | cons p l ih =>
    obtain ⟨k', v'⟩ := p
    rw [List.map_cons, List.nodup_cons] at hl
    rw [List.lookup_cons]
    rcases List.mem_cons.1 h with h | h
    · cases h
      simp
    · have hk : k ≠ k' := fun hk => hl.1 (List.mem_map.2 ⟨(k, v), h, hk⟩)
      rw [beq_false_of_ne hk]
      exact ih hl.2 h

namespace Vault

/-! ## `jumpCycle` -/

/-- One jump. -/
def Jumps (jumps : JumpMap) (a b : List Char) : Prop := jumps.lookup a = some (some b)

/-- The walk of `jumpCycle` from `start`, on its way at `here`. -/
structure Walk (start : List Char) (jumps : JumpMap) (seen : List (List Char)) (here : List Char) :
    Prop where
  nodup : seen.Nodup
  start_mem : start ∈ seen ∨ start = here
  reached : ReflTransGen (Jumps jumps) start here
  onward : ∀ a ∈ seen, ∃ b, Jumps jumps a b ∧ b ≠ start ∧ (b ∈ seen ∨ b = here)

namespace Walk

variable {start : List Char} {jumps : JumpMap} {seen : List (List Char)} {here : List Char}

theorem init (start : List Char) (jumps : JumpMap) : Walk start jumps [] start where
  nodup := List.nodup_nil
  start_mem := .inr rfl
  reached := .refl
  onward := by simp

/-- Every place seen is a key of the map. -/
theorem length_le (w : Walk start jumps seen here) : seen.length ≤ jumps.length := by
  have hsub : seen ⊆ jumps.map Prod.fst := fun a ha => by
    obtain ⟨b, hb, -⟩ := w.onward a ha
    exact List.mem_map.2 ⟨(a, some b), mem_of_lookup hb, rfl⟩
  simpa using w.nodup.length_le_of_subset hsub

/-- The walk stops where no jump leads to a new place, and then it cannot come back. -/
theorem not_returns (w : Walk start jumps seen here)
    (hhere : ∀ b, Jumps jumps here b → b ≠ start ∧ b ∈ seen) :
    ¬ TransGen (Jumps jumps) start start := by
  refine Relation.not_transGen_of_closed (T := fun a => a ∈ seen ∨ a = here) w.start_mem ?_
  rintro a ha b hb
  by_cases hs : a ∈ seen
  · obtain ⟨b', hb', hne, hmem⟩ := w.onward a hs
    cases hb.symm.trans hb'
    exact ⟨hmem, hne⟩
  · obtain rfl : a = here := ha.resolve_left hs
    exact ⟨.inl (hhere b hb).2, (hhere b hb).1⟩

theorem next (w : Walk start jumps seen here) {b : List Char} (hb : Jumps jumps here b)
    (hne : b ≠ start) (hnew : b ∉ seen) : Walk start jumps (here :: seen) b where
  nodup := by
    -- a place seen before leads to a place seen before
    refine List.nodup_cons.2 ⟨fun hmem => ?_, w.nodup⟩
    obtain ⟨b', hb', -, hb'mem⟩ := w.onward here hmem
    cases hb.symm.trans hb'
    exact hnew (hb'mem.elim id fun h => h ▸ hmem)
  start_mem := .inl (by simpa [or_comm] using w.start_mem)
  reached := w.reached.tail hb
  onward := by
    intro a ha
    rcases List.mem_cons.1 ha with rfl | ha
    · exact ⟨b, hb, hne, .inr rfl⟩
    · obtain ⟨b', hb', hne', hmem⟩ := w.onward a ha
      exact ⟨b', hb', hne', .inl (by simpa [or_comm] using hmem)⟩

/-- With a turn for every key left, the walk comes to its end, and finds whether the jumps
    come back. -/
theorem run (w : Walk start jumps seen here) {turns : ℕ} (h : jumps.length < turns + seen.length) :
    ∃ found, jumpCycleFrom start jumps turns seen here = some found ∧
      (found = true ↔ TransGen (Jumps jumps) start start) := by
  induction turns generalizing seen here with
  | zero => exact absurd w.length_le (by omega)
  | succ turns ih =>
    rw [jumpCycleFrom]
    cases hjump : jumps.lookup here with
    | none =>
      refine ⟨false, rfl, ?_⟩
      simpa using w.not_returns fun b hb => by simp [Jumps, hjump] at hb
    | some jump =>
      cases jump with
      | none =>
        refine ⟨false, rfl, ?_⟩
        simpa using w.not_returns fun b hb => by simp [Jumps, hjump] at hb
      | some next =>
        by_cases hstart : next = start
        · refine ⟨true, by simp [hstart], ?_⟩
          simpa using TransGen.tail' w.reached (hstart ▸ hjump)
        · by_cases hseen : next ∈ seen
          · refine ⟨false, by simp [hstart, hseen], ?_⟩
            simpa using w.not_returns fun b hb => by
              cases hjump.symm.trans hb
              exact ⟨hstart, hseen⟩
          · simpa [hstart, hseen] using
              ih (w.next hjump hstart hseen) (by rw [List.length_cons]; omega)

/-- The walk from the start. -/
theorem run_init (start : List Char) {turns : ℕ} (h : jumps.length < turns) :
    ∃ found, jumpCycleFrom start jumps turns [] start = some found ∧
      (found = true ↔ TransGen (Jumps jumps) start start) :=
  (init start jumps).run h

end Walk

theorem jumpCycle_iff {start : List Char} {jumps : JumpMap} :
    jumpCycle start jumps = true ↔ TransGen (Jumps jumps) start start := by
  obtain ⟨found, hrun, hfound⟩ := Walk.run_init start (Nat.lt_succ_self jumps.length)
  rw [jumpCycle, hrun, Option.getD_some, hfound]

/-- The walk ends within a turn for every key and one more, and more turns change nothing. -/
theorem jumpCycleFrom_eq {start : List Char} {jumps : JumpMap} {turns : ℕ}
    (h : jumps.length < turns) :
    jumpCycleFrom start jumps turns [] start = some (jumpCycle start jumps) := by
  obtain ⟨found, hrun, hfound⟩ := Walk.run_init start h
  rw [hrun, Bool.eq_iff_iff.2 (hfound.trans jumpCycle_iff.symm)]

end Vault

namespace Daemon

open Vault (HostView Jumps jumpsOf jumpCycle jumpCycle_iff)

/-! ## `jumpLoops` -/

theorem foldl_put {α γ : Type} (f : α → γ) (l : List α) (m : List γ) :
    l.foldl (fun m a => f a :: m) m = (l.map f).reverse ++ m := by
  induction l generalizing m with
  | nil => rfl
  | cons a l ih => simp [ih]

section

variable {hosts : List HostView} (halias : (hosts.map HostView.hostAlias).Nodup)
include halias

theorem lookup_uniqueOf {a : List Char} {h : HostView} :
    (uniqueOf hosts).lookup a = some h ↔ h ∈ hosts ∧ h.hostAlias = a := by
  rw [uniqueOf, foldl_put, List.append_nil, lookup_eq_some]
  · simp only [List.mem_reverse, List.mem_map, Prod.mk.injEq]
    constructor
    · rintro ⟨h', hmem, rfl, rfl⟩
      exact ⟨hmem, rfl⟩
    · rintro ⟨hmem, rfl⟩
      exact ⟨h, hmem, rfl, rfl⟩
  · rwa [List.map_reverse, List.nodup_reverse, List.map_map]

theorem jumps_jumpsOf {a b : List Char} :
    Jumps (jumpsOf hosts) a b ↔ ∃ h ∈ hosts, h.hostAlias = a ∧ h.proxyJump = some b := by
  rw [Jumps, jumpsOf, foldl_put, List.append_nil, lookup_eq_some]
  · simp only [List.mem_reverse, List.mem_map, Prod.mk.injEq]
  · rwa [List.map_reverse, List.nodup_reverse, List.map_map]

end

/-- The walk of `jumpLoops` from `start`, on its way at `here`. -/
structure LoopWalk (hosts : List HostView) (start : HostView) (visited : List HostView)
    (here : HostView) : Prop where
  nodup : visited.Nodup
  visited_sub : visited ⊆ hosts
  start_mem : start ∈ visited
  here_mem : here ∈ visited
  reached : ReflTransGen (Jumps (jumpsOf hosts)) start.hostAlias here.hostAlias
  onward : ∀ h ∈ visited, h ≠ here →
    ∃ h' ∈ visited, h' ≠ start ∧ h.proxyJump = some h'.hostAlias

namespace LoopWalk

variable {hosts visited : List HostView} {start here : HostView}

theorem init (h : start ∈ hosts) : LoopWalk hosts start [start] start where
  nodup := List.nodup_singleton start
  visited_sub := by simpa using h
  start_mem := List.mem_singleton_self start
  here_mem := List.mem_singleton_self start
  reached := .refl
  onward := fun h hmem hne => absurd (List.mem_singleton.1 hmem) hne

variable (halias : (hosts.map HostView.hostAlias).Nodup)
include halias

/-- The jump of a host in the list. -/
theorem jump_of_alias {h : HostView} (hmem : h ∈ hosts) {b : List Char}
    (hb : Jumps (jumpsOf hosts) h.hostAlias b) : h.proxyJump = some b := by
  obtain ⟨h', hmem', heq, hjump⟩ := (jumps_jumpsOf halias).1 hb
  rwa [List.inj_on_of_nodup_map halias hmem' hmem heq] at hjump

/-- The walk stops where the jump leads to a host visited or to no host. -/
theorem not_returns (w : LoopWalk hosts start visited here)
    (hhere : ∀ b, here.proxyJump = some b → b ≠ start.hostAlias ∧
      ((∃ h ∈ visited, h.hostAlias = b) ∨ ∀ h ∈ hosts, h.hostAlias ≠ b)) :
    ¬ TransGen (Jumps (jumpsOf hosts)) start.hostAlias start.hostAlias := by
  refine Relation.not_transGen_of_closed
    (T := fun a => (∃ h ∈ visited, h.hostAlias = a) ∨ ∀ h ∈ hosts, h.hostAlias ≠ a)
    (.inl ⟨start, w.start_mem, rfl⟩) ?_
  rintro a (⟨h, hmem, rfl⟩ | hnone) b hb
  · have hjump := jump_of_alias halias (w.visited_sub hmem) hb
    by_cases hh : h = here
    · subst hh
      exact ⟨(hhere b hjump).2, (hhere b hjump).1⟩
    · obtain ⟨h', hmem', hne, hjump'⟩ := w.onward h hmem hh
      cases hjump.symm.trans hjump'
      refine ⟨.inl ⟨h', hmem', rfl⟩, fun heq => hne ?_⟩
      exact List.inj_on_of_nodup_map halias (w.visited_sub hmem') (w.visited_sub w.start_mem) heq
  · obtain ⟨h, hmem, heq, -⟩ := (jumps_jumpsOf halias).1 hb
    exact absurd heq (hnone h hmem)

theorem next (w : LoopWalk hosts start visited here) {h : HostView} (hmem : h ∈ hosts)
    (hjump : here.proxyJump = some h.hostAlias) (hne : h ≠ start) (hnew : h ∉ visited) :
    LoopWalk hosts start (h :: visited) h where
  nodup := List.nodup_cons.2 ⟨hnew, w.nodup⟩
  visited_sub := List.cons_subset.2 ⟨hmem, w.visited_sub⟩
  start_mem := List.mem_cons_of_mem _ w.start_mem
  here_mem := List.mem_cons_self
  reached := w.reached.tail
    ((jumps_jumpsOf halias).2 ⟨here, w.visited_sub w.here_mem, rfl, hjump⟩)
  onward := by
    intro x hx hxne
    have hxmem := (List.mem_cons.1 hx).resolve_left hxne
    by_cases hxhere : x = here
    · subst hxhere
      exact ⟨h, List.mem_cons_self, hne, hjump⟩
    · obtain ⟨h', hmem', hne', hjump'⟩ := w.onward x hxmem hxhere
      exact ⟨h', List.mem_cons_of_mem _ hmem', hne', hjump'⟩

/-- With a turn for every host not visited, the walk comes to its end, and finds whether the
    jumps come back. -/
theorem run (hid : (hosts.map HostView.recordID).Nodup) (w : LoopWalk hosts start visited here)
    {turns : ℕ} (h : hosts.length < turns + visited.length) :
    ∃ found, jumpLoopsFrom start (uniqueOf hosts) turns (visited.map HostView.recordID) here =
        some found ∧
      (found = true ↔ TransGen (Jumps (jumpsOf hosts)) start.hostAlias start.hostAlias) := by
  induction turns generalizing visited here with
  | zero => exact absurd (w.nodup.length_le_of_subset w.visited_sub) (by omega)
  | succ turns ih =>
    rw [jumpLoopsFrom]
    cases hjump : here.proxyJump with
    | none =>
      refine ⟨false, rfl, ?_⟩
      simpa using w.not_returns halias fun b hb => by simp [hjump] at hb
    | some jump =>
      cases hlookup : (uniqueOf hosts).lookup jump with
      | none =>
        refine ⟨false, by simp [hlookup], ?_⟩
        have hnone : ∀ h ∈ hosts, h.hostAlias ≠ jump := fun h hmem heq => by
          simp [(lookup_uniqueOf halias).2 ⟨hmem, heq⟩] at hlookup
        simpa using w.not_returns halias fun b hb => by
          cases hjump.symm.trans hb
          exact ⟨(hnone start (w.visited_sub w.start_mem)).symm, .inr hnone⟩
      | some next =>
        obtain ⟨hmem, rfl⟩ := (lookup_uniqueOf halias).1 hlookup
        have hback : Jumps (jumpsOf hosts) here.hostAlias next.hostAlias :=
          (jumps_jumpsOf halias).2 ⟨here, w.visited_sub w.here_mem, rfl, hjump⟩
        -- record ids tell the hosts of the list apart
        have hinj : ∀ x ∈ hosts, next.recordID = x.recordID → next = x := fun x hx heq =>
          List.inj_on_of_nodup_map hid hmem hx heq
        by_cases hstart : next = start
        · subst hstart
          refine ⟨true, by simp [hlookup], ?_⟩
          simpa using TransGen.tail' w.reached hback
        · have hstartID : next.recordID ≠ start.recordID := fun heq =>
            hstart (hinj start (w.visited_sub w.start_mem) heq)
          have hseen : (visited.map HostView.recordID).contains next.recordID = true ↔
              next ∈ visited := by
            simp only [List.contains_iff_mem, List.mem_map]
            constructor
            · rintro ⟨x, hx, heq⟩
              rwa [hinj x (w.visited_sub hx) heq.symm]
            · exact fun hx => ⟨next, hx, rfl⟩
          by_cases hvisited : next ∈ visited
          · refine ⟨false, by simp only [hlookup]; rw [if_neg hstartID, if_pos (hseen.2 hvisited)], ?_⟩
            simpa using w.not_returns halias fun b hb => by
              cases hjump.symm.trans hb
              refine ⟨fun heq => hstart ?_, .inl ⟨next, hvisited, rfl⟩⟩
              exact List.inj_on_of_nodup_map halias hmem (w.visited_sub w.start_mem) heq
          · have hnew : (visited.map HostView.recordID).contains next.recordID = false :=
              Bool.eq_false_iff.2 fun hc => hvisited (hseen.1 hc)
            simp only [hlookup]
            rw [if_neg hstartID, hnew, if_neg Bool.false_ne_true]
            exact ih (w.next halias hmem hjump hstart hvisited) (by rw [List.length_cons]; omega)

end LoopWalk

/-- **Main result.**  Whatever the map and the start, the walk of `jumpCycle` ends, and it
    finds exactly the starts that following the jumps comes back to; and `jumpLoops` finds
    the same for the hosts of a list. -/
theorem jump_loops_exact :
    (∀ (jumps : Vault.JumpMap) (start : List Char),
      (∀ turns, jumps.length < turns →
        Vault.jumpCycleFrom start jumps turns [] start = some (jumpCycle start jumps)) ∧
      (jumpCycle start jumps = true ↔ TransGen (Jumps jumps) start start)) ∧
    ∀ hosts : List HostView, (hosts.map HostView.hostAlias).Nodup →
      (hosts.map HostView.recordID).Nodup → ∀ h ∈ hosts,
      (∀ turns, hosts.length < turns →
        jumpLoopsFrom h (uniqueOf hosts) turns [h.recordID] h = some (jumpLoops h (uniqueOf hosts))) ∧
      jumpCycle h.hostAlias (jumpsOf hosts) = jumpLoops h (uniqueOf hosts) := by
  refine ⟨fun jumps start => ⟨fun turns h => Vault.jumpCycleFrom_eq h, jumpCycle_iff⟩,
    fun hosts halias hid h hmem => ?_⟩
  have hlength : (uniqueOf hosts).length = hosts.length := by simp [uniqueOf]
  have hrun (turns : ℕ) (hturns : hosts.length < turns) :=
    (LoopWalk.init hmem).run halias hid
      (show hosts.length < turns + [h].length from Nat.lt_succ_of_lt hturns)
  obtain ⟨found, hloops, hfound⟩ := hrun (hosts.length + 1) (Nat.lt_succ_self _)
  have heq : jumpLoops h (uniqueOf hosts) = found := by
    rw [jumpLoops, hlength]
    exact congrArg (·.getD false) hloops
  refine ⟨fun turns hturns => ?_, ?_⟩
  · obtain ⟨found', hloops', hfound'⟩ := hrun turns hturns
    rw [heq]
    exact hloops'.trans (by rw [Bool.eq_iff_iff.2 (hfound'.trans hfound.symm)])
  · rw [heq, Bool.eq_iff_iff, hfound, jumpCycle_iff]

namespace Jump01

def host (recordID hostAlias jump : List Char) : HostView where
  recordID := recordID
  hostAlias := hostAlias
  hostName := hostAlias
  user := []
  port := 22
  proxyJump := some jump
  keyIDs := []

/-- Two hosts jump through each other, and a third jumps through one of them. -/
def hosts : List HostView := [host ['1'] ['a'] ['b'], host ['2'] ['b'] ['a'], host ['3'] ['c'] ['a']]

theorem jump_loops_exact_tail :
    (hosts.map HostView.hostAlias).Nodup ∧ (hosts.map HostView.recordID).Nodup ∧
    hosts.map (fun h => jumpLoops h (uniqueOf hosts)) = [true, true, false] ∧
    ∀ h ∈ hosts, jumpCycle h.hostAlias (jumpsOf hosts) = jumpLoops h (uniqueOf hosts) := by
  have halias : (hosts.map HostView.hostAlias).Nodup := by decide
  have hid : (hosts.map HostView.recordID).Nodup := by decide
  exact ⟨halias, hid, by decide, fun h hmem => (jump_loops_exact.2 hosts halias hid h hmem).2⟩

end Jump01

end Daemon

end Sshstate
