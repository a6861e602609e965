/-
  Unlock sessions are bounded.

  What one call does to the session is said once (`step_cases`).  The invariant of a run is
  that the deadlines are those of the last `Unlock` that succeeded and of the last call since
  that moved the idle deadline (`Sound`).  A session that is over at some time stays over,
  since no call that finds it so moves a deadline (`over_step`).
-/
import Sshstate.Protocol.Sample
import Sshstate.Vault.Session

namespace Sshstate.Vault

/-- The readings of the clock in a call. -/
def SessionCall.readings : SessionCall → List ℤ
  | .unlock _ _ now => [now]
  | .lock => []
  | .touch now later => [now, later]
  | .expire now => [now]
  | .read now _ => [now]
  | .mutate _ now _ later => [now, later]

namespace SessionManager

/-! ## One call -/

/-- The call is an `Unlock` that succeeds at the time `u`. -/
def Opens (m : SessionManager) : SessionCall → ℤ → Prop
  | .unlock c password now, u => (∃ r, m.unlockKeys c password = .ok r) ∧ now = u
  | _, _ => False

/-- The call is a `Touch` or a mutation that succeeds at the time `x`. -/
def Extends (m : SessionManager) (c : SessionCall) (x : ℤ) : Prop :=
  (m.step c).2.result = .ok () ∧
    match c with
    | .touch _ later => later = x
    | .mutate _ _ _ later => later = x
    | _ => False

theorem Opens.not_read {m : SessionManager} {c : SessionCall} {u : ℤ} (h : Opens m c u) :
    ¬ ∃ now body, c = .read now body := by
  rintro ⟨now, body, rfl⟩
  exact h

theorem Opens.not_failed {m : SessionManager} {c : SessionCall} {u : ℤ} (h : Opens m c u) :
    ¬ ∃ e, (m.step c).2.result = .error e := by
  cases c with
  | unlock c password now =>
    obtain ⟨⟨r, hr⟩, -⟩ := h
    simp [step, hr]
  | lock => exact h.elim
  | touch => exact h.elim
  | expire => exact h.elim
  | read => exact h.elim
  | mutate => exact h.elim

theorem Extends.not_read {m : SessionManager} {c : SessionCall} {x : ℤ} (h : Extends m c x) :
    ¬ ∃ now body, c = .read now body := by
  rintro ⟨now, body, rfl⟩
  exact h.2

theorem Extends.not_failed {m : SessionManager} {c : SessionCall} {x : ℤ} (h : Extends m c x) :
    ¬ ∃ e, (m.step c).2.result = .error e := by
  rintro ⟨e, he⟩
  cases h.1.symm.trans he

/-- The session goes on at the time `now`. -/
def Live (s : Session) (now : ℤ) : Prop := now < s.hardDeadline ∧ now < s.idleDeadline

/-- A session is returned while it goes on, and lost otherwise. -/
theorem session_cases (m : SessionManager) (now : ℤ) :
    (∃ s, m.current = some s ∧ Live s now ∧ m.session now = (.ok s, m)) ∨
    m.session now = (.error errLocked, m.lockLocked) := by
  cases hm : m.current with
  | none =>
    right
    have hlocked : m.lockLocked = m := by
      cases m
      cases hm
      rfl
    simp [session, hm, hlocked]
  | some s =>
    by_cases hlive : Live s now
    · exact .inl ⟨s, rfl, hlive, by simp [session, hm, hlive.1, hlive.2]⟩
    · right
      have hpast : ¬ now < s.hardDeadline ∨ ¬ now < s.idleDeadline := not_and_or.1 hlive
      rw [session, hm]
      exact if_pos hpast

/-- What a call does to the session: an `Unlock` begins a new one, a `Touch` or a mutation
    that succeeds moves the idle deadline, and every other call leaves it or ends it. -/
theorem step_cases (m : SessionManager) (c : SessionCall) :
    (∃ u s, Opens m c u ∧ (m.step c).1.current = some s ∧
      s.hardDeadline = u + hardTimeout ∧ s.idleDeadline = u + idleTimeout) ∨
    (∃ x s, Extends m c x ∧ m.current = some s ∧ (∃ now ∈ c.readings, Live s now) ∧
      (m.step c).1.current = some { s with idleDeadline := x + idleTimeout }) ∨
    (m.step c).1.current = none ∨
    (c ≠ .lock ∧ (m.step c).1.current = m.current) := by
  cases c with
  | unlock c password now =>
    cases hkeys : m.unlockKeys c password with
    | error e => exact .inr (.inr (.inr ⟨by simp, by simp [step, hkeys]⟩))
    | ok r =>
      obtain ⟨keys, signing, encryption⟩ := r
      refine .inl ⟨now, newSession keys signing encryption now, ⟨⟨_, hkeys⟩, rfl⟩, ?_, rfl, rfl⟩
      simp [step, hkeys]
  | lock => exact .inr (.inr (.inl rfl))
  | touch now later =>
    rcases m.session_cases now with ⟨s, hm, hlive, hs⟩ | hs
    · refine .inr (.inl ⟨later, s, ⟨by simp [step, hs], rfl⟩, hm, ⟨now, by simp [SessionCall.readings],
        hlive⟩, ?_⟩)
      simp [step, hs, extend, hm]
    · exact .inr (.inr (.inl (by simp [step, hs, lockLocked])))
  | expire now =>
    rcases m.session_cases now with ⟨s, hm, hlive, hs⟩ | hs
    · exact .inr (.inr (.inr ⟨by simp, by simp [step, hs]⟩))
    · exact .inr (.inr (.inl (by simp [step, hs, lockLocked])))
  | read now body =>
    rcases m.session_cases now with ⟨s, hm, hlive, hs⟩ | hs
    · exact .inr (.inr (.inr ⟨by simp, by simp [step, hs]⟩))
    · exact .inr (.inr (.inl (by simp [step, hs, lockLocked])))
  | mutate recoveryConfirmed now body later =>
    cases recoveryConfirmed with
    | false => exact .inr (.inr (.inr ⟨by simp, by simp [step]⟩))
    | true =>
      rcases m.session_cases now with ⟨s, hm, hlive, hs⟩ | hs
      · cases hbody : body s with
        | error e => exact .inr (.inr (.inr ⟨by simp, by simp [step, hs, hbody]⟩))
        | ok _ =>
          refine .inr (.inl ⟨later, s, ⟨by simp [step, hs, hbody], rfl⟩, hm,
            ⟨now, by simp [SessionCall.readings], hlive⟩, ?_⟩)
          simp [step, hs, hbody, extend, hm]
      · exact .inr (.inr (.inl (by simp [step, hs, lockLocked])))

/-- A call that runs the function it was given finds a session that goes on. -/
theorem live_of_ran {m : SessionManager} {c : SessionCall} {t : ℤ} (h : (m.step c).2.ran = some t) :
    t ∈ c.readings ∧ ∃ s, m.current = some s ∧ Live s t := by
  cases c with
  | unlock c password now =>
    cases hkeys : m.unlockKeys c password <;> simp [step, hkeys] at h
  | lock => simp [step] at h
  | touch now later =>
    rcases m.session_cases now with ⟨s, hm, hlive, hs⟩ | hs <;> simp [step, hs] at h
  | expire now =>
    rcases m.session_cases now with ⟨s, hm, hlive, hs⟩ | hs <;> simp [step, hs] at h
  | read now body =>
    rcases m.session_cases now with ⟨s, hm, hlive, hs⟩ | hs
    · simp only [step, hs, Option.some.injEq] at h
      exact h ▸ ⟨by simp [SessionCall.readings], s, hm, hlive⟩
    · simp [step, hs] at h
  | mutate recoveryConfirmed now body later =>
    cases recoveryConfirmed with
    | false => simp [step] at h
    | true =>
      rcases m.session_cases now with ⟨s, hm, hlive, hs⟩ | hs
      · have ht : now = t := by cases hbody : body s <;> simpa [step, hs, hbody] using h
        exact ht ▸ ⟨by simp [SessionCall.readings], s, hm, hlive⟩
      · simp [step, hs] at h

/-! ## Runs -/

theorem after_concat (m : SessionManager) (calls : List SessionCall) (c : SessionCall) :
    m.after (calls ++ [c]) = ((m.after calls).step c).1 := by
  simp [after]

/-- In the calls an `Unlock` succeeded at `u`, no `Lock` followed it, and `x` is its time or
    the time of a `Touch` or a mutation that succeeded since. -/
def Unlocked (m : SessionManager) (calls : List SessionCall) (u x : ℤ) : Prop :=
  ∃ pre c rest, calls = pre ++ c :: rest ∧ Opens (m.after pre) c u ∧ SessionCall.lock ∉ rest ∧
    (x = u ∨ ∃ mid e post, rest = mid ++ e :: post ∧ Extends (m.after (pre ++ c :: mid)) e x)

namespace Unlocked

variable {m : SessionManager} {calls : List SessionCall} {u x : ℤ}

theorem of_opens {c : SessionCall} (h : Opens (m.after calls) c u) : Unlocked m (calls ++ [c]) u u :=
  ⟨calls, c, [], rfl, h, List.not_mem_nil, .inl rfl⟩

theorem concat (h : Unlocked m calls u x) {d : SessionCall} (hd : d ≠ .lock) :
    Unlocked m (calls ++ [d]) u x := by
  obtain ⟨pre, c, rest, rfl, hc, hlock, hx⟩ := h
  refine ⟨pre, c, rest ++ [d], by simp, hc, by simp [hlock, Ne.symm hd], ?_⟩
  rcases hx with hx | ⟨mid, e, post, rfl, he⟩
  · exact .inl hx
  · exact .inr ⟨mid, e, post ++ [d], by simp, he⟩

theorem extend (h : Unlocked m calls u x) {d : SessionCall} {y : ℤ}
    (hd : Extends (m.after calls) d y) : Unlocked m (calls ++ [d]) u y := by
  have hlock : d ≠ .lock := by
    rintro rfl
    exact hd.2
  obtain ⟨pre, c, rest, rfl, hc, hrest, -⟩ := h
  exact ⟨pre, c, rest ++ [d], by simp, hc, by simp [hrest, Ne.symm hlock],
    .inr ⟨rest, d, [], rfl, hd⟩⟩

end Unlocked

/-- The deadlines are those of an `Unlock` and of a later call. -/
def Sound (m : SessionManager) (calls : List SessionCall) : Prop :=
  ∀ s, (m.after calls).current = some s →
    ∃ u x, Unlocked m calls u x ∧ s.hardDeadline = u + hardTimeout ∧ s.idleDeadline = x + idleTimeout

theorem sound_after {m : SessionManager} (hm : m.current = none) (calls : List SessionCall) :
    Sound m calls := by
  induction calls using List.reverseRecOn with
  | nil =>
    intro s hs
    rw [show m.after [] = m from rfl, hm] at hs
    cases hs
  | append_singleton calls c ih =>
    intro s hs
    rw [after_concat] at hs
    rcases (m.after calls).step_cases c with
      ⟨u, s', hopen, hs', hhard, hidle⟩ | ⟨x, s', hext, hs', -, hnext⟩ | hnone | ⟨hlock, hsame⟩
    · cases hs'.symm.trans hs
      exact ⟨u, u, .of_opens hopen, hhard, hidle⟩
    · cases hnext.symm.trans hs
      obtain ⟨u, y, hunlocked, hhard, -⟩ := ih s' hs'
      exact ⟨u, x, hunlocked.extend hext, hhard, rfl⟩
    · rw [hnone] at hs
      cases hs
    · rw [hsame] at hs
      obtain ⟨u, x, hunlocked, hhard, hidle⟩ := ih s hs
      exact ⟨u, x, hunlocked.concat hlock, hhard, hidle⟩

/-! ## Sessions that are over -/

/-- No session goes on at the time `now`. -/
def Over (m : SessionManager) (now : ℤ) : Prop := ∀ s, m.current = some s → ¬ Live s now

theorem Over.mono {m : SessionManager} {now later : ℤ} (h : Over m now) (hle : now ≤ later) :
    Over m later :=
  fun s hs hlive => h s hs ⟨hle.trans_lt hlive.1, hle.trans_lt hlive.2⟩

/-- A session that is over stays over until the next `Unlock` that succeeds. -/
theorem over_step {m : SessionManager} {c : SessionCall} {now : ℤ} (h : Over m now)
    (hclock : ∀ r ∈ c.readings, now ≤ r) (hopen : ∀ u, ¬ Opens m c u) :
    Over (m.step c).1 now ∧ (m.step c).2.ran = none := by
  constructor
  · intro s hs hlive
    rcases m.step_cases c with
      ⟨u, -, hu, -⟩ | ⟨x, s', -, hs', ⟨r, hr, hlive'⟩, -⟩ | hnone | ⟨-, hsame⟩
    · exact hopen u hu
    · exact h.mono (hclock r hr) s' hs' hlive'
    · rw [hnone] at hs
      cases hs
    · exact h s (hsame.symm.trans hs) hlive
  · cases hran : (m.step c).2.ran with
    | none => rfl
    | some t =>
      obtain ⟨ht, s, hs, hlive⟩ := live_of_ran hran
      exact absurd hlive (h.mono (hclock t ht) s hs)

theorem over_after {m : SessionManager} {calls : List SessionCall} {now : ℤ} (h : Over m now)
    (hclock : ∀ c ∈ calls, ∀ r ∈ c.readings, now ≤ r)
    (hopen : ∀ pre c post u, calls = pre ++ c :: post → ¬ Opens (m.after pre) c u) :
    Over (m.after calls) now := by
  induction calls using List.reverseRecOn with
  | nil => exact h
  | append_singleton calls c ih =>
    rw [after_concat]
    refine (over_step (ih (fun d hd => hclock d (List.mem_append_left _ hd)) ?_)
      (hclock c (by simp)) fun u => hopen calls c [] u rfl).1
    intro pre d post u heq
    exact hopen pre d (post ++ [c]) u (by simp [heq])

/-- **Main result.**  From a locked manager, a call runs the function it was given only within
    8 hours of an `Unlock` that no `Lock` followed, and within 15 minutes of this `Unlock` or
    of a `Touch` or a mutation since.  A read or a call that fails leaves the session as it is
    or ends it.  And when the time of a session has come, or the manager is
    locked, nothing runs before the next `Unlock` that succeeds. -/
theorem sessions_bounded (m : SessionManager) (hm : m.current = none) (calls : List SessionCall) :
    (∀ c t, ((m.after calls).step c).2.ran = some t →
      ∃ u x, Unlocked m calls u x ∧ t < u + hardTimeout ∧ t < x + idleTimeout) ∧
    (∀ c, (∃ now body, c = .read now body) ∨ (∃ e, ((m.after calls).step c).2.result = .error e) →
      (m.after (calls ++ [c])).current = (m.after calls).current ∨
      (m.after (calls ++ [c])).current = none) ∧
    ∀ now more c,
      ((∀ u x, Unlocked m calls u x → u + hardTimeout ≤ now ∨ x + idleTimeout ≤ now) ∨
        (m.after calls).current = none) →
      (∀ d ∈ more ++ [c], ∀ r ∈ d.readings, now ≤ r) →
      (∀ pre d post u, more = pre ++ d :: post → ¬ Opens (m.after (calls ++ pre)) d u) →
      ((m.after (calls ++ more)).step c).2.ran = none := by
  have happend (l : List SessionCall) : m.after (calls ++ l) = (m.after calls).after l := by
    simp [after]
  refine ⟨fun c t hran => ?_, fun c hc => ?_, fun now more c hend hclock hopen => ?_⟩
  · obtain ⟨-, s, hs, hlive⟩ := live_of_ran hran
    obtain ⟨u, x, hunlocked, hhard, hidle⟩ := sound_after hm calls s hs
    exact ⟨u, x, hunlocked, hhard ▸ hlive.1, hidle ▸ hlive.2⟩
  · rw [after_concat]
    rcases (m.after calls).step_cases c with ⟨u, -, hu, -⟩ | ⟨x, -, hx, -⟩ | hnone | ⟨-, hsame⟩
    · exact absurd hc (not_or.2 ⟨hu.not_read, hu.not_failed⟩)
    · exact absurd hc (not_or.2 ⟨hx.not_read, hx.not_failed⟩)
    · exact .inr hnone
    · exact .inl hsame
  · have hover : Over (m.after calls) now := by
      intro s hs hlive
      rcases hend with hend | hnone
      · obtain ⟨u, x, hunlocked, hhard, hidle⟩ := sound_after hm calls s hs
        rcases hend u x hunlocked with hle | hle
        · exact absurd hlive.1 (not_lt.2 (hhard ▸ hle))
        · exact absurd hlive.2 (not_lt.2 (hidle ▸ hle))
      · rw [hnone] at hs
        cases hs
    have hmore := over_after hover (fun d hd => hclock d (List.mem_append_left _ hd))
      fun pre d post u heq => happend pre ▸ hopen pre d post u heq
    rw [happend]
    cases hran : (((m.after calls).after more).step c).2.ran with
    | none => rfl
    | some t =>
      obtain ⟨ht, s, hs, hlive⟩ := live_of_ran hran
      exact absurd hlive (hmore.mono (hclock c (by simp) t ht) s hs)

namespace Session01

def chest : Chest where
  wrapper _ := .ok []
  unwrap _ password _ := .ok password
  signingKeyFromSeed := .ok
  verifierBytes _ := Sample.genesis.firstDeviceVerifyKey
  parseEncryptionKey := .ok
  symmetricKeyFromBytes := .ok
  keyEpoch := .ok ['1']
  parseCounter _ := .ok 1

def manager : SessionManager where
  genesis := Sample.genesis
  deviceID := Sample.genesis.firstDeviceID
  current := none

def calls : List SessionCall := [.unlock chest [1] 0, .touch 60 61]

theorem sessions_bounded_read :
    manager.current = none ∧
    ((manager.after calls).step (.read 100 fun _ => .ok ())).2.ran = some 100 ∧
    ∃ u x, Unlocked manager calls u x ∧ 100 < u + hardTimeout ∧ 100 < x + idleTimeout := by
  have hran : ((manager.after calls).step (.read 100 fun _ => .ok ())).2.ran = some 100 := by
    decide
  exact ⟨rfl, hran, (sessions_bounded manager rfl calls).1 _ _ hran⟩

end Session01

end SessionManager

end Sshstate.Vault
