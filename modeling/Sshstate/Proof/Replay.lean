/-
  A signed request is accepted once, as long as its nonce is remembered.

  The relay forgets a nonce in the second `expires + 60`, and `checkParams` still
  accepts the request at the first instant of that second.  A request that is
  presented then, or whose check is followed by the transaction of `Use` only in that
  second, is accepted again (`accepted_twice`).

  Where every call comes to `Use` before that second (`InTime`), the nonce of every
  result that could still be repeated is in the table (`Remembered`), so that no two
  results agree in device, nonce and parameters (`accepted_once`).
-/
import Sshstate.Lib.Run
import Sshstate.Relay.Nonces
import Sshstate.Proof.Httpsig
import Sshstate.Httpsig.Sign

namespace Sshstate.Relay

open Httpsig

variable {L : GoLib} {C : Suite}

theorem unix_mul_second (n : ℤ) : unix (n * second) = n :=
  Int.mul_ediv_cancel n (by decide)

theorem unix_mono {a b : ℤ} (h : a ≤ b) : unix a ≤ unix b :=
  Int.ediv_le_ediv (by decide) h

/-! ## One call -/

/-- What `Use` does when it answers. -/
theorem use_ok {rows rows' : List NonceRow} {now until_ : ℤ} {d : ID} {n : Bytes} {fresh : Bool}
    (h : use rows now d n until_ = .ok (fresh, rows')) :
    (∀ row ∈ rows, unix now < row.expiresAt → row ∈ rows') ∧
    (fresh = true → (⟨d, n, unix until_⟩ ∈ rows' ∧
      ∀ row ∈ rows, unix now < row.expiresAt → ¬ (row.deviceID = d ∧ row.nonce = n))) := by
  unfold use at h
  split at h
  · cases h
  dsimp only at h
  split at h
  · cases h
    exact ⟨fun row hr hu => List.mem_filter.2 ⟨hr, by simpa using hu⟩, fun hf => by cases hf⟩
  · rename_i hnew
    cases h
    refine ⟨fun row hr hu => List.mem_append_left _ (List.mem_filter.2 ⟨hr, by simpa using hu⟩),
      fun _ => ⟨by simp, fun row hr hu hkey => hnew ?_⟩⟩
    exact List.any_eq_true.2 ⟨row, List.mem_filter.2 ⟨hr, by simpa using hu⟩, by simpa using hkey⟩

/-- A nonce whose time is not up at a call stays in the table. -/
theorem verify_keeps {rows : List NonceRow} {v : Verification} {row : NonceRow}
    (hr : row ∈ rows) (hu : unix v.usedAt < row.expiresAt) : row ∈ (verify L C rows v).2 := by
  unfold verify
  split
  · exact hr
  split
  · exact hr
  rename_i huse
  split <;> exact (use_ok huse).1 row hr hu

/-- An accepted call: its check passed, its nonce was not in the table, and is now. -/
theorem verify_ok {rows : List NonceRow} {v : Verification} {res : Result}
    (h : (verify L C rows v).1 = .ok res) :
    v.verifier.check L C v.checkedAt v.request v.body v.https = .ok res ∧
    ⟨res.deviceID, res.nonce, unix (res.expires + skewTolerance)⟩ ∈ (verify L C rows v).2 ∧
    ∀ row ∈ rows, unix v.usedAt < row.expiresAt →
      ¬ (row.deviceID = res.deviceID ∧ row.nonce = res.nonce) := by
  unfold verify at h ⊢
  split at h
  · cases h
  rename_i res' hcheck
  split at h
  · cases h
  rename_i fresh rows' huse
  split at h
  · rename_i hfresh
    cases h
    simp only [hcheck, hfresh, if_true]
    exact ⟨trivial, (use_ok huse).2 hfresh⟩
  · cases h

/-! ## Runs -/

/-- The request reaches `Use` before the second in which its nonce is forgotten. -/
def InTime (L : GoLib) (v : Verification) : Prop :=
  ∀ p ∈ (v.verifier.parseSignature L v.request).toOption, ∀ expires ∈ intParam p.2 "expires",
    unix v.usedAt < expires + unix skewTolerance

instance instDecidableInTime (L : GoLib) (v : Verification) : Decidable (InTime L v) :=
  inferInstanceAs (Decidable (∀ p ∈ (v.verifier.parseSignature L v.request).toOption,
    ∀ expires ∈ intParam p.2 "expires", unix v.usedAt < expires + unix skewTolerance))

/-- The second in which the nonce of a result is forgotten. -/
def forgottenAt (res : Result) : ℤ := unix (res.expires + skewTolerance)

theorem forgottenAt_of_mul {res : Result} {n : ℤ} (h : res.expires = n * second) :
    forgottenAt res = n + unix skewTolerance := by
  have hadd : n * second + skewTolerance = (n + 60) * second := by
    unfold skewTolerance; ring
  rw [forgottenAt, h, hadd, unix_mul_second, skewTolerance, unix_mul_second]

/-- A call in time that is accepted comes before its nonce is forgotten. -/
theorem InTime.lt_forgottenAt {v : Verification} {res : Result} (hin : InTime L v)
    (h : v.verifier.check L C v.checkedAt v.request v.body v.https = .ok res) :
    unix v.usedAt < forgottenAt res := by
  obtain ⟨sig, params, key, msg, text, hs⟩ := check_ok h
  obtain ⟨n, hn, hres⟩ := hs.reported.expires
  rw [forgottenAt_of_mul hres]
  exact hin _ (by rw [hs.parsed]; rfl) n hn

/-- Two requests that are one signed request: the same device and nonce, signed with the
    same parameters. -/
def SameRequest (a b : Result) : Prop :=
  a.deviceID = b.deviceID ∧ a.nonce = b.nonce ∧ a.created = b.created ∧ a.expires = b.expires

instance instDecidableSameRequest (a b : Result) : Decidable (SameRequest a b) :=
  inferInstanceAs (Decidable (_ ∧ _ ∧ _ ∧ _))

/-- The nonces of the results that could still be repeated are in the table. -/
structure Remembered (G : Guard) : Prop where
  once : G.accepted.Pairwise fun a b => ¬ SameRequest a b
  remembered : ∀ res ∈ G.accepted, unix G.clock < forgottenAt res →
    ⟨res.deviceID, res.nonce, forgottenAt res⟩ ∈ G.nonces

theorem Guard.step_some {G G' : Guard} {v : Verification} (h : G.step L C v = some G') :
    unix G.clock ≤ unix v.usedAt ∧ G'.nonces = (verify L C G.nonces v).2 ∧ G'.clock = v.usedAt ∧
      G'.accepted = G.accepted ++ (verify L C G.nonces v).1.toOption.toList := by
  unfold Guard.step at h
  split_ifs at h with hclock
  cases h
  exact ⟨unix_mono hclock.2, rfl, rfl, rfl⟩

theorem Remembered.step {G G' : Guard} {v : Verification} (h : Remembered G) (hin : InTime L v)
    (hstep : G.step L C v = some G') : Remembered G' := by
  obtain ⟨hmono, hnonces, hclock, hacc⟩ := Guard.step_some hstep
  have hold : ∀ res ∈ G.accepted, unix v.usedAt < forgottenAt res →
      ⟨res.deviceID, res.nonce, forgottenAt res⟩ ∈ (verify L C G.nonces v).2 :=
    fun res hres hlt => verify_keeps (h.remembered res hres (hmono.trans_lt hlt)) hlt
  cases hans : (verify L C G.nonces v).1 with
  | error e =>
    have hsame : G'.accepted = G.accepted := by rw [hacc, hans]; exact List.append_nil _
    refine ⟨hsame ▸ h.once, fun res hres hlt => ?_⟩
    rw [hnonces]
    exact hold res (hsame ▸ hres) (hclock ▸ hlt)
  | ok new =>
    obtain ⟨hcheck, hrow, hfresh⟩ := verify_ok hans
    have hlt := hin.lt_forgottenAt hcheck
    have hone : G'.accepted = G.accepted ++ [new] := by rw [hacc, hans]; rfl
    refine ⟨?_, fun res hres hlt' => ?_⟩
    · rw [hone, List.pairwise_append]
      refine ⟨h.once, List.pairwise_singleton _ _, fun old hmem b hb => ?_⟩
      -- an earlier result of the same request would have its nonce in the table still
      obtain rfl := List.mem_singleton.1 hb
      rintro ⟨hd, hn, -, he⟩
      have hsame : forgottenAt old = forgottenAt b := by simp only [forgottenAt, he]
      have hrow' := h.remembered old hmem (hmono.trans_lt (hsame ▸ hlt))
      exact hfresh _ hrow' (hsame ▸ hlt) ⟨hd, hn⟩
    · rw [hnonces]
      rw [hone, List.mem_append, List.mem_singleton] at hres
      rcases hres with hres | rfl
      · exact hold res hres (hclock ▸ hlt')
      · exact hrow

/-- **Main result.**  A relay whose calls of `Verify` all reach the nonce store before the
    nonce of their request is forgotten accepts every signed request at most once. -/
theorem accepted_once {nonces : List NonceRow} {clock : ℤ} {G : Guard}
    (h : Run.Reach (Guard.step L C) (fun _ v => InTime L v) ⟨nonces, clock, []⟩ G) :
    G.accepted.Pairwise fun a b => ¬ SameRequest a b := by
  have hinit : Remembered ⟨nonces, clock, []⟩ :=
    ⟨List.Pairwise.nil, fun res hres => absurd hres List.not_mem_nil⟩
  exact (h.invariant hinit fun G v G' hG hin hs => hG.step hin hs).once

namespace Replay01

-- `decide` evaluates whole calls
set_option maxRecDepth 4000

/-- A request signed at `0`, which expires at `300` s, presented at the time `t`. -/
def at_ (n : UInt8) (t : ℤ) : Verification where
  verifier := Sample.verifier
  request := (Sample.signed n [] []).toOption.getD (Sample.request [])
  body := []
  https := true
  checkedAt := t
  usedAt := t

/-- The request is presented when it is signed and again at the instant `360` s, the last
    at which `checkParams` accepts it and the first at which `Use` has forgotten it. -/
def repeated : Guard :=
  (Run.replay (Guard.step goSample sample) (fun _ _ => True) ⟨[], 0, []⟩
    [at_ 0x41 0, at_ 0x41 (360 * second)]).get (by decide)

theorem accepted_twice :
    Run.Reach (Guard.step goSample sample) (fun _ _ => True) ⟨[], 0, []⟩ repeated ∧
      repeated.accepted.length = 2 ∧ ¬ repeated.accepted.Pairwise fun a b => ¬ SameRequest a b :=
  ⟨Run.reach_of_replay (Option.some_get _).symm, by decide⟩

/-- The request is repeated in the last nanosecond in which the relay remembers it, and is
    followed by another one. -/
def remembered : Guard :=
  (Run.replay (Guard.step goSample sample) (fun _ v => InTime goSample v) ⟨[], 0, []⟩
    [at_ 0x41 0, at_ 0x41 (360 * second - 1), at_ 0x42 (360 * second - 1)]).get (by decide)

theorem accepted_once_remembered :
    remembered.accepted.length = 2 ∧
      remembered.accepted.Pairwise fun a b => ¬ SameRequest a b := by
  have h : Run.Reach (Guard.step goSample sample) (fun _ v => InTime goSample v) ⟨[], 0, []⟩
      remembered := Run.reach_of_replay (Option.some_get _).symm
  exact ⟨by decide, accepted_once h⟩

end Replay01

end Sshstate.Relay
