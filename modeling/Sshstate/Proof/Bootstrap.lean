/-
  A relay is bootstrapped once.

  A register is open, with the digest of the secret that was stored last, until a call of
  `BootstrapHistory` succeeds (`Open`), and closed from then on, with the vault of that
  call (`Closed`).  A closed register does not change any more (`Closed.call`).
-/
import Sshstate.Relay.Bootstrap
import Sshstate.Proof.Membership
import Sshstate.Protocol.Sample

namespace Sshstate.Relay

variable {C : Suite}

open Except (bind_eq_ok mapError_eq_ok require_eq_ok)

/-! ## The two calls -/

/-- What `SetBootstrapSecret` does when it succeeds: the digest is that of the secret, and
    nothing changes once the secret was used. -/
theorem Site.setBootstrapSecret_ok {S S' : Site} {secret : Bytes}
    (h : S.setBootstrapSecret C secret = .ok S') :
    S'.store = S.store ∧
      (S.bootstrap = none ∧ S'.bootstrap = some ⟨C.sha256 secret, none⟩ ∨
       ∃ row, S.bootstrap = some row ∧ (row.consumedAt ≠ none → S' = S) ∧
         S'.bootstrap = some { row with secretHash := C.sha256 secret }) := by
  simp only [Site.setBootstrapSecret, bind_eq_ok, require_eq_ok, exists_const] at h
  obtain ⟨-, h⟩ := h
  split at h
  · rename_i hnone
    cases h
    exact ⟨rfl, .inl ⟨hnone, rfl⟩⟩
  · rename_i row hrow
    split_ifs at h with hsame
    · cases h
      exact ⟨rfl, .inr ⟨row, hrow, fun _ => rfl, by rw [hrow, ← hsame]⟩⟩
    · simp only [bind_eq_ok, require_eq_ok, exists_const] at h
      obtain ⟨hopen, h⟩ := h
      cases h
      exact ⟨rfl, .inr ⟨row, hrow, fun hused => absurd hopen hused, rfl⟩⟩

theorem Store.createVault_ok {st st' : Store} {g : Genesis} {events : List SignedMembershipEvent}
    {origin freshID : String} (h : st.createVault C g events origin freshID = .ok st') :
    st.vault = none ∧ st' = { st with
      vault := some { genesis := g, keyEpoch := 1 }
      membership := st.membership ++ events
      history := freshID
      historyOrigin := origin } := by
  simp only [Store.createVault, bind_eq_ok, require_eq_ok, exists_const] at h
  obtain ⟨hnone, _, -, h⟩ := h
  cases h
  exact ⟨Option.isNone_iff_eq_none.1 hnone, rfl⟩

/-- What a successful `BootstrapHistory` found and stores. -/
theorem Site.bootstrapWith_ok {S S' : Site} {f : Founding} (h : S.bootstrapWith C f = .ok S') :
    (∃ chain, Membership.validate C f.genesis f.events = .ok chain ∧ chain.authorizedCount ≠ 0) ∧
    S.bootstrap = some ⟨C.sha256 f.secret, none⟩ ∧ S.store.vault = none ∧
    S' = { store := { S.store with
             vault := some { genesis := f.genesis, keyEpoch := 1 }
             membership := S.store.membership ++ f.events
             history := f.freshID
             historyOrigin := if f.seeded then historySeeded else historyCreated }
           bootstrap := some ⟨C.sha256 f.secret, some f.genesis.createdAt⟩ } := by
  simp only [Site.bootstrapWith, Site.bootstrapHistory, bind_eq_ok, mapError_eq_ok, require_eq_ok,
    exists_const] at h
  obtain ⟨_, -, chain, hchain, hcount, row, hrow, st, hst, h⟩ := h
  cases h
  unfold Site.checkSecret at hrow
  split at hrow
  · cases hrow
  · rename_i row' hboot
    simp only [bind_eq_ok, require_eq_ok, exists_const] at hrow
    obtain ⟨hopen, hhash, h⟩ := hrow
    cases h
    obtain ⟨hnone, rfl⟩ := Store.createVault_ok hst
    rw [(Membership.validate_events hchain).1, ← hhash, ← hopen]
    exact ⟨⟨chain, hchain, hcount⟩, hboot, hnone, rfl⟩

/-! ## Sequences of calls -/

/-- No vault yet; the row has the digest of the secret that was stored last. -/
structure Register.Open (C : Suite) (R : Register) : Prop where
  none_succeeded : R.succeeded = []
  vault : R.site.store.vault = none
  membership : R.site.store.membership = []
  bootstrap : R.site.bootstrap = R.stored.map fun secret => ⟨C.sha256 secret, none⟩

/-- The vault of the one call that succeeded; its secret is marked as used. -/
structure Register.Closed (C : Suite) (R : Register) (f : Founding) : Prop where
  succeeded : R.succeeded = [f]
  vault : R.site.store.vault = some { genesis := f.genesis, keyEpoch := 1 }
  membership : R.site.store.membership = f.events
  bootstrap : R.site.bootstrap = some ⟨C.sha256 f.secret, some f.genesis.createdAt⟩

/-- An open register bootstraps with the secret that was stored last only. -/
theorem Register.Open.bootstrap_ok {R : Register} {f : Founding} {S : Site} (hR : R.Open C)
    (h : R.site.bootstrapWith C f = .ok S) :
    ∃ last, R.stored = some last ∧ C.sha256 f.secret = C.sha256 last := by
  obtain ⟨-, hboot, -⟩ := Site.bootstrapWith_ok h
  rw [hR.bootstrap] at hboot
  obtain ⟨last, hlast, heq⟩ := Option.map_eq_some_iff.1 hboot
  exact ⟨last, hlast, (BootstrapRow.mk.inj heq).1.symm⟩

theorem Register.Open.call {R : Register} (hR : R.Open C) (c : BootstrapCall) :
    (R.call C c).Open C ∨ ∃ f, (R.call C c).Closed C f := by
  cases c with
  | setSecret secret =>
    simp only [Register.call]
    cases h : R.site.setBootstrapSecret C secret with
    | error e => exact .inl hR
    | ok S =>
      obtain ⟨hstore, hrow⟩ := Site.setBootstrapSecret_ok h
      refine .inl ⟨hR.none_succeeded, by rw [hstore, hR.vault], by rw [hstore, hR.membership], ?_⟩
      rcases hrow with ⟨-, hnew⟩ | ⟨row, hold, -, hnew⟩
      · exact hnew
      · -- the row is of the secret before, which was not used
        rw [hR.bootstrap] at hold
        obtain ⟨last, -, rfl⟩ := Option.map_eq_some_iff.1 hold
        exact hnew
  | bootstrap f =>
    simp only [Register.call]
    cases h : R.site.bootstrapWith C f with
    | error e => exact .inl hR
    | ok S =>
      obtain ⟨-, -, -, rfl⟩ := Site.bootstrapWith_ok h
      refine .inr ⟨f, ?_, rfl, ?_, rfl⟩
      · rw [hR.none_succeeded]; rfl
      · simp only [hR.membership, List.nil_append]

/-- A closed register refuses to bootstrap. -/
theorem Register.Closed.refuses {R : Register} {f : Founding} (hR : R.Closed C f) (f' : Founding)
    (S : Site) : R.site.bootstrapWith C f' ≠ .ok S := by
  intro h
  obtain ⟨-, -, hnone, -⟩ := Site.bootstrapWith_ok h
  rw [hR.vault] at hnone
  cases hnone

/-- A closed register does not change. -/
theorem Register.Closed.call {R : Register} {f : Founding} (hR : R.Closed C f) (c : BootstrapCall) :
    (R.call C c).site = R.site ∧ (R.call C c).succeeded = R.succeeded := by
  cases c with
  | setSecret secret =>
    simp only [Register.call]
    cases h : R.site.setBootstrapSecret C secret with
    | error e => exact ⟨rfl, rfl⟩
    | ok S =>
      obtain ⟨-, ⟨hnone, -⟩ | ⟨row, hrow, hused, -⟩⟩ := Site.setBootstrapSecret_ok h
      · rw [hR.bootstrap] at hnone; cases hnone
      · rw [hR.bootstrap] at hrow
        cases hrow
        exact ⟨hused (by simp), rfl⟩
  | bootstrap f' =>
    simp only [Register.call]
    cases h : R.site.bootstrapWith C f' with
    | error e => exact ⟨rfl, rfl⟩
    | ok S => exact absurd h (hR.refuses f' S)

theorem Register.Closed.next {R : Register} {f : Founding} (hR : R.Closed C f) (c : BootstrapCall) :
    (R.call C c).Closed C f := by
  obtain ⟨hsite, hsucc⟩ := hR.call c
  exact ⟨hsucc ▸ hR.succeeded, hsite ▸ hR.vault, hsite ▸ hR.membership, hsite ▸ hR.bootstrap⟩

theorem Register.after_concat (history origin : String) (calls : List BootstrapCall)
    (c : BootstrapCall) :
    Register.after C history origin (calls ++ [c]) =
      (Register.after C history origin calls).call C c := by
  rw [Register.after, List.foldl_append, List.foldl_cons, List.foldl_nil, ← Register.after]

theorem Register.open_or_closed (history origin : String) (calls : List BootstrapCall) :
    (Register.after C history origin calls).Open C ∨
      ∃ f, (Register.after C history origin calls).Closed C f := by
  induction calls using List.reverseRecOn with
  | nil => exact .inl ⟨rfl, rfl, rfl, rfl⟩
  | append_singleton calls c ih =>
    rw [Register.after_concat]
    rcases ih with hopen | ⟨f, hclosed⟩
    · exact hopen.call c
    · exact .inr ⟨f, hclosed.next c⟩

/-- The secret that was stored last is the one of a call. -/
theorem Register.stored_mem (history origin : String) (calls : List BootstrapCall) {last : Bytes}
    (h : (Register.after C history origin calls).stored = some last) :
    BootstrapCall.setSecret last ∈ calls := by
  induction calls using List.reverseRecOn with
  | nil => cases h
  | append_singleton calls c ih =>
    rw [Register.after_concat] at h
    cases c with
    | setSecret secret =>
      simp only [Register.call] at h
      split at h
      · cases h
        exact List.mem_append_right _ List.mem_cons_self
      · exact List.mem_append_left _ (ih h)
    | bootstrap f =>
      simp only [Register.call] at h
      split at h
      · exact List.mem_append_left _ (ih h)
      · exact List.mem_append_left _ (ih h)

/-- **Main result.**  Of any sequence of calls on an empty relay, at most one bootstraps it.
    That call used the secret that was stored last and a valid chain; the relay holds its
    genesis and events, its secret is marked as used, and no call changes any of it.  A
    bootstrap that fails leaves everything as it was.  (No two of the secrets have one
    digest.) -/
theorem bootstrap_once (C : Suite) (history origin : String) (calls : List BootstrapCall)
    {secrets : Set Bytes} (hsha : Set.InjOn C.sha256 secrets)
    (hcalls : ∀ c ∈ calls, c.secret ∈ secrets) :
    (Register.after C history origin calls).succeeded.length ≤ 1 ∧
    (∀ f ∈ (Register.after C history origin calls).succeeded,
      (Register.after C history origin calls).Closed C f ∧
      ∀ c, ((Register.after C history origin calls).call C c).site =
        (Register.after C history origin calls).site) ∧
    (∀ f S, f.secret ∈ secrets →
      (Register.after C history origin calls).site.bootstrapWith C f = .ok S →
      (Register.after C history origin calls).succeeded = [] ∧
      (Register.after C history origin calls).stored = some f.secret ∧
      ∃ chain, Membership.validate C f.genesis f.events = .ok chain) ∧
    (∀ f e, (Register.after C history origin calls).site.bootstrapWith C f = .error e →
      (Register.after C history origin calls).call C (.bootstrap f) =
        Register.after C history origin calls) := by
  have hstored : ∀ last, (Register.after C history origin calls).stored = some last →
      BootstrapCall.setSecret last ∈ calls := fun last h => Register.stored_mem history origin calls h
  have hstate := Register.open_or_closed (C := C) history origin calls
  generalize Register.after C history origin calls = R at hstored hstate
  refine ⟨?_, fun f hf => ?_, fun f S hmem hok => ?_, fun f e herr => ?_⟩
  · rcases hstate with hopen | ⟨f, hclosed⟩
    · rw [hopen.none_succeeded]; exact Nat.zero_le 1
    · rw [hclosed.succeeded]; exact le_refl 1
  · rcases hstate with hopen | ⟨f', hclosed⟩
    · rw [hopen.none_succeeded] at hf
      exact absurd hf List.not_mem_nil
    · rw [hclosed.succeeded] at hf
      obtain rfl := List.mem_singleton.1 hf
      exact ⟨hclosed, fun c => (hclosed.call c).1⟩
  · rcases hstate with hopen | ⟨f', hclosed⟩
    · obtain ⟨last, hlast, heq⟩ := hopen.bootstrap_ok hok
      obtain ⟨⟨chain, hchain, -⟩, -⟩ := Site.bootstrapWith_ok hok
      have hsame : f.secret = last := hsha hmem (hcalls _ (hstored last hlast)) heq
      exact ⟨hopen.none_succeeded, hsame ▸ hlast, chain, hchain⟩
    · exact absurd hok (hclosed.refuses f S)
  · simp only [Register.call, herr]

namespace Bootstrap01

/-- The vault of the samples, to be bootstrapped with a secret. -/
def founding (secret : Bytes) : Founding where
  secret := secret
  genesis := Sample.genesis
  events := [Sample.root (Sample.id 0x0a) [10] "A"]
  seeded := false
  freshID := "h1"

/-- A secret is replaced before it is used, the old one is refused, and the relay is
    bootstrapped with the new one; later calls come too late. -/
def calls : List BootstrapCall :=
  [.setSecret [1], .setSecret [2], .bootstrap (founding [1]), .bootstrap (founding [2]),
    .bootstrap (founding [2]), .setSecret [3]]

theorem bootstrap_once_rotated :
    (Register.after sample "h0" historyCreated calls).succeeded = [founding [2]] ∧
    (Register.after sample "h0" historyCreated calls).Closed sample (founding [2]) ∧
    ((Register.after sample "h0" historyCreated calls).call sample (.setSecret [3])).site =
      (Register.after sample "h0" historyCreated calls).site := by
  have hsha : Set.InjOn sample.sha256 {s | s ∈ ([[1], [2], [3]] : List Bytes)} := by
    have h : ∀ a ∈ ([[1], [2], [3]] : List Bytes), ∀ b ∈ ([[1], [2], [3]] : List Bytes),
        sample.sha256 a = sample.sha256 b → a = b := by decide
    exact fun a ha b hb => h a ha b hb
  have hsucc : (Register.after sample "h0" historyCreated calls).succeeded = [founding [2]] := by
    decide
  obtain ⟨-, hclosed, -⟩ := bootstrap_once sample "h0" historyCreated calls hsha
    (by decide)
  obtain ⟨h, hsame⟩ := hclosed (founding [2]) (by rw [hsucc]; exact List.mem_cons_self)
  exact ⟨hsucc, h, hsame _⟩

end Bootstrap01

end Sshstate.Relay
