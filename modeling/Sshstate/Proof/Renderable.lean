/-
  Local edits keep the vault renderable (`edits_renderable`).

  In a run of edits from the empty vault every row can be read, as long as it is not too long to
  be decoded, and the directory of the hosts stays tidy (`Reached.sane`).  So the lists of hosts
  and keys are those of the directory, and `planHosts` finds nothing to report.  A key that
  cannot be parsed is stored all the same, and then `planHosts` fails for a host that offers it
  (`unparsed_key_fails`).
-/
import Sshstate.Proof.Import
import Sshstate.Vault.Sample

namespace Sshstate.Vault

open Relation (TransGen Acyclic)
open Daemon (planHosts generatedHost Renders Writable JumpIn OneAlias aliasCount)

variable {C : Suite} {J : Coding} {m : Manager}
  {publicKeyDigest : List Char → Except Error (List Char)}

/-- The public key of a payload can be parsed. -/
def Parses (publicKeyDigest : List Char → Except Error (List Char)) (p : KeyPayload) : Prop :=
  ∃ digest, publicKeyDigest p.publicKey = .ok digest

/-! ## Runs -/

/-- A call with a key that can be parsed, or with ids that are new. -/
def Manager.Call.Sound (C : Suite) (publicKeyDigest : List Char → Except Error (List Char))
    (m : Manager) (st : Store) : Manager.Call → Prop
  | .addKey k _ _ => Parses publicKeyDigest k.payload
  | .importHosts specs _ _ draws => m.Fresh C st draws specs.length
  | _ => True

/-- A run of calls, none of which leaves a row that is too long. -/
inductive Reached (C : Suite) (J : Coding)
    (publicKeyDigest : List Char → Except Error (List Char)) (m : Manager) (st₀ : Store) :
    Store → Prop
  | start : Reached C J publicKeyDigest m st₀ st₀
  | call {st : Store} (run : Reached C J publicKeyDigest m st₀ st) (c : Manager.Call)
      (sound : c.Sound C publicKeyDigest m st) (short : Short C m (m.call C J st c)) :
      Reached C J publicKeyDigest m st₀ (m.call C J st c)

/-- An empty vault is sane. -/
theorem Sane.start {G : KeyPayload → Prop} {st : Store} (henrolled : Enrolled C m st)
    (hempty : ∀ id, st.head id = none) : Sane C J G m st where
  filed id env henv := by simp [hempty] at henv
  enrolled := henrolled
  hosts id env henv := by simp [hempty] at henv
  keys id env henv := by simp [hempty] at henv
  good k p := fun ⟨e, he⟩ => by simpa [hempty] using he.head
  tidy := Tidy.empty fun i p ⟨e, he⟩ => by simpa [hempty] using he.head

/-- A call keeps the vault sane. -/
theorem Sane.call (hC : C.Correct) (hJ : J.Lawful C) {st : Store}
    (hs : Sane C J (Parses publicKeyDigest) m st) {c : Manager.Call}
    (hsound : c.Sound C publicKeyDigest m st) (hshort : Short C m (m.call C J st c)) :
    Sane C J (Parses publicKeyDigest) m (m.call C J st c) := by
  -- an edit that is refused leaves the store
  have hsettled : ∀ r : Except Error Store,
      (∀ st', r = .ok st' → Short C m st' → Sane C J (Parses publicKeyDigest) m st') →
      Short C m (Manager.settled st r) → Sane C J (Parses publicKeyDigest) m (Manager.settled st r) :=
    fun r hok => by
      cases r with
      | error err => exact fun _ => hs
      | ok st' => exact hok st' rfl
  cases c with
  | addKey k recordID d =>
    refine hsettled _ (fun st' h hshort => ?_) hshort
    obtain ⟨⟨_, id⟩, hadd, rfl⟩ := Except.map_eq_ok.1 h
    exact hs.addKey hC hJ hadd hsound hshort
  | addHost spec recordID d =>
    refine hsettled _ (fun st' h hshort => ?_) hshort
    obtain ⟨⟨_, id⟩, hadd, rfl⟩ := Except.map_eq_ok.1 h
    exact hs.addHost hC hJ hadd hshort
  | editHost recordID edit d => exact hsettled _ (fun st' h hshort => hs.editHost hC hJ h hshort) hshort
  | removeHost recordID d => exact hsettled _ (fun st' h _ => hs.remove h) hshort
  | removeKey recordID d => exact hsettled _ (fun st' h _ => hs.remove h) hshort
  | importHosts specs dryRun now draws =>
    rw [Manager.call] at hshort ⊢
    rcases himport : m.importHosts C J st specs dryRun now draws fun _ => none with ⟨st', r⟩
    rw [himport] at hshort
    cases r with
    | error err =>
      rw [Manager.importHosts_error hC hsound himport]
      exact hs
    | ok outcomes => exact hs.importHosts hC hJ hsound himport hshort

theorem Reached.sane (hC : C.Correct) (hJ : J.Lawful C) {st₀ st : Store}
    (henrolled : Enrolled C m st₀) (hempty : ∀ id, st₀.head id = none)
    (h : Reached C J publicKeyDigest m st₀ st) : Sane C J (Parses publicKeyDigest) m st := by
  induction h with
  | start => exact .start henrolled hempty
  | call _ c hsound hshort ih => exact ih.call hC hJ hsound hshort

/-! ## What is rendered -/

section

variable {st : Store} (hs : Sane C J (Parses publicKeyDigest) m st) {hosts : List HostView}
  (hhosts : m.hostsLocked C J st = .ok hosts)
include hs hhosts

theorem Sane.jump_mem {h : HostView} (hmem : h ∈ hosts) {a : List Char} (ha : h.proxyJump = some a) :
    ∃ target ∈ hosts, target.hostAlias = a := by
  obtain ⟨hlist, -, -⟩ := hostsLocked_ok hs.filed hhosts
  obtain ⟨p, hp, hview⟩ := (hlist h).1 hmem
  obtain ⟨j, q, hq, rfl⟩ := hs.tidy.jump hp (by rw [hview] at ha; exact ha)
  exact ⟨q.view j, mem_hosts hlist hq, rfl⟩

theorem Sane.acyclic : Acyclic fun a b => ∃ h ∈ hosts, h.hostAlias = a ∧ h.proxyJump = some b := by
  obtain ⟨hlist, -, -⟩ := hostsLocked_ok hs.filed hhosts
  refine hs.tidy.acyclic.mono ?_
  rintro a b ⟨h, hmem, rfl, hb⟩
  obtain ⟨p, hp, hview⟩ := (hlist h).1 hmem
  exact ⟨_, p, hp, by rw [hview]; rfl, by rw [hview] at hb; exact hb⟩

/-- Every host can be written. -/
theorem Sane.renders {h : HostView} (hmem : h ∈ hosts) : Renders hosts h := by
  obtain ⟨hlist, hid, -⟩ := hostsLocked_ok hs.filed hhosts
  have hone : ∀ h, OneAlias hosts h := fun h =>
    List.nodup_iff_count_le_one.1 (hs.tidy.nodup_alias hlist hid) _
  have hwritable : Writable hosts {h | h ∈ hosts} :=
    { mem := fun h hh => hh
      one := fun h _ => hone h
      closed := fun h hh jump hjump => hs.jump_mem hhosts hh hjump
      acyclic := fun h hback => by
        refine hs.acyclic hhosts h.hostAlias (TransGen.lift HostView.hostAlias ?_ _ _ hback)
        rintro a b ⟨ha, -, hjump⟩
        exact ⟨a, ha, rfl, hjump⟩ }
  exact Daemon.isGreatest_renders.2 hwritable hmem

end

theorem Sane.key_mem {st : Store} (hs : Sane C J (Parses publicKeyDigest) m st)
    {hosts : List HostView} (hhosts : m.hostsLocked C J st = .ok hosts) {keys : List KeyView}
    (hkeys : m.keysLocked C J st = .ok keys) {h : HostView} (hmem : h ∈ hosts) {k : ID}
    (hk : k ∈ h.keyIDs) : k ∈ keys.map KeyView.recordID := by
  obtain ⟨hlist, -, -⟩ := hostsLocked_ok hs.filed hhosts
  obtain ⟨p, hp, hview⟩ := (hlist h).1 hmem
  exact (mem_keyIDs hs.filed hkeys).2 (hs.tidy.keys hp (by rw [hview] at hk; exact hk))

/-- The hosts in the list are the live host records. -/
theorem Sane.mem_hostIDs {G : KeyPayload → Prop} {st : Store} (hs : Sane C J G m st)
    {hosts : List HostView} (hhosts : m.hostsLocked C J st = .ok hosts) {id : ID} :
    id ∈ hosts.map HostView.recordID ↔
      ∃ env, st.head id = some env ∧ env.context.recordType = .host ∧ env.context.deleted = false := by
  obtain ⟨hlist, -, hall⟩ := hostsLocked_ok hs.filed hhosts
  rw [List.mem_map]
  constructor
  · rintro ⟨v, hv, rfl⟩
    obtain ⟨p, ⟨env, hp⟩, -⟩ := (hlist v).1 hv
    exact ⟨env, hp.head, hp.recordType, hp.live⟩
  · rintro ⟨env, hhead, htype, hlive⟩
    obtain ⟨p, hp⟩ := hall id env hhead htype hlive
    exact ⟨p.view id, mem_hosts hlist ⟨env, hp⟩, rfl⟩

/-- **Main result.**  After any run of local edits with keys that can be parsed, in which no row
    gets too long, the live hosts have different aliases, every jump names one of them, no jumps
    come back and every key is live; and `planHosts` renders all hosts and reports nothing. -/
theorem edits_renderable (hC : C.Correct) (hJ : J.Lawful C) {st₀ st : Store}
    (henrolled : Enrolled C m st₀) (hempty : ∀ id, st₀.head id = none)
    (h : Reached C J publicKeyDigest m st₀ st) :
    ∃ hosts keys, m.hostsLocked C J st = .ok hosts ∧ m.keysLocked C J st = .ok keys ∧
      (∀ id, id ∈ hosts.map HostView.recordID ↔ ∃ env, st.head id = some env ∧
        env.context.recordType = .host ∧ env.context.deleted = false) ∧
      (hosts.map HostView.hostAlias).Nodup ∧
      (∀ h ∈ hosts, ∀ a, h.proxyJump = some a → ∃ target ∈ hosts, target.hostAlias = a) ∧
      Acyclic (fun a b => ∃ h ∈ hosts, h.hostAlias = a ∧ h.proxyJump = some b) ∧
      (∀ h ∈ hosts, ∀ k ∈ h.keyIDs, k ∈ keys.map KeyView.recordID) ∧
      planHosts publicKeyDigest hosts keys =
        .ok (hosts.map (generatedHost publicKeyDigest keys), []) := by
  have hs := h.sane hC hJ henrolled hempty
  obtain ⟨hosts, hhosts⟩ := exists_hostsLocked hs.filed hs.hosts
  obtain ⟨keys, hkeys⟩ := exists_keysLocked hs.filed hs.keys
  obtain ⟨hlist, hid, -⟩ := hostsLocked_ok hs.filed hhosts
  have hparse : ∀ k ∈ keys, ∃ digest, publicKeyDigest k.publicKey = .ok digest := fun k hk => by
    obtain ⟨p, hp, hview⟩ := ((keysLocked_ok hs.filed hkeys).1 k).1 hk
    rw [hview]
    exact hs.good _ p hp
  exact ⟨hosts, keys, hhosts, hkeys, fun id => hs.mem_hostIDs hhosts, hs.tidy.nodup_alias hlist hid,
    fun h hmem a ha => hs.jump_mem hhosts hmem ha, hs.acyclic hhosts,
    fun h hmem k hk => hs.key_mem hhosts hkeys hmem hk,
    Daemon.planHosts_clean hparse hid (fun h hmem => hs.renders hhosts hmem)
      fun h hmem k hk => hs.key_mem hhosts hkeys hmem hk⟩

namespace Renderable01

open Sample (suite coding manager start newID)

-- `decide` evaluates whole calls
set_option maxRecDepth 4000

instance (C : Suite) (m : Manager) (st : Store) : Decidable (Short C m st) :=
  decidable_of_iff (∀ env ∈ st.heads, env.body.length ≤ maxObjectBytes ∧
      (m.keys.plaintext C env).all (·.length ≤ maxObjectBytes) = true) <| by
    simp only [Short, ShortRow, Store.mem_heads, forall_exists_index, Option.all_eq_true, decide_eq_true_eq]
    exact ⟨fun h id env => h env id, fun h env id => h id env⟩

def draw (n : ℕ) (h : ID.valid (Sample.id n) = true) : Manager.Draw :=
  ⟨newID n h, ⟨[9], Sample.nonce_ne_nil, []⟩⟩

/-- Only one text is no public key. -/
def parse (publicKey : List Char) : Except Error (List Char) :=
  if publicKey = ['?'] then .error (.new "ssh: no key found") else .ok publicKey

def key (publicKey : List Char) : Manager.Key :=
  { privateKey := ['s'], publicKey := publicKey, fingerprint := "SHA256:f".toList,
    algorithm := ['a'], comment := [] }

def spec (hostAlias : List Char) (jump : Option (List Char)) : Manager.HostSpec :=
  { hostAlias := hostAlias, hostName := ['h'], user := ['u'], port := 0, proxyJump := jump,
    keyIDs := [Sample.id 0x20] }

def addKeyCall (publicKey : List Char) : Manager.Call :=
  .addKey (key publicKey) (newID 0x20 Sample.valid_20) (draw 0x21 Sample.valid_21)

/-- A host that offers the key. -/
def addHostCall : Manager.Call :=
  .addHost (spec ['a'] none) (newID 0x22 Sample.valid_22) (draw 0x23 Sample.valid_23)

def draws : ℕ → Manager.ImportDraw := fun _ => ⟨newID 0x24 Sample.valid_24, draw 0x25 Sample.valid_25⟩

/-- A host that jumps through the first one. -/
def importCall : Manager.Call := .importHosts [spec ['b'] (some ['a'])] false "t1" draws

/-- The store after the first call. -/
def one (publicKey : List Char) : Store := manager.call suite coding start (addKeyCall publicKey)

/-- The store after two calls. -/
def two (publicKey : List Char) : Store := manager.call suite coding (one publicKey) addHostCall

/-- The store after the import. -/
def three : Store := manager.call suite coding (two ['p']) importCall

theorem enrolled : Enrolled suite manager start :=
  ⟨⟨{ id := Sample.id 0x0a, verifyKey := [10], recipient := "A", status := .active,
      enrolledAt := "t0" }, by decide, rfl⟩, by decide⟩

theorem three_reached : Reached suite coding parse manager start three := by
  have hone : Reached suite coding parse manager start (one ['p']) :=
    .call .start (addKeyCall ['p']) ⟨['p'], rfl⟩ (by decide)
  have htwo : Reached suite coding parse manager start (two ['p']) :=
    .call hone addHostCall trivial (by decide)
  have hfresh : Manager.Fresh suite manager (two ['p']) draws 1 := by decide
  exact .call htwo importCall hfresh (by decide)

theorem edits_renderable_import :
    ∃ hosts keys, manager.hostsLocked suite coding three = .ok hosts ∧
      hosts.map HostView.hostAlias = [['a'], ['b']] ∧
      planHosts parse hosts keys = .ok (hosts.map (generatedHost parse keys), []) := by
  obtain ⟨hosts, keys, hhosts, -, -, -, -, -, -, hplan⟩ :=
    edits_renderable Sample.suite_correct Sample.coding_lawful enrolled (fun id => rfl) three_reached
  refine ⟨hosts, keys, hhosts, ?_, hplan⟩
  have haliases : (manager.hostsLocked suite coding three).toOption.map
      (List.map HostView.hostAlias) = some [['a'], ['b']] := by decide
  rw [hhosts] at haliases
  exact Option.some.inj haliases

/-- A key that cannot be parsed is stored, and then nothing is rendered. -/
theorem unparsed_key_fails :
    (manager.hostsLocked suite coding (two ['?'])).toOption.map (List.map HostView.hostAlias) =
      some [['a']] ∧
    ∃ hosts keys, manager.hostsLocked suite coding (two ['?']) = .ok hosts ∧
      manager.keysLocked suite coding (two ['?']) = .ok keys ∧
      (planHosts parse hosts keys).toOption = none := by
  have hhosts := Except.eq_ok_get (x := manager.hostsLocked suite coding (two ['?']))
    (by decide)
  have hkeys := Except.eq_ok_get (x := manager.keysLocked suite coding (two ['?']))
    (by decide)
  exact ⟨by decide, _, _, hhosts, hkeys, by decide⟩

end Renderable01

end Sshstate.Vault
