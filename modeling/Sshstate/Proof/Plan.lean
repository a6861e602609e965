/-
  The hosts of the generated configuration are the largest set that can be written
  (`planHosts_renders`).

  A set of hosts can be written (`Writable`) if their aliases are their own, every jump host
  of the set is in the set, and no jumps come back.  Since the hosts are finitely many, a host
  is in such a set exactly if its chain of jumps ends (`Ends`).  The loop of `planHosts` keeps
  that the hosts left out are not of this kind (`Sound`), and it stops only where the others
  are a set that can be written (`Quiet`).
-/
import Sshstate.Proof.Jumps

namespace Sshstate.Daemon

open Relation (TransGen ReflTransGen)
open Vault (HostView KeyView Jumps jumpsOf)

/-! ## Chains of jumps -/

/-- No other host of the list has the alias of `h`. -/
def OneAlias (hosts : List HostView) (h : HostView) : Prop := aliasCount hosts h.hostAlias ≤ 1

instance (hosts : List HostView) : DecidablePred (OneAlias hosts) := fun _ =>
  inferInstanceAs (Decidable (_ ≤ _))

/-- The jumps from `h`, followed through hosts with an alias of their own, come to a host that
    does not jump. -/
inductive Ends (hosts : List HostView) : HostView → Prop
  | last {h : HostView} (jump : h.proxyJump = none) : Ends hosts h
  | jump {h target : HostView} (jump : h.proxyJump = some target.hostAlias) (mem : target ∈ hosts)
      (one : OneAlias hosts target) (ends : Ends hosts target) : Ends hosts h

/-- A host that is written. -/
structure Renders (hosts : List HostView) (h : HostView) : Prop where
  mem : h ∈ hosts
  one : OneAlias hosts h
  ends : Ends hosts h

/-- A jump inside a set of hosts. -/
def JumpIn (S : Set HostView) (h target : HostView) : Prop :=
  h ∈ S ∧ target ∈ S ∧ h.proxyJump = some target.hostAlias

/-- A set of hosts that can be written. -/
structure Writable (hosts : List HostView) (S : Set HostView) : Prop where
  mem : ∀ h ∈ S, h ∈ hosts
  one : ∀ h ∈ S, OneAlias hosts h
  closed : ∀ h ∈ S, ∀ jump, h.proxyJump = some jump → ∃ target ∈ S, target.hostAlias = jump
  acyclic : ∀ h, ¬ TransGen (JumpIn S) h h

section

variable {hosts : List HostView}

/-- The hosts with an alias of their own. -/
def oneAlias (hosts : List HostView) : List HostView := hosts.filter fun h => OneAlias hosts h

theorem mem_oneAlias {h : HostView} : h ∈ oneAlias hosts ↔ h ∈ hosts ∧ OneAlias hosts h := by
  simp [oneAlias]

theorem nodup_oneAlias : ((oneAlias hosts).map HostView.hostAlias).Nodup := by
  rw [List.nodup_iff_count_le_one]
  intro a
  by_cases ha : a ∈ (oneAlias hosts).map HostView.hostAlias
  · obtain ⟨h, hmem, rfl⟩ := List.mem_map.1 ha
    have hsub : ((oneAlias hosts).map HostView.hostAlias).Sublist (hosts.map HostView.hostAlias) :=
      List.filter_sublist.map _
    exact (hsub.count_le _).trans (mem_oneAlias.1 hmem).2
  · rw [List.count_eq_zero_of_not_mem ha]
    exact Nat.zero_le 1

theorem eq_of_oneAlias {h h' : HostView} (hmem : h ∈ hosts) (hmem' : h' ∈ hosts)
    (hone : OneAlias hosts h) (heq : h'.hostAlias = h.hostAlias) : h' = h :=
  List.inj_on_of_nodup_map nodup_oneAlias
    (mem_oneAlias.2 ⟨hmem', by rwa [OneAlias, heq]⟩) (mem_oneAlias.2 ⟨hmem, hone⟩) heq

/-- A jump between hosts with an alias of their own. -/
theorem jumps_oneAlias {a b : List Char} : Jumps (jumpsOf (oneAlias hosts)) a b ↔
    ∃ h ∈ hosts, OneAlias hosts h ∧ h.hostAlias = a ∧ h.proxyJump = some b := by
  rw [jumps_jumpsOf nodup_oneAlias]
  simp only [mem_oneAlias, and_assoc]

/-- A chain that ends does not come back. -/
theorem Ends.not_returns {h : HostView} (hends : Ends hosts h) (hmem : h ∈ hosts)
    (hone : OneAlias hosts h) :
    ¬ TransGen (Jumps (jumpsOf (oneAlias hosts))) h.hostAlias h.hostAlias := by
  -- a host has one jump, so a way back from `h` is one from its target
  have honly : ∀ {h : HostView}, h ∈ hosts → OneAlias hosts h → ∀ {b},
      Jumps (jumpsOf (oneAlias hosts)) h.hostAlias b → h.proxyJump = some b := by
    intro h hmem hone b hb
    obtain ⟨h', hmem', -, heq, hjump⟩ := jumps_oneAlias.1 hb
    rwa [eq_of_oneAlias hmem hmem' hone heq] at hjump
  induction hends with
  | @last h hnone =>
    intro hback
    obtain ⟨b, hb, -⟩ := TransGen.head'_iff.1 hback
    simp [honly hmem hone hb] at hnone
  | @jump h target hjump hmem' hone' _ ih =>
    intro hback
    obtain ⟨b, hb, hrest⟩ := TransGen.head'_iff.1 hback
    cases hjump.symm.trans (honly hmem hone hb)
    exact ih hmem' hone' (TransGen.tail' hrest hb)

/-- In a set that can be written every chain ends. -/
theorem Writable.ends {S : Set HostView} (hS : Writable hosts S) {h : HostView} (hmem : h ∈ S) :
    Ends hosts h := by
  have hwf : WellFounded fun target h : S => TransGen (JumpIn S) h target := by
    have hfin : Finite S := (List.finite_toSet hosts).subset hS.mem
    have : IsTrans S fun target h : S => TransGen (JumpIn S) h target :=
      ⟨fun _ _ _ hab hbc => hbc.trans hab⟩
    have : Std.Irrefl fun target h : S => TransGen (JumpIn S) (h : HostView) target :=
      ⟨fun h => hS.acyclic h⟩
    exact Finite.wellFounded_of_trans_of_irrefl _
  have hall : ∀ h : S, Ends hosts h := by
    intro h
    induction h using hwf.induction with
    | _ h ih =>
      cases hjump : (h : HostView).proxyJump with
      | none => exact .last hjump
      | some jump =>
        obtain ⟨target, htarget, rfl⟩ := hS.closed h h.2 jump hjump
        exact .jump hjump (hS.mem target htarget) (hS.one target htarget)
          (ih ⟨target, htarget⟩ (.single ⟨h.2, htarget, hjump⟩))
  exact hall ⟨h, hmem⟩

/-- The hosts whose chains end can be written, and no larger set can be. -/
theorem isGreatest_renders : IsGreatest {S | Writable hosts S} {h | Renders hosts h} := by
  refine ⟨⟨fun h hh => hh.mem, fun h hh => hh.one, fun h hh jump hjump => ?_, fun h hback => ?_⟩,
    fun S hS h hh => ⟨hS.mem h hh, hS.one h hh, hS.ends hh⟩⟩
  · cases hh.ends with
    | last hnone => simp [hnone] at hjump
    | @jump _ target hjump' hmem hone hends =>
      cases hjump'.symm.trans hjump
      exact ⟨target, ⟨hmem, hone, hends⟩, rfl⟩
  · have hlift : TransGen (Jumps (jumpsOf (oneAlias hosts))) h.hostAlias h.hostAlias := by
      refine TransGen.lift HostView.hostAlias ?_ _ _ hback
      rintro a b ⟨ha, -, hjump⟩
      exact jumps_oneAlias.2 ⟨a, ha.mem, ha.one, rfl, hjump⟩
    obtain ⟨b, ⟨hh, -, -⟩, -⟩ := TransGen.head'_iff.1 hback
    exact hh.ends.not_returns hh.mem hh.one hlift

end

/-! ## The loop over the hosts and their keys -/

section

variable (publicKeyDigest : List Char → Except Error (List Char)) (keys : List KeyView)

/-- The digest of a public key that can be read. -/
def digestOf (publicKey : List Char) : List Char := (publicKeyDigest publicKey).toOption.getD []

/-- The identities of a host: its keys that are in the vault, in their order. -/
def identitiesOf (keyIDs : List ID) : List Sshconfig.Identity :=
  ((keyIDs.filterMap fun id => (byIDOf keys).lookup id).zipIdx 1).map fun (k, slot) =>
    { slot := slot, digest := digestOf publicKeyDigest k.publicKey, publicKey := k.publicKey }

/-- What is written for a host. -/
def generatedHost (h : HostView) : Sshconfig.Host :=
  { hostAlias := h.hostAlias, hostName := h.hostName, user := h.user, port := h.port,
    proxyJump := h.proxyJump, identities := identitiesOf publicKeyDigest keys h.keyIDs }

variable {publicKeyDigest keys}
  (hkeys : ∀ k ∈ keys, ∃ digest, publicKeyDigest k.publicKey = .ok digest)

theorem identitiesOf_concat (ids : List ID) (id : ID) :
    identitiesOf publicKeyDigest keys (ids ++ [id]) =
      identitiesOf publicKeyDigest keys ids ++
        (((byIDOf keys).lookup id).map fun k =>
          ({ slot := (identitiesOf publicKeyDigest keys ids).length + 1,
             digest := digestOf publicKeyDigest k.publicKey,
             publicKey := k.publicKey } : Sshconfig.Identity)).toList := by
  rw [identitiesOf, List.filterMap_append]
  cases hk : (byIDOf keys).lookup id with
  | none => simp [identitiesOf, hk]
  | some k => simp [identitiesOf, hk, List.zipIdx_append, Nat.add_comm]

/-- The loop over the keys of a host adds issues, and nothing else. -/
structure Offered (p p' : Plan) : Prop where
  generated : p'.generated = p.generated
  omitted : p'.omitted = p.omitted
  unique : p'.unique = p.unique
  issues : p.issues ⊆ p'.issues

theorem Offered.trans {p p' q : Plan} (h : Offered p p') (h' : Offered p' q) : Offered p q where
  generated := h'.generated.trans h.generated
  omitted := h'.omitted.trans h.omitted
  unique := h'.unique.trans h.unique
  issues := List.Subset.trans h.issues h'.issues

theorem mem_byIDOf {id : ID} {k : KeyView} (h : (byIDOf keys).lookup id = some k) : k ∈ keys := by
  have hmem := mem_of_lookup h
  rw [byIDOf, foldl_put, List.append_nil, List.mem_reverse] at hmem
  obtain ⟨k', hk', heq⟩ := List.mem_map.1 hmem
  cases heq
  exact hk'

section

variable (hkeys : ∀ k ∈ keys, ∃ digest, publicKeyDigest k.publicKey = .ok digest)
include hkeys

theorem offerKey_ok (hosts : List HostView) (h : HostView) (p : Plan) (ids : List ID) (id : ID) :
    ∃ p', offerKey publicKeyDigest hosts (byIDOf keys) h
        (p, identitiesOf publicKeyDigest keys ids) id =
          .ok (p', identitiesOf publicKeyDigest keys (ids ++ [id])) ∧ Offered p p' := by
  rw [identitiesOf_concat, offerKey]
  cases hk : (byIDOf keys).lookup id with
  | none =>
    rw [Option.map_none, Option.toList_none, List.append_nil]
    exact ⟨_, rfl, rfl, rfl, rfl, List.subset_append_left _ _⟩
  | some k =>
    obtain ⟨digest, hdigest⟩ := hkeys k (mem_byIDOf hk)
    refine ⟨p, ?_, rfl, rfl, rfl, List.Subset.refl _⟩
    simp [hdigest, digestOf, Except.mapError, Except.toOption]

/-- The loop over the keys of a host. -/
theorem offerKeys_ok (hosts : List HostView) (h : HostView) (p : Plan) (ids : List ID) :
    ∃ p', ids.foldlM (offerKey publicKeyDigest hosts (byIDOf keys) h) (p, []) =
        .ok (p', identitiesOf publicKeyDigest keys ids) ∧ Offered p p' := by
  induction ids using List.reverseRecOn with
  | nil => exact ⟨p, rfl, rfl, rfl, rfl, List.Subset.refl _⟩
  | append_singleton ids id ih =>
    obtain ⟨p', hfold, hp'⟩ := ih
    obtain ⟨q, hq, hoff⟩ := offerKey_ok hkeys hosts h p' ids id
    refine ⟨q, ?_, hp'.trans hoff⟩
    rw [List.foldlM_append, hfold]
    simp [hq]

end

variable (publicKeyDigest keys) in
/-- What the first loop has made of the hosts it has gone over. -/
structure Planned (hosts done : List HostView) (p : Plan) : Prop where
  generated : p.generated = done.map (generatedHost publicKeyDigest keys)
  omitted : p.omitted = ((done.filter fun h => ¬ OneAlias hosts h).map HostView.recordID).reverse
  unique : p.unique = uniqueOf (done.filter fun h => OneAlias hosts h)
  reported : ∀ h ∈ done, ¬ OneAlias hosts h →
    ∃ issue ∈ p.issues, issue.recordID = h.recordID ∧ issue.omitted = true

theorem uniqueOf_concat (hosts : List HostView) (h : HostView) :
    uniqueOf (hosts ++ [h]) = (h.hostAlias, h) :: uniqueOf hosts := by
  simp [uniqueOf]

section

variable (hkeys : ∀ k ∈ keys, ∃ digest, publicKeyDigest k.publicKey = .ok digest)
include hkeys

theorem planHost_ok {hosts done : List HostView} {p : Plan}
    (hp : Planned publicKeyDigest keys hosts done p) (h : HostView) :
    ∃ p', planHost publicKeyDigest hosts (byIDOf keys) p h = .ok p' ∧
      Planned publicKeyDigest keys hosts (done ++ [h]) p' := by
  obtain ⟨q, hq, hoff⟩ := offerKeys_ok hkeys hosts h p h.keyIDs
  have hgenerated : q.generated ++ [generatedHost publicKeyDigest keys h] =
      (done ++ [h]).map (generatedHost publicKeyDigest keys) := by
    rw [hoff.generated, hp.generated, List.map_append, List.map_singleton]
  have hreported : ∀ h' ∈ done, ¬ OneAlias hosts h' →
      ∃ issue ∈ q.issues, issue.recordID = h'.recordID ∧ issue.omitted = true := fun h' hmem hone => by
    obtain ⟨issue, hissue, his⟩ := hp.reported h' hmem hone
    exact ⟨issue, hoff.issues hissue, his⟩
  simp only [planHost, hq, Except.bind_ok']
  by_cases hone : OneAlias hosts h
  · have hcount : ¬ 1 < aliasCount hosts h.hostAlias := Nat.not_lt.2 hone
    rw [if_neg hcount]
    refine ⟨_, rfl, hgenerated, ?_, ?_, fun h' hmem hone' => ?_⟩
    · simp [hoff.omitted, hp.omitted, hone]
    · simp [hoff.unique, hp.unique, hone, uniqueOf_concat]
    · rcases List.mem_append.1 hmem with hmem | hmem
      · exact hreported h' hmem hone'
      · rw [List.mem_singleton.1 hmem] at hone'
        exact absurd hone hone'
  · have hcount : 1 < aliasCount hosts h.hostAlias := Nat.not_le.1 hone
    rw [if_pos hcount]
    refine ⟨_, rfl, hgenerated, ?_, ?_, fun h' hmem hone' => ?_⟩
    · simp [Plan.report, hoff.omitted, hp.omitted, hone]
    · simp [Plan.report, hoff.unique, hp.unique, hone]
    · rcases List.mem_append.1 hmem with hmem | hmem
      · obtain ⟨issue, hissue, his⟩ := hreported h' hmem hone'
        exact ⟨issue, List.mem_append_left _ hissue, his⟩
      · rw [List.mem_singleton.1 hmem]
        exact ⟨_, List.mem_append_right _ (List.mem_singleton_self _), rfl, rfl⟩

/-- The first loop. -/
theorem planHosts_first (hosts done : List HostView) {p : Plan}
    (hp : Planned publicKeyDigest keys hosts [] p) :
    ∃ p', done.foldlM (planHost publicKeyDigest hosts (byIDOf keys)) p = .ok p' ∧
      Planned publicKeyDigest keys hosts done p' := by
  induction done using List.reverseRecOn with
  | nil => exact ⟨p, rfl, hp⟩
  | append_singleton done h ih =>
    obtain ⟨p', hfold, hp'⟩ := ih
    obtain ⟨q, hq, hplanned⟩ := planHost_ok hkeys hp' h
    refine ⟨q, ?_, hplanned⟩
    rw [List.foldlM_append, hfold]
    simp [hq]

end

end

/-! ## The loop over the jumps -/

section

variable {hosts : List HostView}

/-- The host is reported as left out. -/
def Reported (p : Plan) (h : HostView) : Prop :=
  ∃ issue ∈ p.issues, issue.recordID = h.recordID ∧ issue.omitted = true

/-- What the turns of the second loop keep: only hosts that cannot be written are left out, and
    each of them is reported. -/
structure Sound (hosts : List HostView) (p : Plan) : Prop where
  unique : p.unique = uniqueOf (oneAlias hosts)
  nodup : p.omitted.Nodup
  sub : p.omitted ⊆ hosts.map HostView.recordID
  shared : ∀ h ∈ hosts, ¬ OneAlias hosts h → h.recordID ∈ p.omitted
  omitted : ∀ h ∈ hosts, h.recordID ∈ p.omitted → ¬ Renders hosts h ∧ Reported p h

variable (hid : (hosts.map HostView.recordID).Nodup)
include hid

theorem jumpLoops_iff {h : HostView} (hmem : h ∈ hosts) (hone : OneAlias hosts h) :
    jumpLoops h (uniqueOf (oneAlias hosts)) = true ↔
      TransGen (Jumps (jumpsOf (oneAlias hosts))) h.hostAlias h.hostAlias := by
  have hids : ((oneAlias hosts).map HostView.recordID).Nodup :=
    hid.sublist (List.filter_sublist.map _)
  have hlength : (uniqueOf (oneAlias hosts)).length = (oneAlias hosts).length := by simp [uniqueOf]
  obtain ⟨found, hloops, hfound⟩ := (LoopWalk.init (mem_oneAlias.2 ⟨hmem, hone⟩)).run nodup_oneAlias
    hids (show (oneAlias hosts).length < (oneAlias hosts).length + 1 + [h].length by simp)
  rw [jumpLoops, hlength, ← hfound]
  exact iff_of_eq (congrArg (· = true) (congrArg (·.getD false) hloops))

/-- No problem is found for a host whose chain of jumps ends. -/
theorem jumpProblem_of_renders {p : Plan} (hp : Sound hosts p) {h : HostView} (hh : Renders hosts h)
    {jump : List Char} (hjump : h.proxyJump = some jump) : jumpProblem hosts p h jump = none := by
  have hends := hh.ends
  cases hends with
  | last hnone => simp [hnone] at hjump
  | @jump _ target hjump' hmem hone hends' =>
    cases hjump'.symm.trans hjump
    have hlookup : p.unique.lookup target.hostAlias = some target := by
      rw [hp.unique, lookup_uniqueOf nodup_oneAlias]
      exact ⟨mem_oneAlias.2 ⟨hmem, hone⟩, rfl⟩
    have hloops : jumpLoops h p.unique ≠ true := by
      rw [hp.unique, ne_eq, jumpLoops_iff hid hh.mem hh.one]
      exact hh.ends.not_returns hh.mem hh.one
    have hkept : target.recordID ∉ p.omitted := fun hout =>
      (hp.omitted target hmem hout).1 ⟨hmem, hone, hends'⟩
    rw [jumpProblem, if_neg (Nat.not_lt.2 hone), hlookup]
    simp only [if_neg hloops, if_neg hkept]

omit hid in
/-- What holds of a jump without a problem. -/
theorem jumpProblem_eq_none {p : Plan} {h : HostView} {jump : List Char}
    (hproblem : jumpProblem hosts p h jump = none) :
    ∃ target, p.unique.lookup jump = some target ∧ jumpLoops h p.unique ≠ true ∧
      target.recordID ∉ p.omitted := by
  rw [jumpProblem] at hproblem
  by_cases hshared : 1 < aliasCount hosts jump
  · simp [hshared] at hproblem
  · rw [if_neg hshared] at hproblem
    cases hlookup : p.unique.lookup jump with
    | none => simp [hlookup] at hproblem
    | some target =>
      simp only [hlookup] at hproblem
      split_ifs at hproblem with hloops hout
      exact ⟨target, rfl, hloops, hout⟩

omit hid in
/-- A turn leaves the plan as it is, or leaves out a host with a problem. -/
theorem jumpTurn_cases (hosts : List HostView) (p : Plan) (h : HostView) :
    jumpTurn hosts p h = p ∧ (h.recordID ∉ p.omitted → ∀ jump, h.proxyJump = some jump →
        jumpProblem hosts p h jump = none) ∨
      h.recordID ∉ p.omitted ∧ (∃ jump problem, h.proxyJump = some jump ∧
        jumpProblem hosts p h jump = some problem) ∧
      (jumpTurn hosts p h).omitted = h.recordID :: p.omitted ∧
      (jumpTurn hosts p h).changed = true ∧ (jumpTurn hosts p h).unique = p.unique ∧
      (jumpTurn hosts p h).generated = p.generated ∧ p.issues ⊆ (jumpTurn hosts p h).issues ∧
      Reported (jumpTurn hosts p h) h := by
  rw [jumpTurn]
  by_cases hout : h.recordID ∈ p.omitted
  · rw [if_pos hout]
    exact .inl ⟨rfl, fun h => absurd hout h⟩
  · rw [if_neg hout]
    cases hjump : h.proxyJump with
    | none => exact .inl ⟨rfl, fun _ _ h => by cases h⟩
    | some jump =>
      cases hproblem : jumpProblem hosts p h jump with
      | none =>
        refine .inl ⟨by simp only [hproblem], ?_⟩
        rintro - _ ⟨⟩
        exact hproblem
      | some problem =>
        simp only [hproblem]
        exact .inr ⟨hout, ⟨jump, problem, rfl, hproblem⟩, rfl, rfl, rfl, rfl,
          List.subset_append_left _ _, _, List.mem_append_right _ (List.mem_singleton_self _),
          rfl, rfl⟩

theorem Sound.turn {p : Plan} (hp : Sound hosts p) {h : HostView} (hmem : h ∈ hosts) :
    Sound hosts (jumpTurn hosts p h) := by
  rcases jumpTurn_cases hosts p h with ⟨heq, -⟩ |
    ⟨hout, ⟨jump, problem, hjump, hproblem⟩, homitted, -, hunique, -, hissues, hreported⟩
  · rwa [heq]
  · refine ⟨hunique.trans hp.unique, ?_, ?_, fun h' hmem' hone => ?_, fun h' hmem' hout' => ?_⟩
    · rw [homitted]
      exact List.nodup_cons.2 ⟨hout, hp.nodup⟩
    · rw [homitted]
      exact List.cons_subset.2 ⟨List.mem_map_of_mem hmem, hp.sub⟩
    · rw [homitted]
      exact List.mem_cons_of_mem _ (hp.shared h' hmem' hone)
    · rw [homitted, List.mem_cons] at hout'
      rcases hout' with heq | hout'
      · obtain rfl := List.inj_on_of_nodup_map hid hmem' hmem heq
        refine ⟨fun hrenders => ?_, hreported⟩
        simp [jumpProblem_of_renders hid hp hrenders hjump] at hproblem
      · obtain ⟨hnot, issue, hissue, his⟩ := hp.omitted h' hmem' hout'
        exact ⟨hnot, issue, hissues hissue, his⟩

/-- The turns of one pass. -/
theorem Sound.pass {p : Plan} (hp : Sound hosts p) {todo : List HostView} (hsub : todo ⊆ hosts) :
    Sound hosts (todo.foldl (jumpTurn hosts) p) := by
  induction todo generalizing p with
  | nil => exact hp
  | cons h todo ih =>
    obtain ⟨hmem, hsub⟩ := List.cons_subset.1 hsub
    exact ih (hp.turn hid hmem) hsub

omit hid in
/-- A pass keeps the generated hosts, and it says truly whether it has left out a host. -/
theorem pass_cases (hosts : List HostView) (p : Plan) (todo : List HostView) :
    (todo.foldl (jumpTurn hosts) p).generated = p.generated ∧
    (todo.foldl (jumpTurn hosts) p = p ∧ (∀ h ∈ todo, jumpTurn hosts p h = p) ∨
      (todo.foldl (jumpTurn hosts) p).changed = true ∧
        p.omitted.length < (todo.foldl (jumpTurn hosts) p).omitted.length) := by
  have hstay : ∀ (todo : List HostView) (q : Plan), q.changed = true →
      (todo.foldl (jumpTurn hosts) q).changed = true ∧
      (todo.foldl (jumpTurn hosts) q).generated = q.generated ∧
        q.omitted.length ≤ (todo.foldl (jumpTurn hosts) q).omitted.length := by
    intro todo
    induction todo with
    | nil => exact fun q hq => ⟨hq, rfl, le_rfl⟩
    | cons h todo ih =>
      intro q hq
      rw [List.foldl_cons]
      rcases jumpTurn_cases hosts q h with ⟨heq, -⟩ |
        ⟨-, -, homitted, hchanged, -, hgenerated, -⟩
      · rw [heq]
        exact ih q hq
      · obtain ⟨hchanged', hgenerated', hle⟩ := ih _ hchanged
        rw [homitted, List.length_cons] at hle
        exact ⟨hchanged', hgenerated'.trans hgenerated, by omega⟩
  induction todo with
  | nil => exact ⟨rfl, .inl ⟨rfl, by simp⟩⟩
  | cons h todo ih =>
    rw [List.foldl_cons]
    rcases jumpTurn_cases hosts p h with ⟨heq, -⟩ |
      ⟨-, -, homitted, hchanged, -, hgenerated, -⟩
    · rw [heq]
      refine ⟨ih.1, ih.2.imp_left fun ⟨hfold, hall⟩ => ⟨hfold, fun h' hmem => ?_⟩⟩
      rcases List.mem_cons.1 hmem with rfl | hmem
      · exact heq
      · exact hall h' hmem
    · obtain ⟨hchanged', hgenerated', hle⟩ := hstay todo _ hchanged
      rw [homitted, List.length_cons] at hle
      exact ⟨hgenerated'.trans hgenerated, .inr ⟨hchanged', by omega⟩⟩

omit hid in
/-- The plan the loop stops at: a pass finds no problem. -/
def Quiet (hosts : List HostView) (p : Plan) : Prop := ∀ h ∈ hosts, jumpTurn hosts p h = p

theorem Sound.loop {p : Plan} (hp : Sound hosts p) {turns : ℕ}
    (hturns : hosts.length < turns + p.omitted.length) :
    ∃ p', jumpLoop hosts turns p = some p' ∧ Sound hosts p' ∧ Quiet hosts p' ∧
      p'.generated = p.generated := by
  induction turns generalizing p with
  | zero =>
    have hle := hp.nodup.length_le_of_subset hp.sub
    rw [List.length_map] at hle
    omega
  | succ turns ih =>
    have hstart : Sound hosts { p with changed := false } :=
      ⟨hp.unique, hp.nodup, hp.sub, hp.shared, hp.omitted⟩
    have hpass := hstart.pass hid (List.Subset.refl hosts)
    obtain ⟨hgenerated, ⟨heq, hquiet⟩ | ⟨hchanged, hlt⟩⟩ :=
      pass_cases hosts { p with changed := false } hosts
    · refine ⟨{ p with changed := false }, ?_, hstart, hquiet, rfl⟩
      rw [jumpLoop, heq]
      rfl
    · obtain ⟨p', hloop, hsound, hquiet, hgenerated'⟩ := ih hpass (by simp only at hlt; omega)
      refine ⟨p', ?_, hsound, hquiet, hgenerated'.trans hgenerated⟩
      rw [jumpLoop]
      simp only [hchanged, if_true]
      exact hloop

/-- Where the loop stops, the hosts that are not left out can be written. -/
theorem Sound.writable {p : Plan} (hp : Sound hosts p) (hquiet : Quiet hosts p) :
    Writable hosts {h | h ∈ hosts ∧ h.recordID ∉ p.omitted} := by
  have hone : ∀ h ∈ hosts, h.recordID ∉ p.omitted → OneAlias hosts h := fun h hmem hout =>
    by_contra fun hshared => hout (hp.shared h hmem hshared)
  -- no turn finds a problem
  have hnone : ∀ h ∈ hosts, h.recordID ∉ p.omitted → ∀ jump, h.proxyJump = some jump →
      jumpProblem hosts p h jump = none := by
    intro h hmem hout jump hjump
    rcases jumpTurn_cases hosts p h with ⟨-, hall⟩ | ⟨-, -, homitted, -⟩
    · exact hall hout jump hjump
    · rw [hquiet h hmem] at homitted
      exact absurd (congrArg List.length homitted) (by simp)
  have hlook : ∀ h ∈ hosts, h.recordID ∉ p.omitted → ∀ jump, h.proxyJump = some jump →
      (∃ target, (target ∈ hosts ∧ target.recordID ∉ p.omitted) ∧ target.hostAlias = jump) ∧
        ¬ TransGen (Jumps (jumpsOf (oneAlias hosts))) h.hostAlias h.hostAlias := by
    intro h hmem hout jump hjump
    obtain ⟨target, hlookup, hloops, htarget⟩ := jumpProblem_eq_none (hnone h hmem hout jump hjump)
    rw [hp.unique, lookup_uniqueOf nodup_oneAlias, mem_oneAlias] at hlookup
    rw [hp.unique, ne_eq, jumpLoops_iff hid hmem (hone h hmem hout)] at hloops
    exact ⟨⟨target, ⟨hlookup.1.1, htarget⟩, hlookup.2⟩, hloops⟩
  refine ⟨fun h hh => hh.1, fun h hh => hone h hh.1 hh.2,
    fun h hh jump hjump => (hlook h hh.1 hh.2 jump hjump).1, fun h hback => ?_⟩
  obtain ⟨b, ⟨hh, -, hjump⟩, -⟩ := TransGen.head'_iff.1 hback
  refine (hlook h hh.1 hh.2 _ hjump).2 (TransGen.lift HostView.hostAlias ?_ _ _ hback)
  rintro a b ⟨ha, -, hjump⟩
  exact jumps_oneAlias.2 ⟨a, ha.1, hone a ha.1 ha.2, rfl, hjump⟩

/-- Where the loop stops, exactly the hosts that cannot be written are left out. -/
theorem Sound.notMem_omitted_iff {p : Plan} (hp : Sound hosts p) (hquiet : Quiet hosts p)
    {h : HostView} (hmem : h ∈ hosts) : h.recordID ∉ p.omitted ↔ Renders hosts h :=
  ⟨fun hout => isGreatest_renders.2 (hp.writable hid hquiet) ⟨hmem, hout⟩,
    fun hrenders hout => (hp.omitted h hmem hout).1 hrenders⟩

end

/-! ## The rendered hosts -/

/-- Whether a host is written does not depend on the order of the hosts. -/
theorem renders_perm {hosts hosts' : List HostView} (hperm : hosts.Perm hosts') {h : HostView} :
    Renders hosts h → Renders hosts' h := by
  have hone : ∀ {h : HostView}, OneAlias hosts h → OneAlias hosts' h := fun {h} hone => by
    rwa [OneAlias, aliasCount, ← (hperm.map HostView.hostAlias).count_eq]
  have hends : ∀ {h : HostView}, Ends hosts h → Ends hosts' h := fun hends => by
    induction hends with
    | last hjump => exact .last hjump
    | jump hjump hmem hone' _ ih => exact .jump hjump (hperm.subset hmem) (hone hone') ih
  exact fun hh => ⟨hperm.subset hh.mem, hone hh.one, hends hh.ends⟩

open Classical in
/-- The rendered hosts of a list. -/
noncomputable def rendered (publicKeyDigest : List Char → Except Error (List Char))
    (keys : List KeyView) (hosts : List HostView) : List Sshconfig.Host :=
  (hosts.filter fun h => Renders hosts h).map (generatedHost publicKeyDigest keys)

theorem rendered_perm {publicKeyDigest : List Char → Except Error (List Char)}
    {keys : List KeyView} {hosts hosts' : List HostView} (hperm : hosts.Perm hosts') :
    (rendered publicKeyDigest keys hosts).Perm (rendered publicKeyDigest keys hosts') := by
  classical
  have hsame : (hosts'.filter fun h => Renders hosts' h) = hosts'.filter fun h => Renders hosts h :=
    List.filter_congr fun h _ => by
      simp only [decide_eq_decide]
      exact ⟨renders_perm hperm.symm, renders_perm hperm⟩
  rw [rendered, rendered, hsame]
  exact (hperm.filter _).map _

section

variable {publicKeyDigest : List Char → Except Error (List Char)} {keys : List KeyView}
  {hosts : List HostView}

theorem Planned.sound (hid : (hosts.map HostView.recordID).Nodup) {p : Plan}
    (hp : Planned publicKeyDigest keys hosts hosts p) : Sound hosts p := by
  have hmem : ∀ {id}, id ∈ p.omitted ↔ ∃ h ∈ hosts, ¬ OneAlias hosts h ∧ h.recordID = id := by
    intro id
    simp [hp.omitted, and_assoc]
  refine ⟨hp.unique, ?_, fun id hout => ?_, fun h hh hone => hmem.2 ⟨h, hh, hone, rfl⟩,
    fun h hh hout => ?_⟩
  · rw [hp.omitted, List.nodup_reverse]
    exact hid.sublist (List.filter_sublist.map _)
  · obtain ⟨h, hh, -, rfl⟩ := hmem.1 hout
    exact List.mem_map_of_mem hh
  · obtain ⟨h', hh', hshared, heq⟩ := hmem.1 hout
    rw [List.inj_on_of_nodup_map hid hh' hh heq] at hshared
    exact ⟨fun hrenders => hshared hrenders.one, hp.reported h hh hshared⟩

/-- The hosts that are not left out. -/
theorem Sound.out_eq (hid : (hosts.map HostView.recordID).Nodup) {p : Plan} (hp : Sound hosts p)
    (hquiet : Quiet hosts p)
    (hgenerated : p.generated = hosts.map (generatedHost publicKeyDigest keys)) :
    p.out hosts = rendered publicKeyDigest keys hosts := by
  classical
  have hzip : ∀ l : List HostView, l ⊆ hosts →
      (l.zip (l.map (generatedHost publicKeyDigest keys))).filterMap
          (fun x => if x.1.recordID ∈ p.omitted then none else some x.2) =
        (l.filter fun h => Renders hosts h).map (generatedHost publicKeyDigest keys) := by
    intro l hl
    induction l with
    | nil => rfl
    | cons h l ih =>
      obtain ⟨hmem, hl⟩ := List.cons_subset.1 hl
      have hkept := hp.notMem_omitted_iff hid hquiet hmem
      rw [List.map_cons, List.zip_cons_cons, List.filterMap_cons, List.filter_cons, ih hl]
      by_cases hout : h.recordID ∈ p.omitted
      · simp [hout, mt hkept.2 (not_not_intro hout)]
      · simp [hout, hkept.1 hout]
  rw [Plan.out, hgenerated]
  exact hzip hosts (List.Subset.refl hosts)

/-- The loop comes to its end within a turn for every host and one more, and the result is that
    of `planHosts`. -/
theorem planHosts_ok (hid : (hosts.map HostView.recordID).Nodup)
    (hkeys : ∀ k ∈ keys, ∃ digest, publicKeyDigest k.publicKey = .ok digest) :
    ∃ issues : List HostIssue,
      (∀ turns, hosts.length < turns → planHostsFrom publicKeyDigest turns hosts keys =
        .ok (some (rendered publicKeyDigest keys hosts, issues))) ∧
      (∀ h ∈ hosts, ¬ Renders hosts h →
        ∃ issue ∈ issues, issue.recordID = h.recordID ∧ issue.omitted = true) := by
  obtain ⟨p, hfirst, hp⟩ := planHosts_first hkeys hosts hosts
    (p := { generated := [], omitted := [], unique := [], issues := [], changed := true })
    ⟨rfl, rfl, rfl, by simp⟩
  have hsound := hp.sound hid
  -- the least number of turns that is enough gives the result of all others
  obtain ⟨q, hloop, hq, hquiet, hgenerated⟩ := hsound.loop hid
    (show hosts.length < hosts.length + 1 + p.omitted.length by omega)
  have hmore : ∀ (n k : ℕ) (p q : Plan), jumpLoop hosts n p = some q →
      jumpLoop hosts (n + k) p = some q := by
    intro n k
    induction n with
    | zero => exact fun p q h => nomatch h
    | succ n ih =>
      intro p q h
      rw [Nat.add_right_comm, jumpLoop]
      rw [jumpLoop] at h
      split_ifs at h ⊢ with hchanged
      · exact ih _ _ h
      · exact h
  refine ⟨q.issues, fun turns hturns => ?_, fun h hmem hnot => ?_⟩
  · obtain ⟨k, rfl⟩ := Nat.exists_eq_add_of_le hturns
    rw [planHostsFrom, hfirst]
    simp only [Except.bind_ok', Except.pure_eq_ok]
    rw [hmore _ k _ _ hloop, Option.map_some,
      hq.out_eq hid hquiet (hgenerated.trans hp.generated)]
  · have hout : h.recordID ∈ q.omitted :=
      by_contra fun hout => hnot ((hq.notMem_omitted_iff hid hquiet hmem).1 hout)
    exact (hq.omitted h hmem hout).2

end

/-! ## Hosts without a problem -/

section

variable {publicKeyDigest : List Char → Except Error (List Char)} {keys : List KeyView}
  {hosts : List HostView}
  (hkeys : ∀ k ∈ keys, ∃ digest, publicKeyDigest k.publicKey = .ok digest)

theorem exists_lookup_byIDOf {id : ID} (h : id ∈ keys.map KeyView.recordID) :
    ∃ k, (byIDOf keys).lookup id = some k := by
  rw [byIDOf, foldl_put, List.append_nil]
  obtain ⟨k, hk, rfl⟩ := List.mem_map.1 h
  cases hlookup : ((keys.map fun k => (k.recordID, k)).reverse).lookup k.recordID with
  | some k' => exact ⟨k', rfl⟩
  | none =>
    have := List.lookup_eq_none_iff.1 hlookup (k.recordID, k) (by simpa using hk)
    simp at this

include hkeys in
theorem offerKeys_found (h : HostView) (p : Plan) {ids : List ID}
    (hids : ∀ id ∈ ids, id ∈ keys.map KeyView.recordID) :
    ids.foldlM (offerKey publicKeyDigest hosts (byIDOf keys) h) (p, []) =
      .ok (p, identitiesOf publicKeyDigest keys ids) := by
  induction ids using List.reverseRecOn with
  | nil => rfl
  | append_singleton ids id ih =>
    have hinit := ih fun id hid => hids id (List.mem_append_left _ hid)
    obtain ⟨k, hk⟩ := exists_lookup_byIDOf (hids id (by simp))
    obtain ⟨digest, hdigest⟩ := hkeys k (mem_byIDOf hk)
    rw [List.foldlM_append, hinit, identitiesOf_concat, hk]
    simp [offerKey, hk, hdigest, digestOf, Except.mapError, Except.toOption]

include hkeys in
/-- The first loop over hosts with an alias of their own and with keys that are there. -/
theorem planHosts_first_clean (hone : ∀ h ∈ hosts, OneAlias hosts h)
    (hids : ∀ h ∈ hosts, ∀ id ∈ h.keyIDs, id ∈ keys.map KeyView.recordID) {done : List HostView}
    (hdone : done ⊆ hosts) :
    done.foldlM (planHost publicKeyDigest hosts (byIDOf keys))
        { generated := [], omitted := [], unique := [], issues := [], changed := true } =
      .ok { generated := done.map (generatedHost publicKeyDigest keys), omitted := [],
            unique := uniqueOf done, issues := [], changed := true } := by
  induction done using List.reverseRecOn with
  | nil => rfl
  | append_singleton done h ih =>
    have hmem : h ∈ hosts := hdone (by simp)
    have hcount : ¬ 1 < aliasCount hosts h.hostAlias := Nat.not_lt.2 (hone h hmem)
    rw [List.foldlM_append, ih fun x hx => hdone (List.mem_append_left _ hx)]
    simp only [Except.bind_ok', List.foldlM_cons, List.foldlM_nil, planHost,
      offerKeys_found hkeys h _ (hids h hmem), if_neg hcount, Except.pure_eq_ok, uniqueOf_concat,
      List.map_append, List.map_cons, List.map_nil]
    rfl

include hkeys in
/-- If every host can be written and its keys are there, all hosts are rendered and nothing is
    reported. -/
theorem planHosts_clean (hid : (hosts.map HostView.recordID).Nodup)
    (hrenders : ∀ h ∈ hosts, Renders hosts h)
    (hids : ∀ h ∈ hosts, ∀ id ∈ h.keyIDs, id ∈ keys.map KeyView.recordID) :
    planHosts publicKeyDigest hosts keys =
      .ok (hosts.map (generatedHost publicKeyDigest keys), []) := by
  have hall : oneAlias hosts = hosts := by
    rw [oneAlias, List.filter_eq_self]
    exact fun h hmem => decide_eq_true (hrenders h hmem).one
  have hfirst := planHosts_first_clean hkeys (fun h hmem => (hrenders h hmem).one) hids
    (List.Subset.refl hosts)
  -- the plan that the second loop begins and ends with
  have hsound : ∀ changed, Sound hosts
      { generated := hosts.map (generatedHost publicKeyDigest keys), omitted := [],
        unique := uniqueOf hosts, issues := [], changed := changed } := fun changed =>
    ⟨by rw [hall], List.nodup_nil, List.nil_subset _,
      fun h hmem hshared => absurd (hrenders h hmem).one hshared, fun _ _ hout => by simp at hout⟩
  have hturn : ∀ h ∈ hosts, jumpTurn hosts
      { generated := hosts.map (generatedHost publicKeyDigest keys), omitted := [],
        unique := uniqueOf hosts, issues := [], changed := false } h =
      { generated := hosts.map (generatedHost publicKeyDigest keys), omitted := [],
        unique := uniqueOf hosts, issues := [], changed := false } := by
    intro h hmem
    rw [jumpTurn, if_neg (by simp)]
    cases hjump : h.proxyJump with
    | none => rfl
    | some jump => simp only [jumpProblem_of_renders hid (hsound false) (hrenders h hmem) hjump]
  have hpass : ∀ todo ⊆ hosts, todo.foldl (jumpTurn hosts)
      { generated := hosts.map (generatedHost publicKeyDigest keys), omitted := [],
        unique := uniqueOf hosts, issues := [], changed := false } =
      { generated := hosts.map (generatedHost publicKeyDigest keys), omitted := [],
        unique := uniqueOf hosts, issues := [], changed := false } := by
    intro todo htodo
    induction todo with
    | nil => rfl
    | cons h todo ih =>
      obtain ⟨hmem, htodo⟩ := List.cons_subset.1 htodo
      rw [List.foldl_cons, hturn h hmem, ih htodo]
  have hout : ∀ l : List HostView,
      (l.zip (l.map (generatedHost publicKeyDigest keys))).filterMap
          (fun x => if x.1.recordID ∈ ([] : List ID) then none else some x.2) =
        l.map (generatedHost publicKeyDigest keys) := by
    intro l
    induction l with
    | nil => rfl
    | cons h l ih => simpa using ih
  rw [planHosts, planHostsFrom, hfirst]
  simp only [Except.bind_ok', Except.pure_eq_ok, jumpLoop, hpass hosts (List.Subset.refl hosts),
    Bool.false_eq_true, if_false, Option.map_some, Option.getD_some, Plan.out, hout]

end

/-- **Main result.**  `planHosts` comes to an end, and what it renders are the hosts with an
    alias of their own whose chain of jumps ends: the largest set of hosts that can be written,
    whatever the order of the list.  Every host left out is reported as such. -/
theorem planHosts_renders (publicKeyDigest : List Char → Except Error (List Char))
    (hosts : List HostView) (keys : List KeyView) (hid : (hosts.map HostView.recordID).Nodup)
    (hkeys : ∀ k ∈ keys, ∃ digest, publicKeyDigest k.publicKey = .ok digest) :
    ∃ issues,
      (∀ turns, hosts.length < turns → planHostsFrom publicKeyDigest turns hosts keys =
        .ok (some (rendered publicKeyDigest keys hosts, issues))) ∧
      planHosts publicKeyDigest hosts keys = .ok (rendered publicKeyDigest keys hosts, issues) ∧
      IsGreatest {S | Writable hosts S} {h | Renders hosts h} ∧
      (∀ hosts', hosts.Perm hosts' → ∃ issues', planHosts publicKeyDigest hosts' keys =
          .ok (rendered publicKeyDigest keys hosts', issues') ∧
        (rendered publicKeyDigest keys hosts').Perm (rendered publicKeyDigest keys hosts)) ∧
      ∀ h ∈ hosts, ¬ Renders hosts h →
        ∃ issue ∈ issues, issue.recordID = h.recordID ∧ issue.omitted = true := by
  have hplan : ∀ hosts', (hosts'.map HostView.recordID).Nodup → ∃ issues : List HostIssue,
      planHosts publicKeyDigest hosts' keys = .ok (rendered publicKeyDigest keys hosts', issues) := by
    intro hosts' hid'
    obtain ⟨issues, hturns, -⟩ := planHosts_ok hid' hkeys
    exact ⟨issues, by rw [planHosts, hturns _ (Nat.lt_succ_self _)]; rfl⟩
  obtain ⟨issues, hturns, hreported⟩ := planHosts_ok hid hkeys
  refine ⟨issues, hturns, ?_, isGreatest_renders, fun hosts' hperm => ?_, hreported⟩
  · rw [planHosts, hturns _ (Nat.lt_succ_self _)]
    rfl
  · obtain ⟨issues', hissues'⟩ := hplan hosts' ((hperm.map HostView.recordID).nodup_iff.1 hid)
    exact ⟨issues', hissues', (rendered_perm hperm).symm⟩

namespace Plan01

def host (recordID hostAlias : List Char) (jump : Option (List Char)) : HostView where
  recordID := recordID
  hostAlias := hostAlias
  hostName := ['h']
  user := ['u']
  port := 22
  proxyJump := jump
  keyIDs := [['k']]

/-- A bastion and a host behind it, two hosts in a loop and one behind the loop, and two hosts
    of one name. -/
def hosts : List HostView :=
  [host ['1'] ['a'] (some ['b']), host ['2'] ['b'] none, host ['3'] ['c'] (some ['d']),
    host ['4'] ['d'] (some ['c']), host ['5'] ['e'] (some ['d']), host ['6'] ['f'] none,
    host ['7'] ['f'] none]

def keys : List KeyView := [⟨['k'], ['f'], ['a'], [], ['p']⟩]

def publicKeyDigest (publicKey : List Char) : Except Error (List Char) := .ok publicKey

theorem planHosts_renders_two :
    (hosts.map HostView.recordID).Nodup ∧
    (∀ k ∈ keys, ∃ digest, publicKeyDigest k.publicKey = .ok digest) ∧
    (planHosts publicKeyDigest hosts keys).toOption.map (fun x => x.1.map (·.hostAlias)) =
      some [['a'], ['b']] ∧
    ∃ issues, planHosts publicKeyDigest hosts keys =
      .ok (rendered publicKeyDigest keys hosts, issues) := by
  have hid : (hosts.map HostView.recordID).Nodup := by decide
  have hkeys : ∀ k ∈ keys, ∃ digest, publicKeyDigest k.publicKey = .ok digest := fun k _ => ⟨_, rfl⟩
  obtain ⟨issues, -, hplan, -⟩ := planHosts_renders publicKeyDigest hosts keys hid hkeys
  exact ⟨hid, hkeys, by decide, issues, hplan⟩

end Plan01

end Sshstate.Daemon
