/-
  The include is found where it was put, and is taken out again.

  `findBlock_installText` finds the block that `Install` writes at the start of the text,
  and `uninstallText_installText` restores the text.  The commands are described by what
  they leave on the disk, whatever the calls to the system answer: `install_cases` and
  `uninstall_cases` for a run that succeeds, `state_uninstall` for every run.
-/
import Sshstate.Lib.Command
import Sshstate.Sshconfig.Install

namespace Sshstate.Sshconfig

open Search EStateM

/-! ## The block in the text -/

theorem newline_notMem_markers : newline ∉ markerBegin ∧ newline ∉ markerEnd := by decide

theorem markerEnd_infix_markerBegin : ¬ markerEnd <:+: markerBegin := by decide

/-- The line of the include holds the marker only if the path does. -/
theorem markerEnd_infix_include {path : Bytes} (h : ¬ markerEnd <:+: path) :
    ¬ markerEnd <:+: text "Include " ++ path := by
  obtain ⟨c, rest, hmarker, hc⟩ : ∃ c rest, markerEnd = c :: rest ∧ c ∉ text "Include " :=
    ⟨35, markerEnd.tail, by decide, by decide⟩
  rw [← index_eq_none] at h ⊢
  rw [hmarker] at h ⊢
  rw [index_append_of_notMem hc, h, Option.map_none]

/-- A marker is found in the block at its start or at the line of its end. -/
theorem index_markerEnd_managedBlock {l : Layout} (h : ¬ markerEnd <:+: l.config) (s : Bytes) :
    index markerEnd (managedBlock l ++ s) =
      some (markerBegin.length + 1 + ((text "Include " ++ l.config).length + 1)) := by
  have hsplit : managedBlock l ++ s =
      markerBegin ++ newline :: ((text "Include " ++ l.config) ++ newline ::
        (markerEnd ++ newline :: s)) := by
    simp [managedBlock]
  rw [hsplit, index_append_cons newline_notMem_markers.2 markerEnd_infix_markerBegin,
    index_append_cons newline_notMem_markers.2 (markerEnd_infix_include h),
    index_of_prefix (List.prefix_append _ _)]
  simp only [Option.map_some, Option.some.injEq]
  omega

theorem length_managedBlock (l : Layout) : (managedBlock l).length =
    markerBegin.length + 1 + ((text "Include " ++ l.config).length + 1) + markerEnd.length + 1 := by
  simp only [managedBlock, List.length_append, List.length_cons, List.length_nil]
  omega

/-- A block in front of a text is found there. -/
theorem findBlock_managedBlock {l : Layout} (h : ¬ markerEnd <:+: l.config) (s : Bytes) :
    findBlock (managedBlock l ++ s) = some (0, (managedBlock l).length) := by
  have hbegin : index markerBegin (managedBlock l ++ s) = some 0 :=
    index_of_prefix ((List.prefix_append _ _).trans (List.prefix_append _ _))
  have hline : (managedBlock l ++ s)[(managedBlock l).length - 1]? = some newline := by
    have hend : managedBlock l = (markerBegin ++ newline :: (text "Include " ++ l.config ++
        newline :: markerEnd)) ++ [newline] := by simp [managedBlock]
    have hlast : (managedBlock l).getLast? = some newline := by rw [hend, List.getLast?_concat]
    rw [List.getElem?_append_left (by rw [length_managedBlock]; omega), ← hlast,
      List.getLast?_eq_getElem?]
  have hstop : markerBegin.length + 1 + ((text "Include " ++ l.config).length + 1) +
      markerEnd.length = (managedBlock l).length - 1 := by
    rw [length_managedBlock]; omega
  have hpos : (managedBlock l).length - 1 + 1 = (managedBlock l).length := by
    rw [length_managedBlock]; omega
  simp only [findBlock, hbegin, List.drop_zero, index_markerEnd_managedBlock h, Nat.zero_add, hstop,
    hline, if_true, hpos]

theorem findBlock_installText {l : Layout} (h : ¬ markerEnd <:+: l.config) (original : Bytes) :
    findBlock (installText l original) = some (0, (managedBlock l).length) :=
  findBlock_managedBlock h _

theorem uninstallText_installText (l : Layout) (original : Bytes) :
    uninstallText (installText l original) 0 (managedBlock l).length = original := by
  cases original with
  | nil => simp [uninstallText, installText, trimPrefix]
  | cons c original => simp [uninstallText, installText, trimPrefix]

theorem findBlock_bounds {body : Bytes} {start stop : ℕ} (h : findBlock body = some (start, stop)) :
    start ≤ stop ∧ stop ≤ body.length := by
  cases hbegin : index markerBegin body with
  | none => simp [findBlock, hbegin] at h
  | some i =>
    cases hend : index markerEnd (body.drop i) with
    | none => simp [findBlock, hbegin, hend] at h
    | some closer =>
      obtain ⟨hi, -⟩ := index_eq_some.1 hbegin
      obtain ⟨-, hmarker, -⟩ := index_eq_some.1 hend
      have hlen := hmarker.length_le
      rw [List.drop_drop, List.length_drop] at hlen
      have hpos : 0 < markerEnd.length := by decide
      simp only [findBlock, hbegin, hend, Option.some.injEq, Prod.mk.injEq] at h
      obtain ⟨rfl, hstop⟩ := h
      split_ifs at hstop with hline
      · have := (List.getElem?_eq_some_iff.1 hline).1
        omega
      · omega

/-- The text falls into what stands before the block, the block and what stands after it, of
    which `Uninstall` drops a newline at most. -/
theorem uninstallText_eq {body : Bytes} {start stop : ℕ} (h : findBlock body = some (start, stop)) :
    ∃ pre block post, body = pre ++ block ++ post ∧ start = pre.length ∧
      stop = pre.length + block.length ∧
      (uninstallText body start stop = pre ++ post ∨
        ∃ post', post = newline :: post' ∧ uninstallText body start stop = pre ++ post') := by
  obtain ⟨hle, hlen⟩ := findBlock_bounds h
  refine ⟨body.take start, (body.take stop).drop start, body.drop stop, ?_, ?_, ?_, ?_⟩
  · have htake : body.take start = (body.take stop).take start := by
      rw [List.take_take, min_eq_left hle]
    rw [htake, List.take_append_drop, List.take_append_drop]
  · rw [List.length_take]; omega
  · rw [List.length_drop, List.length_take, List.length_take]; omega
  · rw [uninstallText, trimPrefix]
    split_ifs with hnewline
    · obtain ⟨post', hpost⟩ := hnewline
      refine .inr ⟨post', hpost.symm, ?_⟩
      rw [← hpost]
      rfl
    · exact .inl rfl

/-! ## What the commands leave -/

section
variable {r : Reading} {c : Calls} {path : Bytes} {d t : Disk}

@[simp] theorem state_readUserConfig (r : Reading) (path : Bytes) (d : Disk) :
    (readUserConfig r path d).state = d := by
  cases hstat : r.stat <;> cases hnode : d.user.node <;> cases hread : r.read <;>
    simp [readUserConfig, hstat, hnode, hread]

theorem readUserConfig_eq_ok {body : Bytes} {existed : Bool}
    (h : readUserConfig r path d = .ok (body, existed) t) :
    t = d ∧ body = d.user.body ∧ (existed = false ↔ d.user.node = .missing) := by
  cases hstat : r.stat with
  | some answer => simp [readUserConfig, hstat] at h
  | none =>
    cases hnode : d.user.node with
    | missing =>
      simp only [readUserConfig, get_bind, hstat, hnode, pure_apply, Result.ok.injEq,
        Prod.mk.injEq] at h
      obtain ⟨⟨rfl, rfl⟩, rfl⟩ := h
      simp [UserFile.body, hnode]
    | irregular => simp [readUserConfig, hstat, hnode] at h
    | file content perm =>
      cases hread : r.read with
      | some answer => simp [readUserConfig, hstat, hnode, hread] at h
      | none =>
        simp only [readUserConfig, get_bind, hstat, hnode, hread, pure_apply, Result.ok.injEq,
          Prod.mk.injEq] at h
        obtain ⟨⟨rfl, rfl⟩, rfl⟩ := h
        simp [UserFile.body, hnode]

theorem refuseSymlink_eq_ok {u : Unit} :
    refuseSymlink path d = .ok u t ↔ d.user.link = none ∧ t = d := by
  cases hlink : d.user.link <;> simp [refuseSymlink, hlink, eq_comm]

@[simp] theorem state_refuseSymlink : (refuseSymlink path d).state = d := by
  cases hlink : d.user.link <;> simp [refuseSymlink, hlink]

/-- A backup leaves the user's file alone. -/
theorem user_backupFrom (c : Calls) (path body : Bytes) (tries n : ℕ) (d : Disk) :
    (backupFrom c path body tries n d).state.user = d.user := by
  induction tries generalizing n with
  | zero => rfl
  | succ tries ih =>
    by_cases htaken : (d.backups.lookup (backupName path c.stamp n)).isSome
    · cases hbackup : c.backup <;>
        simp only [backupFrom, get_bind, hbackup, htaken, if_true, throw_apply, state_error, ih]
    · cases hbackup : c.backup <;>
        simp only [backupFrom, get_bind, hbackup, htaken, if_false, set_bind, throw_apply, pure_apply,
          state_error, state_ok, Bool.false_eq_true]

theorem user_of_backup {body name : Bytes} (h : backupUserConfig c path body d = .ok name t) :
    t.user = d.user := by
  have hkeep := user_backupFrom c path body maxBackupsPerSecond 1 d
  rwa [← backupUserConfig, h, state_ok] at hkeep

theorem user_atomicWrite (p : Placing) (data : Bytes) (perm : BitVec 9) :
    (atomicWrite p data perm d).state.user = d.user ∨
      (atomicWrite p data perm d).state.user.body = data := by
  cases p <;> simp [atomicWrite, UserFile.body]

theorem atomicWrite_eq_ok {p : Placing} {data : Bytes} {perm : BitVec 9} {u : Unit}
    (h : atomicWrite p data perm d = .ok u t) : t.user.body = data := by
  cases p <;> simp [atomicWrite] at h
  subst h
  rfl

variable {sha256 : Bytes → Bytes} {original next : Bytes} {existed : Bool}

/-- It fails on the file as the other programs left it, or it comes to the write. -/
theorem replaceUserConfig_cases (sha256 : Bytes → Bytes) (c : Calls) (path original next : Bytes)
    (existed : Bool) (d : Disk) :
    (∃ e, replaceUserConfig sha256 c path original next existed d =
      .error e { d with user := c.others d.user }) ∨
    ∃ perm, replaceUserConfig sha256 c path original next existed d =
      atomicWrite c.write next perm { d with user := c.others d.user } := by
  cases existed with
  | false => exact .inr ⟨_, rfl⟩
  | true =>
    have hstate := state_readUserConfig c.again path { d with user := c.others d.user }
    cases hread : readUserConfig c.again path { d with user := c.others d.user } with
    | error e t =>
      rw [hread, state_error] at hstate
      subst hstate
      refine .inl ⟨e, ?_⟩
      simp only [replaceUserConfig, modify_bind, if_true, bind_of_error hread]
    | ok x t =>
      rw [hread, state_ok] at hstate
      subst hstate
      simp only [replaceUserConfig, modify_bind, if_true, bind_of_ok hread, if_apply]
      split_ifs with hchanged
      · exact .inl ⟨_, rfl⟩
      · exact .inr ⟨_, rfl⟩

theorem user_replaceUserConfig (sha256 : Bytes → Bytes) (c : Calls) (path original next : Bytes)
    (existed : Bool) (d : Disk) :
    (replaceUserConfig sha256 c path original next existed d).state.user = c.others d.user ∨
      (replaceUserConfig sha256 c path original next existed d).state.user.body = next := by
  rcases replaceUserConfig_cases sha256 c path original next existed d with ⟨e, he⟩ | ⟨perm, hw⟩
  · rw [he]
    exact .inl rfl
  · rw [hw]
    exact user_atomicWrite ..

theorem replaceUserConfig_eq_ok {u : Unit}
    (h : replaceUserConfig sha256 c path original next existed d = .ok u t) : t.user.body = next := by
  rcases replaceUserConfig_cases sha256 c path original next existed d with ⟨e, he⟩ | ⟨perm, hw⟩
  · rw [he] at h
    cases h
  · exact atomicWrite_eq_ok (hw.symm.trans h)

/-- A run of `Install` that succeeds: the block was there, or it has been written. -/
theorem install_cases {l : Layout} {res : InstallResult} (h : install sha256 l c d = .ok res t) :
    ((findBlock d.user.body).isSome ∧ res.changed = false ∧ t = d) ∨
      (findBlock d.user.body = none ∧ res.changed = true ∧
        t.user.body = installText l d.user.body) := by
  obtain ⟨⟨original, existed⟩, u, hread, h⟩ := bind_eq_ok.1 h
  obtain ⟨rfl, rfl, -⟩ := readUserConfig_eq_ok hread
  cases hfound : findBlock u.user.body with
  | some block =>
    simp only [hfound, Option.isSome_some, if_true, pure_apply, Result.ok.injEq] at h
    obtain ⟨rfl, rfl⟩ := h
    exact .inl ⟨rfl, rfl, rfl⟩
  | none =>
    refine .inr ⟨rfl, ?_⟩
    cases existed <;>
      simp only [hfound, Option.isSome_none, Bool.false_eq_true, if_false, if_true, bind_eq_ok,
        pure_apply, Result.ok.injEq] at h
    all_goals
      obtain ⟨_, v, -, path, w, -, _, x, hreplace, rfl, rfl⟩ := h
      exact ⟨rfl, replaceUserConfig_eq_ok hreplace⟩

/-- An `Install` over a block changes nothing, even if it fails. -/
theorem state_install {l : Layout} (h : (findBlock d.user.body).isSome) :
    (install sha256 l c d).state = d := by
  cases hread : readUserConfig c.first l.userSSHConfig d with
  | error e t =>
    have hstate := congrArg Result.state hread
    rw [state_readUserConfig, state_error] at hstate
    rw [install, bind_of_error hread, state_error, hstate]
  | ok x t =>
    obtain ⟨rfl, hbody, -⟩ := readUserConfig_eq_ok hread
    rw [install, bind_of_ok hread]
    simp only [hbody, h, if_true, pure_apply, state_ok]

/-- A run of `Uninstall` that succeeds: there was no block, or it has been cut out. -/
theorem uninstall_cases {l : Layout} {res : InstallResult} (h : uninstall sha256 l c d = .ok res t) :
    ((d.user.node = .missing ∨ findBlock d.user.body = none) ∧ res.changed = false ∧ t = d) ∨
      ∃ start stop, findBlock d.user.body = some (start, stop) ∧ res.changed = true ∧
        t.user.body = uninstallText d.user.body start stop := by
  obtain ⟨⟨original, existed⟩, u, hread, h⟩ := bind_eq_ok.1 h
  obtain ⟨rfl, rfl, hmissing⟩ := readUserConfig_eq_ok hread
  cases existed with
  | false =>
    simp only [if_true, pure_apply, Result.ok.injEq] at h
    obtain ⟨rfl, rfl⟩ := h
    exact .inl ⟨.inl (hmissing.1 rfl), rfl, rfl⟩
  | true =>
    cases hfound : findBlock u.user.body with
    | none =>
      simp only [Bool.true_eq_false, if_false, hfound, pure_apply, Result.ok.injEq] at h
      obtain ⟨rfl, rfl⟩ := h
      exact .inl ⟨.inr rfl, rfl, rfl⟩
    | some block =>
      simp only [Bool.true_eq_false, if_false, hfound, bind_eq_ok, pure_apply, Result.ok.injEq] at h
      obtain ⟨_, v, -, path, w, -, _, x, hreplace, rfl, rfl⟩ := h
      exact .inr ⟨_, _, rfl, rfl, replaceUserConfig_eq_ok hreplace⟩

/-- What `Uninstall` may leave: the file as it was or as the other programs left it, or the
    text without the block. -/
def Leaves (c : Calls) (before after : UserFile) : Prop :=
  after = before ∨ after = c.others before ∨
    ∃ start stop, findBlock before.body = some (start, stop) ∧
      after.body = uninstallText before.body start stop

/-- A run of `Uninstall`, even if it fails. -/
theorem state_uninstall (sha256 : Bytes → Bytes) (l : Layout) (c : Calls) (d : Disk) :
    Leaves c d.user (uninstall sha256 l c d).state.user := by
  cases hread : readUserConfig c.first l.userSSHConfig d with
  | error e t =>
    have hstate := congrArg Result.state hread
    rw [state_readUserConfig, state_error] at hstate
    rw [uninstall, bind_of_error hread, state_error, hstate]
    exact .inl rfl
  | ok x t =>
    obtain ⟨original, existed⟩ := x
    obtain ⟨rfl, rfl, -⟩ := readUserConfig_eq_ok hread
    rw [uninstall, bind_of_ok hread]
    cases existed with
    | false => exact .inl rfl
    | true =>
      cases hfound : findBlock t.user.body with
      | none =>
        simp only [Bool.true_eq_false, if_false, hfound, pure_apply, state_ok]
        exact .inl rfl
      | some block =>
        simp only [Bool.true_eq_false, if_false, hfound]
        -- the backup and the check of the path leave the file alone
        refine state_bind (P := fun s : Disk => Leaves c t.user s.user) ?_ ?_
        · rw [state_refuseSymlink]
          exact .inl rfl
        · intro _ v hv
          obtain ⟨-, rfl⟩ := refuseSymlink_eq_ok.1 hv
          refine state_bind (P := fun s : Disk => Leaves c v.user s.user)
            (.inl (user_backupFrom ..)) ?_
          intro name w hw
          have huser := user_of_backup hw
          refine state_bind (P := fun s : Disk => Leaves c v.user s.user) ?_ ?_
          · rcases user_replaceUserConfig sha256 c l.userSSHConfig v.user.body
              (uninstallText v.user.body block.1 block.2) true w with h | h
            · exact .inr (.inl (huser ▸ h))
            · exact .inr (.inr ⟨_, _, hfound, h⟩)
          · intro _ x hx
            exact .inr (.inr ⟨_, _, hfound, replaceUserConfig_eq_ok hx⟩)

/-! ## Runs that succeed -/

/-- Every call succeeds, no other program changes the file, it is a file of its own or missing,
    and a name is left for its backup. -/
structure Quiet (l : Layout) (c : Calls) (d : Disk) : Prop where
  first : c.first = ⟨none, none⟩
  backup : c.backup = .placed
  others : c.others d.user = d.user
  again : c.again = ⟨none, none⟩
  write : c.write = .placed
  link : d.user.link = none
  node : d.user.node ≠ .irregular
  free : ∃ n, 1 ≤ n ∧ n ≤ maxBackupsPerSecond ∧
    d.backups.lookup (backupName l.userSSHConfig c.stamp n) = none

theorem readUserConfig_quiet (path : Bytes) (h : d.user.node ≠ .irregular) :
    readUserConfig ⟨none, none⟩ path d = .ok (d.user.body, decide (d.user.node ≠ .missing)) d := by
  cases hnode : d.user.node with
  | missing => simp [readUserConfig, hnode, UserFile.body]
  | irregular => exact absurd hnode h
  | file body perm => simp [readUserConfig, hnode, UserFile.body]

/-- The names are tried one after the other. -/
theorem backupFrom_eq_ok (hbackup : c.backup = .placed) (body : Bytes) {tries n k : ℕ}
    (hn : n ≤ k) (hk : k < n + tries) (hfree : d.backups.lookup (backupName path c.stamp k) = none) :
    ∃ name t, backupFrom c path body tries n d = .ok name t := by
  induction tries generalizing n with
  | zero => omega
  | succ tries ih =>
    by_cases htaken : (d.backups.lookup (backupName path c.stamp n)).isSome
    · have hne : n ≠ k := by
        rintro rfl
        rw [hfree] at htaken
        cases htaken
      obtain ⟨name, t, h⟩ := ih (show n + 1 ≤ k by omega) (by omega)
      refine ⟨name, t, ?_⟩
      simp only [backupFrom, get_bind, hbackup, htaken, if_true, h]
    · refine ⟨backupName path c.stamp n,
        { d with backups := (backupName path c.stamp n, body) :: d.backups }, ?_⟩
      simp only [backupFrom, get_bind, hbackup, htaken, if_false, set_bind, pure_apply,
        Bool.false_eq_true]

theorem Quiet.backup_ok {l : Layout} (h : Quiet l c d) (body : Bytes) :
    ∃ name t, backupUserConfig c l.userSSHConfig body d = .ok name t ∧ t.user = d.user := by
  obtain ⟨n, hn, hle, hfree⟩ := h.free
  have hlast : n < 1 + maxBackupsPerSecond := by omega
  obtain ⟨name, t, ht⟩ := backupFrom_eq_ok h.backup body hn hlast hfree
  exact ⟨name, t, ht, user_of_backup ht⟩

theorem Quiet.replace_ok {l : Layout} (h : Quiet l c d) (sha256 : Bytes → Bytes) (ht : t.user = d.user) (next : Bytes) :
    ∃ u, replaceUserConfig sha256 c l.userSSHConfig d.user.body next (decide (d.user.node ≠ .missing))
      t = .ok () u := by
  have hothers : c.others t.user = d.user := by
    rw [ht]
    exact h.others
  have hwrite : ∀ perm s, ∃ u, atomicWrite c.write next perm s = .ok () u := by
    intro perm s
    rw [h.write]
    exact ⟨_, rfl⟩
  have hread : readUserConfig c.again l.userSSHConfig { t with user := c.others t.user } =
      .ok (d.user.body, decide (d.user.node ≠ .missing)) { t with user := c.others t.user } := by
    rw [h.again, hothers]
    exact readUserConfig_quiet l.userSSHConfig h.node
  by_cases hmissing : d.user.node = .missing
  · simp only [hmissing, ne_eq, not_true_eq_false, decide_false]
    exact hwrite _ _
  · simp only [replaceUserConfig, modify_bind, hmissing, ne_eq, not_false_eq_true, decide_true, if_true,
      bind_of_ok hread, not_true_eq_false, Bool.true_eq_false, or_self, if_false, get_bind]
    exact hwrite _ _

theorem Quiet.install_ok {l : Layout} (h : Quiet l c d) : ∃ res t, install sha256 l c d = .ok res t := by
  have hread := readUserConfig_quiet l.userSSHConfig h.node
  rw [← h.first] at hread
  by_cases hfound : (findBlock d.user.body).isSome
  · refine ⟨{}, d, ?_⟩
    simp only [install, bind_of_ok hread, hfound, if_true, pure_apply]
  · obtain ⟨name, t, hbackup, ht⟩ := h.backup_ok d.user.body
    have hlink : refuseSymlink l.userSSHConfig d = .ok () d := refuseSymlink_eq_ok.2 ⟨h.link, rfl⟩
    by_cases hmissing : d.user.node = .missing
    · obtain ⟨u, hu⟩ := h.replace_ok sha256 rfl (installText l d.user.body)
      simp only [hmissing, ne_eq, not_true_eq_false, decide_false] at hu hread
      refine ⟨{ changed := true, created := true }, u, ?_⟩
      simp only [install, bind_of_ok hread, hfound, Bool.false_eq_true, if_false, bind_of_ok hlink,
        bind_of_ok (pure_apply ([] : Bytes) d), bind_of_ok hu, pure_apply, Bool.not_false]
    · obtain ⟨u, hu⟩ := h.replace_ok sha256 ht (installText l d.user.body)
      simp only [hmissing, ne_eq, not_false_eq_true, decide_true] at hu hread
      refine ⟨{ changed := true, backupPath := name }, u, ?_⟩
      simp only [install, bind_of_ok hread, hfound, Bool.false_eq_true, if_false, if_true,
        bind_of_ok hlink, bind_of_ok hbackup, bind_of_ok hu, pure_apply, Bool.not_true]

theorem Quiet.uninstall_ok {l : Layout} (h : Quiet l c d) :
    ∃ res t, uninstall sha256 l c d = .ok res t := by
  have hread := readUserConfig_quiet l.userSSHConfig h.node
  rw [← h.first] at hread
  by_cases hmissing : d.user.node = .missing
  · refine ⟨{}, d, ?_⟩
    simp only [hmissing, ne_eq, not_true_eq_false, decide_false] at hread
    simp only [uninstall, bind_of_ok hread, if_true, pure_apply]
  · obtain ⟨name, t, hbackup, ht⟩ := h.backup_ok d.user.body
    have hlink : refuseSymlink l.userSSHConfig d = .ok () d := refuseSymlink_eq_ok.2 ⟨h.link, rfl⟩
    simp only [hmissing, ne_eq, not_false_eq_true, decide_true] at hread
    cases hfound : findBlock d.user.body with
    | none =>
      refine ⟨{}, d, ?_⟩
      simp only [uninstall, bind_of_ok hread, Bool.true_eq_false, if_false, hfound, pure_apply]
    | some block =>
      obtain ⟨u, hu⟩ := h.replace_ok sha256 ht (uninstallText d.user.body block.1 block.2)
      simp only [hmissing, ne_eq, not_false_eq_true, decide_true] at hu
      refine ⟨{ changed := true, backupPath := name }, u, ?_⟩
      simp only [uninstall, bind_of_ok hread, Bool.true_eq_false, if_false, hfound, bind_of_ok hlink,
        bind_of_ok hbackup, bind_of_ok hu, pure_apply]

end

/-- **Main result.**  A text without a block begins with the block after an `Install` that
    succeeds; a second `Install` leaves the disk as it is and `Uninstall` restores the text.
    Both succeed if the calls do.  On every disk, and however the calls end, `Uninstall` leaves
    the file to the others or cuts the first block out of its text, with one newline after it
    at most. -/
theorem include_reversible (sha256 : Bytes → Bytes) (l : Layout)
    (hpath : ¬ markerEnd <:+: l.config) :
    (∀ c d res t, findBlock d.user.body = none → install sha256 l c d = .ok res t →
      (res.changed = true ∧ managedBlock l <+: t.user.body ∧
        findBlock t.user.body = some (0, (managedBlock l).length)) ∧
      (∀ c', (install sha256 l c' t).state = t ∧
        ∀ res' t', install sha256 l c' t = .ok res' t' → res'.changed = false) ∧
      ∀ c' res' t', uninstall sha256 l c' t = .ok res' t' → t'.user.body = d.user.body) ∧
    (∀ c d, Quiet l c d → (∃ res t, install sha256 l c d = .ok res t) ∧
      ∃ res t, uninstall sha256 l c d = .ok res t) ∧
    ∀ c d, (uninstall sha256 l c d).state.user = d.user ∨
      (uninstall sha256 l c d).state.user = c.others d.user ∨
      ∃ pre block post, d.user.body = pre ++ block ++ post ∧
        findBlock d.user.body = some (pre.length, pre.length + block.length) ∧
        ((uninstall sha256 l c d).state.user.body = pre ++ post ∨
          ∃ post', post = newline :: post' ∧
            (uninstall sha256 l c d).state.user.body = pre ++ post') := by
  refine ⟨fun c d res t hnone hinstall => ?_, fun c d h => ⟨h.install_ok, h.uninstall_ok⟩,
    fun c d => ?_⟩
  · rcases install_cases hinstall with ⟨hsome, -⟩ | ⟨-, hchanged, htext⟩
    · rw [hnone] at hsome
      cases hsome
    have hfound : findBlock t.user.body = some (0, (managedBlock l).length) := by
      rw [htext]
      exact findBlock_installText hpath _
    have hsome : (findBlock t.user.body).isSome := by rw [hfound]; rfl
    refine ⟨⟨hchanged, htext ▸ List.prefix_append _ _, hfound⟩, fun c' => ⟨state_install hsome, ?_⟩, ?_⟩
    · intro res' t' h
      rcases install_cases h with ⟨-, hsame, -⟩ | ⟨hnone', -⟩
      · exact hsame
      · rw [hfound] at hnone'
        cases hnone'
    · intro c' res' t' h
      rcases uninstall_cases h with ⟨hmissing | hnone', -⟩ | ⟨start, stop, hblock, -, htext'⟩
      · have hbody : t.user.body = [] := by rw [UserFile.body, hmissing]
        rw [hbody] at hfound
        cases hfound
      · rw [hfound] at hnone'
        cases hnone'
      · obtain ⟨rfl, rfl⟩ := Prod.mk.inj (Option.some.inj (hblock.symm.trans hfound))
        rw [htext', htext, uninstallText_installText]
  · rcases state_uninstall sha256 l c d with hsame | hothers | ⟨start, stop, hfound, htext⟩
    · exact .inl hsame
    · exact .inr (.inl hothers)
    · obtain ⟨pre, block, post, hbody, rfl, rfl, hcut⟩ := uninstallText_eq hfound
      refine .inr (.inr ⟨pre, block, post, hbody, hfound, ?_⟩)
      rw [htext]
      exact hcut

namespace Include01

def layout : Layout :=
  { data := text "/d", ssh := text "/d/ssh", runtime := text "/r", userSSHConfig := text "/h/.ssh/config" }

def quiet : Calls where
  first := ⟨none, none⟩
  stamp := text "20250101T000000Z"
  backup := .placed
  others := id
  again := ⟨none, none⟩
  perm := none
  write := .placed

/-- The end marker alone, and a host. -/
def disk : Disk where
  user := { link := none, node := .file (markerEnd ++ text "\nHost a\n") 0o644 }
  backups := []

theorem quiet_disk : Quiet layout quiet disk where
  first := rfl
  backup := rfl
  others := rfl
  again := rfl
  write := rfl
  link := rfl
  node := by decide
  free := ⟨1, by decide, by decide, rfl⟩

/-- The block is put before the host and taken out again. -/
theorem include_reversible_host : ¬ markerEnd <:+: layout.config ∧ findBlock disk.user.body = none ∧
    ∃ res t, install id layout quiet disk = .ok res t ∧ managedBlock layout <+: t.user.body ∧
      ∀ c res' t', uninstall id layout c t = .ok res' t' → t'.user.body = disk.user.body := by
  have hpath : ¬ markerEnd <:+: layout.config := by decide
  have hnone : findBlock disk.user.body = none := by decide
  obtain ⟨hinstalls, hruns, -⟩ := include_reversible id layout hpath
  obtain ⟨res, t, h⟩ := (hruns quiet disk quiet_disk).1
  obtain ⟨⟨-, hfront, -⟩, -, hback⟩ := hinstalls quiet disk res t hnone h
  exact ⟨hpath, hnone, res, t, h, hfront, hback⟩

end Include01

end Sshstate.Sshconfig
