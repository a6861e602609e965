/-
  The lines of an imported host.

  Every line of a text has a kind (`kindOf`): a `Host` line, a directive, a directive between
  the two markers, or something else.  If `ParseImport` reports no problem, its hosts are the
  `Host` lines, and a host ends with the last directive before the next of them (`Closes`),
  which stands before the host if the host has no directive of its own.
-/
import Sshstate.Lib.Splits
import Sshstate.Sshconfig.Comment

namespace Sshstate.Sshconfig

variable {lib : Library}

/-! ## Kinds of lines -/

inductive LineKind where
  | other | inside | host | directive
  deriving DecidableEq, Repr

/-- The kind of a line; `managed` says that the begin marker stands before it. -/
def kindOf (lib : Library) (managed : Bool) (raw : Bytes) : LineKind :=
  if Utf8.trimSpace raw = markerBegin ∨ Utf8.trimSpace raw = markerEnd then .other
  else
    match splitDirective raw with
    | .error _ => .other
    | .ok (keyword, _) =>
      if keyword = [] then .other
      else if managed then .inside
      else if lib.toLower keyword = text "host" then .host
      else .directive

/-- Whether the next line is between the markers. -/
def managedNext (managed : Bool) (raw : Bytes) : Bool :=
  if Utf8.trimSpace raw = markerBegin then true
  else if Utf8.trimSpace raw = markerEnd then false
  else managed

def managedAfter (lines : List Bytes) : Bool := lines.foldl managedNext false

/-- The `n`-th line is of the kind `k`. -/
def At (lib : Library) (lines : List Bytes) (n : ℕ) (k : LineKind) : Prop :=
  ∃ pre raw post, lines = pre ++ raw :: post ∧ n = pre.length + 1 ∧
    kindOf lib (managedAfter pre) raw = k

/-- `p` is the last `Host` line up to the line `n`. -/
def Owns (lib : Library) (lines : List Bytes) (p n : ℕ) : Prop :=
  At lib lines p .host ∧ p ≤ n ∧ ∀ q, At lib lines q .host → q ≤ n → q ≤ p

/-- The host was read from its `Host` line. -/
def HostLine (lib : Library) (lines : List Bytes) (h : ImportedHost) : Prop :=
  ∃ pre raw post keyword args, lines = pre ++ raw :: post ∧ h.line = pre.length + 1 ∧
    kindOf lib (managedAfter pre) raw = .host ∧ splitDirective raw = .ok (keyword, args) ∧
    hostPattern args = .ok h.hostAlias

section
variable {lines : List Bytes} {raw : Bytes} {n m : ℕ} {k k' : LineKind} {h : ImportedHost}

theorem HostLine.at (hh : HostLine lib lines h) : At lib lines h.line .host := by
  obtain ⟨pre, raw, post, -, -, hlines, hline, hkind, -⟩ := hh
  exact ⟨pre, raw, post, hlines, hline, hkind⟩

theorem At.pos (h : At lib lines n k) : 1 ≤ n := by
  obtain ⟨pre, raw, post, -, rfl, -⟩ := h
  exact Nat.le_add_left ..

theorem At.le (h : At lib lines n k) : n ≤ lines.length := by
  obtain ⟨pre, raw, post, rfl, rfl, -⟩ := h
  simp

/-- A line has one kind. -/
theorem At.eq (h : At lib lines n k) (h' : At lib lines n k') : k = k' := by
  obtain ⟨pre, raw, post, hlines, hn, rfl⟩ := h
  obtain ⟨pre', raw', post', hlines', hn', rfl⟩ := h'
  obtain ⟨rfl, hrest⟩ := List.append_inj (hlines.symm.trans hlines') (by omega)
  obtain ⟨rfl, -⟩ := List.cons.inj hrest
  rfl

theorem At.append (h : At lib lines n k) (more : List Bytes) : At lib (lines ++ more) n k := by
  obtain ⟨pre, raw, post, rfl, hn, hk⟩ := h
  exact ⟨pre, raw, post ++ more, by simp, hn, hk⟩

/-- The kinds of the lines after one more line. -/
theorem at_concat : At lib (lines ++ [raw]) n k ↔
    At lib lines n k ∨ n = lines.length + 1 ∧ kindOf lib (managedAfter lines) raw = k := by
  constructor
  · rintro ⟨pre, raw', post, hlines, rfl, hk⟩
    rcases Splits.split_concat hlines with ⟨rfl, rfl, -⟩ | ⟨post', -, hlines'⟩
    · exact .inr ⟨rfl, hk⟩
    · exact .inl ⟨pre, raw', post', hlines', rfl, hk⟩
  · rintro (h | ⟨rfl, hk⟩)
    · exact h.append [raw]
    · exact ⟨lines, raw, [], rfl, rfl, hk⟩

theorem HostLine.append (hh : HostLine lib lines h) (more : List Bytes) :
    HostLine lib (lines ++ more) h := by
  obtain ⟨pre, raw, post, keyword, args, rfl, hn, hk⟩ := hh
  exact ⟨pre, raw, post ++ more, keyword, args, by simp, hn, hk⟩

end

/-! ## One line -/

namespace Parser

variable {p : Parser} {raw : Bytes} {line : ℕ}

theorem after_concat (lines : List Bytes) :
    after lib (lines ++ [raw]) = (after lib lines).step lib raw (lines.length + 1) := by
  simp [after, List.zipIdx_append, Nat.add_comm]

@[simp] theorem managed_closeBlock : p.closeBlock.managed = p.managed := by
  cases h : p.current <;> simp [closeBlock, h]

@[simp] theorem lastContent_closeBlock : p.closeBlock.lastContent = p.lastContent := by
  cases h : p.current <;> simp [closeBlock, h]

@[simp] theorem problems_closeBlock : p.closeBlock.problems = p.problems := by
  cases h : p.current <;> simp [closeBlock, h]

theorem problems_fail_ne (err : Err) : (p.fail line err).problems ≠ [] := by simp [fail]

/-- A `Host` line without a problem closes the host before it. -/
theorem host_eq {args : List Bytes} (h : (p.host lib line args).problems = []) :
    p.problems = [] ∧ ∃ name set seen, hostPattern args = .ok name ∧
      p.host lib line args = { p.closeBlock with
        set := set, seenAlias := seen
        current := some { line := line, endLine := line, hostAlias := name } } := by
  cases hname : hostPattern args with
  | error err => simp [host, hname, fail] at h
  | ok name =>
    cases hseen : (p.closeBlock.seenAlias).lookup (lib.toLower name) with
    | some first => simp [host, hname, hseen, fail] at h
    | none =>
      simp only [host, hname, hseen, problems_closeBlock] at h ⊢
      exact ⟨h, name, _, _, rfl, rfl⟩

/-- A directive keeps the line and the alias of its host. -/
theorem value_eq_ok {h h' : ImportedHost} {lowered : Bytes} {args : List Bytes}
    (hv : value lib h lowered args = .ok h') : h'.line = h.line ∧ h'.hostAlias = h.hostAlias := by
  rcases args with _ | ⟨arg, _ | ⟨second, more⟩⟩
  · cases hv
  · cases hport : atoi arg <;> cases hjump : proxyJump lib [arg] <;>
      simp only [value, hport, hjump] at hv <;> split_ifs at hv <;> cases hv <;> exact ⟨rfl, rfl⟩
  · cases hv

theorem assign_eq {h : ImportedHost} {lowered : Bytes} {args : List Bytes}
    (hp : (p.assign lib line h lowered args).problems = []) :
    p.problems = [] ∧ ∃ h', h'.line = h.line ∧ h'.hostAlias = h.hostAlias ∧
      p.assign lib line h lowered args = { p with current := some h' } := by
  cases hv : value lib h lowered args with
  | error err => simp [assign, hv, fail] at hp
  | ok h' =>
    simp only [assign, hv] at hp ⊢
    obtain ⟨hline, halias⟩ := value_eq_ok hv
    exact ⟨hp, h', hline, halias, rfl⟩

theorem supported_eq {h : ImportedHost} {keyword lowered : Bytes} {args : List Bytes}
    (hp : (p.supported lib line h keyword lowered args).problems = []) :
    p.problems = [] ∧ ∃ h' set, h'.line = h.line ∧ h'.hostAlias = h.hostAlias ∧
      p.supported lib line h keyword lowered args =
        { p with lastContent := line, set := set, current := some h' } := by
  by_cases hfile : lowered = text "identityfile"
  · simp only [supported, if_pos hfile] at hp ⊢
    obtain ⟨hnone, h', hline, halias, heq⟩ := assign_eq hp
    exact ⟨hnone, h', _, hline, halias, heq⟩
  · cases hset : p.set.lookup lowered with
    | some first => simp [supported, hfile, hset, fail] at hp
    | none =>
      by_cases hlen : args.length ≠ 1
      · simp [supported, hfile, hset, hlen, fail] at hp
      · simp only [supported, if_neg hfile, hset, if_neg hlen] at hp ⊢
        obtain ⟨hnone, h', hline, halias, heq⟩ := assign_eq hp
        exact ⟨hnone, h', _, hline, halias, heq⟩

/-- A directive without a problem is one of the current host. -/
theorem directive_eq {keyword : Bytes} {args : List Bytes}
    (hp : (p.directive lib line keyword args).problems = []) :
    p.problems = [] ∧ supportedInHost.contains (lib.toLower keyword) = true ∧
      ∃ h h' set, p.current = some h ∧ h'.line = h.line ∧ h'.hostAlias = h.hostAlias ∧
        p.directive lib line keyword args =
          { p with lastContent := line, set := set, current := some h' } := by
  cases hexec : executableDirectives.lookup (lib.toLower keyword) with
  | some why => simp [directive, hexec, fail] at hp
  | none =>
    by_cases hcert : certificateDirectives.contains (lib.toLower keyword)
    · simp only [directive, hexec, if_pos hcert] at hp
      exact absurd hp (problems_fail_ne _)
    by_cases hinclude : lib.toLower keyword = text "include"
    · simp only [directive, hexec, if_neg hcert, if_pos hinclude] at hp
      exact absurd hp (problems_fail_ne _)
    cases hsupported : supportedInHost.contains (lib.toLower keyword) with
    | false =>
      simp only [directive, hexec, if_neg hcert, if_neg hinclude, if_pos hsupported] at hp
      exact absurd hp (problems_fail_ne _)
    | true =>
      cases hcurrent : p.current with
      | none =>
        simp only [directive, hexec, if_neg hcert, if_neg hinclude, hsupported, Bool.true_eq_false,
          if_false, hcurrent] at hp
        exact absurd hp (problems_fail_ne _)
      | some h =>
        simp only [directive, hexec, if_neg hcert, if_neg hinclude, hsupported, Bool.true_eq_false,
          if_false, hcurrent] at hp ⊢
        obtain ⟨hnone, h', set, hline, halias, heq⟩ := supported_eq hp
        exact ⟨hnone, trivial, h, h', set, rfl, hline, halias, heq⟩

/-- What a line without a problem does, by its kind. -/
theorem step_cases (hp : (p.step lib raw line).problems = []) :
    p.problems = [] ∧
    ((kindOf lib p.managed raw ≠ .host ∧ kindOf lib p.managed raw ≠ .directive ∧
        p.step lib raw line = { p with managed := managedNext p.managed raw }) ∨
      (kindOf lib p.managed raw = .host ∧ managedNext p.managed raw = p.managed ∧
        ∃ keyword args name set seen, splitDirective raw = .ok (keyword, args) ∧
          hostPattern args = .ok name ∧
          p.step lib raw line = { p.closeBlock with
            set := set, seenAlias := seen
            current := some { line := line, endLine := line, hostAlias := name } }) ∨
      (kindOf lib p.managed raw = .directive ∧ managedNext p.managed raw = p.managed ∧
        ∃ h h' set, p.current = some h ∧ h'.line = h.line ∧ h'.hostAlias = h.hostAlias ∧
          p.step lib raw line = { p with lastContent := line, set := set, current := some h' })) := by
  by_cases hbegin : Utf8.trimSpace raw = markerBegin
  · simp only [step, if_pos hbegin] at hp ⊢
    exact ⟨hp, .inl (by simp [kindOf, managedNext, hbegin])⟩
  by_cases hend : Utf8.trimSpace raw = markerEnd
  · simp only [step, if_neg hbegin, if_pos hend] at hp ⊢
    have hne : ¬ markerEnd = markerBegin := hend ▸ hbegin
    exact ⟨hp, .inl (by simp [kindOf, managedNext, hend, hne])⟩
  have hnext : managedNext p.managed raw = p.managed := by
    rw [managedNext, if_neg hbegin, if_neg hend]
  have hmark : ¬ (Utf8.trimSpace raw = markerBegin ∨ Utf8.trimSpace raw = markerEnd) :=
    not_or.2 ⟨hbegin, hend⟩
  cases hmanaged : p.managed with
  | true =>
    simp only [step, if_neg hbegin, if_neg hend, hmanaged, if_true] at hp ⊢
    refine ⟨hp, .inl ?_⟩
    have hsame : { p with managed := managedNext true raw } = p := by
      rw [← hmanaged, hnext]
    rw [hsame, kindOf, if_neg hmark]
    cases splitDirective raw with
    | error err => simp
    | ok x => by_cases hk : x.1 = [] <;> simp [hk]
  | false =>
    have hsame : { p with managed := managedNext false raw } = p := by
      rw [← hmanaged, hnext]
    rw [hmanaged] at hnext
    cases hsplit : splitDirective raw with
    | error err =>
      simp only [step, if_neg hbegin, if_neg hend, hmanaged, Bool.false_eq_true, if_false, hsplit] at hp
      exact absurd hp (problems_fail_ne _)
    | ok x =>
      obtain ⟨keyword, args⟩ := x
      simp only [step, if_neg hbegin, if_neg hend, hmanaged, Bool.false_eq_true, if_false, hsplit]
        at hp ⊢
      have hkind : kindOf lib false raw = if keyword = [] then .other
          else if lib.toLower keyword = text "host" then .host else .directive := by
        simp [kindOf, hmark, hsplit]
      by_cases hblank : keyword = []
      · rw [if_pos hblank] at hp ⊢
        rw [hkind, if_pos hblank, hsame]
        exact ⟨hp, .inl ⟨by decide, by decide, rfl⟩⟩
      by_cases hhost : lib.toLower keyword = text "host"
      · rw [if_neg hblank, if_pos hhost] at hp ⊢
        rw [hkind, if_neg hblank, if_pos hhost]
        obtain ⟨hnone, name, set, seen, hname, heq⟩ := host_eq hp
        exact ⟨hnone, .inr (.inl ⟨rfl, hnext, keyword, args, name, set, seen, rfl, hname, heq⟩)⟩
      · rw [if_neg hblank, if_neg hhost] at hp ⊢
        rw [hkind, if_neg hblank, if_neg hhost]
        obtain ⟨hnone, -, h, h', set, hcurrent, hline, halias, heq⟩ := directive_eq hp
        rw [hmanaged] at heq
        exact ⟨hnone, .inr (.inr ⟨rfl, hnext, h, h', set, hcurrent, hline, halias, heq⟩)⟩

end Parser

/-! ## The hosts of a text -/

/-- The host ends with the last directive before the line `q`, and no other `Host` line stands
    between. -/
structure Closes (lib : Library) (lines : List Bytes) (h : ImportedHost) (q : ℕ) : Prop where
  lt : h.line < q
  le : q ≤ lines.length + 1
  next : ∀ n, At lib lines n .host → n ≤ h.line ∨ q ≤ n
  end_lt : h.endLine < q
  end_ge : ∀ d, At lib lines d .directive → d < q → d ≤ h.endLine
  end_eq : h.endLine = 0 ∨ At lib lines h.endLine .directive

/-- What the parser knows after the lines, if it has no problem. -/
structure Parsed (lib : Library) (lines : List Bytes) (p : Parser) : Prop where
  managed : p.managed = managedAfter lines
  last_ge : ∀ d, At lib lines d .directive → d ≤ p.lastContent
  last_eq : p.lastContent = 0 ∨ At lib lines p.lastContent .directive
  closed : ∀ h ∈ p.hosts, HostLine lib lines h ∧ ∃ q, At lib lines q .host ∧ Closes lib lines h q
  current : ∀ h ∈ p.current, HostLine lib lines h
  sorted : (p.hosts ++ p.current.toList).Pairwise fun a b => a.line < b.line
  all : ∀ n, At lib lines n .host → ∃ h ∈ p.hosts ++ p.current.toList, h.line = n

section
variable {lines : List Bytes} {raw : Bytes} {h : ImportedHost} {q : ℕ} {p : Parser}

/-- A closed host stays as it is. -/
theorem Closes.concat (hc : Closes lib lines h q) : Closes lib (lines ++ [raw]) h q where
  lt := hc.lt
  le := by have := hc.le; simp; omega
  next n hn := by
    rcases at_concat.1 hn with hn | ⟨rfl, -⟩
    · exact hc.next n hn
    · exact .inr hc.le
  end_lt := hc.end_lt
  end_ge d hd hlt := by
    rcases at_concat.1 hd with hd | ⟨rfl, -⟩
    · exact hc.end_ge d hd hlt
    · exact absurd hc.le (not_le_of_gt hlt)
  end_eq := hc.end_eq.imp_right fun hd => hd.append [raw]

theorem Parsed.last_le (hp : Parsed lib lines p) : p.lastContent ≤ lines.length := by
  rcases hp.last_eq with hzero | hat
  · omega
  · exact hat.le

/-- The last host up to here. -/
theorem Parsed.le_current (hp : Parsed lib lines p) (hcur : p.current = some h) {n : ℕ}
    (hn : At lib lines n .host) : n ≤ h.line := by
  obtain ⟨h', hmem, rfl⟩ := hp.all n hn
  have hsorted := hp.sorted
  rw [hcur, Option.toList_some, List.pairwise_append] at hsorted
  rw [hcur, Option.toList_some, List.mem_append, List.mem_singleton] at hmem
  rcases hmem with hmem | rfl
  · exact (hsorted.2.2 h' hmem h (by simp)).le
  · exact le_rfl

/-- The parser closes the current host. -/
theorem Parsed.closeBlock (hp : Parsed lib lines p) :
    (∀ h ∈ p.closeBlock.hosts, HostLine lib lines h ∧
      ∃ q, (At lib lines q .host ∨ q = lines.length + 1) ∧ Closes lib lines h q) ∧
    (p.closeBlock.hosts.Pairwise fun a b => a.line < b.line) ∧
    ∀ n, At lib lines n .host → ∃ h ∈ p.closeBlock.hosts, h.line = n := by
  cases hcur : p.current with
  | none =>
    have hsorted := hp.sorted
    have hall := hp.all
    simp only [hcur, Option.toList_none, List.append_nil] at hsorted hall
    simp only [Parser.closeBlock, hcur]
    refine ⟨fun h hmem => ?_, hsorted, hall⟩
    obtain ⟨hline, q, hq, hc⟩ := hp.closed h hmem
    exact ⟨hline, q, .inl hq, hc⟩
  | some h =>
    have hline := hp.current h hcur
    have hsorted := hp.sorted
    have hall := hp.all
    simp only [hcur, Option.toList_some] at hsorted hall
    simp only [Parser.closeBlock, hcur]
    refine ⟨fun h' hmem => ?_, ?_, fun n hn => ?_⟩
    · rcases List.mem_append.1 hmem with hmem | hmem
      · obtain ⟨hline', q, hq, hc⟩ := hp.closed h' hmem
        exact ⟨hline', q, .inl hq, hc⟩
      · obtain rfl := List.mem_singleton.1 hmem
        refine ⟨hline, lines.length + 1, .inr rfl, ?_⟩
        exact { lt := Nat.lt_succ_of_le hline.at.le, le := le_rfl
                next := fun n hn => .inl (hp.le_current hcur hn)
                end_lt := Nat.lt_succ_of_le hp.last_le
                end_ge := fun d hd _ => hp.last_ge d hd
                end_eq := hp.last_eq }
    · rw [List.pairwise_append] at hsorted ⊢
      refine ⟨hsorted.1, List.pairwise_singleton _ _, fun a ha b hb => ?_⟩
      obtain rfl := List.mem_singleton.1 hb
      exact hsorted.2.2 a ha h (by simp)
    · obtain ⟨h', hmem, hn'⟩ := hall n hn
      rcases List.mem_append.1 hmem with hmem | hmem
      · exact ⟨h', List.mem_append_left _ hmem, hn'⟩
      · obtain rfl := List.mem_singleton.1 hmem
        exact ⟨{ h' with endLine := p.lastContent }, by simp, hn'⟩

theorem managedAfter_concat : managedAfter (lines ++ [raw]) = managedNext (managedAfter lines) raw := by
  simp [managedAfter]

theorem Parsed.closed_concat (hp : Parsed lib lines p) (hmem : h ∈ p.hosts) :
    HostLine lib (lines ++ [raw]) h ∧
      ∃ q, At lib (lines ++ [raw]) q .host ∧ Closes lib (lines ++ [raw]) h q := by
  obtain ⟨hline, q, hq, hc⟩ := hp.closed h hmem
  exact ⟨hline.append _, q, hq.append _, hc.concat⟩

/-- One line. -/
theorem Parsed.step (hp : Parsed lib lines p)
    (hnone : (p.step lib raw (lines.length + 1)).problems = []) :
    Parsed lib (lines ++ [raw]) (p.step lib raw (lines.length + 1)) := by
  obtain ⟨-, ⟨hhost, hdir, heq⟩ | ⟨hkind, hnext, keyword, args, name, set, seen, hsplit, hname, heq⟩ |
    ⟨hkind, hnext, h, h', set, hcur, hline, halias, heq⟩⟩ := Parser.step_cases hnone
  · have hold : ∀ {n k}, k = .host ∨ k = .directive → At lib (lines ++ [raw]) n k → At lib lines n k := by
      intro n k hk hn
      rcases at_concat.1 hn with hn | ⟨-, rfl⟩
      · exact hn
      · rw [← hp.managed] at hk
        exact absurd hk (not_or.2 ⟨hhost, hdir⟩)
    rw [heq]
    exact { managed := by rw [managedAfter_concat, ← hp.managed]
            last_ge := fun d hd => hp.last_ge d (hold (.inr rfl) hd)
            last_eq := hp.last_eq.imp_right fun hd => hd.append _
            closed := fun h hmem => hp.closed_concat hmem
            current := fun h hmem => (hp.current h hmem).append _
            sorted := hp.sorted
            all := fun n hn => hp.all n (hold (.inl rfl) hn) }
  · have hnew : HostLine lib (lines ++ [raw])
        { line := lines.length + 1, endLine := lines.length + 1, hostAlias := name } :=
      ⟨lines, raw, [], keyword, args, rfl, rfl, hp.managed ▸ hkind, hsplit, hname⟩
    obtain ⟨hclosed, hsorted, hall⟩ := hp.closeBlock
    rw [heq]
    exact { managed := by rw [managedAfter_concat, ← hp.managed, hnext]; simp
            last_ge := fun d hd => by
              rcases at_concat.1 hd with hd | ⟨-, hd⟩
              · simpa using hp.last_ge d hd
              · rw [← hp.managed, hkind] at hd
                cases hd
            last_eq := by simpa using hp.last_eq.imp_right fun hd => hd.append [raw]
            closed := fun h hmem => by
              obtain ⟨hline, q, hq, hc⟩ := hclosed h hmem
              refine ⟨hline.append _, q, at_concat.2 (hq.imp_right fun hq => ⟨hq, ?_⟩), hc.concat⟩
              exact hp.managed ▸ hkind
            current := fun h hmem => by
              obtain rfl := Option.some.inj (Option.mem_def.1 hmem)
              exact hnew
            sorted := by
              refine List.pairwise_append.2 ⟨hsorted, List.pairwise_singleton _ _, fun a ha b hb => ?_⟩
              obtain rfl := List.mem_singleton.1 hb
              exact Nat.lt_succ_of_le (hclosed a ha).1.at.le
            all := fun n hn => by
              rcases at_concat.1 hn with hn | ⟨rfl, -⟩
              · obtain ⟨h, hmem, hline⟩ := hall n hn
                exact ⟨h, List.mem_append_left _ hmem, hline⟩
              · exact ⟨_, List.mem_append_right _ (List.mem_singleton_self _), rfl⟩ }
  · have hold : ∀ {n}, At lib (lines ++ [raw]) n .host → At lib lines n .host := by
      intro n hn
      rcases at_concat.1 hn with hn | ⟨-, hk⟩
      · exact hn
      · rw [← hp.managed, hkind] at hk
        cases hk
    have hsorted := hp.sorted
    have hall := hp.all
    simp only [hcur, Option.toList_some] at hsorted hall
    rw [heq]
    exact { managed := by rw [managedAfter_concat, ← hp.managed, hnext]
            last_ge := fun d hd => hd.le.trans (by simp)
            last_eq := .inr (at_concat.2 (.inr ⟨rfl, hp.managed ▸ hkind⟩))
            closed := fun h hmem => hp.closed_concat hmem
            current := fun x hmem => by
              obtain rfl := Option.some.inj (Option.mem_def.1 hmem)
              obtain ⟨pre, raw', post, keyword, args, hlines, hn, hk, hsplit, hname⟩ :=
                (hp.current h hcur).append [raw]
              exact ⟨pre, raw', post, keyword, args, hlines, hline.trans hn, hk, hsplit,
                halias ▸ hname⟩
            sorted := by
              rw [List.pairwise_append] at hsorted
              refine List.pairwise_append.2 ⟨hsorted.1, List.pairwise_singleton _ _, fun a ha b hb => ?_⟩
              obtain rfl := List.mem_singleton.1 hb
              rw [hline]
              exact hsorted.2.2 a ha h (by simp)
            all := fun n hn => by
              obtain ⟨x, hmem, hx⟩ := hall n (hold hn)
              rcases List.mem_append.1 hmem with hmem | hmem
              · exact ⟨x, List.mem_append_left _ hmem, hx⟩
              · obtain rfl := List.mem_singleton.1 hmem
                exact ⟨h', List.mem_append_right _ (List.mem_singleton_self _), hline.trans hx⟩ }

/-- Every text without a problem. -/
theorem parsed_after (lines : List Bytes) (hnone : (Parser.after lib lines).problems = []) :
    Parsed lib lines (Parser.after lib lines) := by
  induction lines using List.reverseRecOn with
  | nil =>
    have hnil : ∀ n k, ¬ At lib [] n k := by
      rintro n k ⟨pre, raw, post, hlines, -⟩
      simp at hlines
    exact { managed := rfl
            last_ge := fun d hd => absurd hd (hnil d _)
            last_eq := .inl rfl
            closed := fun h hmem => absurd hmem List.not_mem_nil
            current := fun h hmem => by cases hmem
            sorted := List.Pairwise.nil
            all := fun n hn => absurd hn (hnil n _) }
  | append_singleton lines raw ih =>
    rw [Parser.after_concat] at hnone ⊢
    exact (ih (Parser.step_cases hnone).1).step hnone

end

/-- A text is accepted. -/
def Accepted (lib : Library) (body : Bytes) : Prop := (parseImport lib body).2 = []

theorem withHostName_eq (h : ImportedHost) : (withHostName h).line = h.line ∧
    (withHostName h).endLine = h.endLine ∧ (withHostName h).hostAlias = h.hostAlias := by
  unfold withHostName
  split_ifs <;> exact ⟨rfl, rfl, rfl⟩

/-- The hosts of an accepted text. -/
theorem hosts_of_accepted {body : Bytes} (h : Accepted lib body) :
    (∀ h ∈ (parseImport lib body).1, HostLine lib (linesOf body) h ∧
      ∃ q, (At lib (linesOf body) q .host ∨ q = (linesOf body).length + 1) ∧
        Closes lib (linesOf body) h q) ∧
    ((parseImport lib body).1.Pairwise fun a b => a.line < b.line) ∧
    ∀ n, At lib (linesOf body) n .host → ∃ h ∈ (parseImport lib body).1, h.line = n := by
  by_cases hproblems : (Parser.after lib (linesOf body)).closeBlock.problems.length > 0
  · simp only [Accepted, parseImport, if_pos hproblems] at h
    rw [h] at hproblems
    exact absurd hproblems (lt_irrefl _)
  have hnone : (Parser.after lib (linesOf body)).problems = [] := by
    simpa using hproblems
  obtain ⟨hclosed, hsorted, hall⟩ := (parsed_after _ hnone).closeBlock
  simp only [parseImport, if_neg hproblems]
  refine ⟨fun h hmem => ?_, ?_, fun n hn => ?_⟩
  · obtain ⟨x, hx, rfl⟩ := List.mem_map.1 hmem
    obtain ⟨hline, hend, halias⟩ := withHostName_eq x
    obtain ⟨hhost, q, hnext, hq⟩ := hclosed x hx
    refine ⟨?_, q, hnext, ?_⟩
    · simpa only [HostLine, hline, halias] using hhost
    · exact { lt := hline ▸ hq.lt, le := hq.le, next := hline ▸ hq.next, end_lt := hend ▸ hq.end_lt
              end_ge := hend ▸ hq.end_ge, end_eq := hend ▸ hq.end_eq }
  · rw [List.pairwise_map]
    exact hsorted.imp fun hab => by rwa [(withHostName_eq _).1, (withHostName_eq _).1]
  · obtain ⟨x, hx, hline⟩ := hall n hn
    exact ⟨_, List.mem_map_of_mem hx, (withHostName_eq x).1.trans hline⟩

/-! ## Exact ranges -/

/-- The blocks of the hosts are what they are for: in the file, in order and apart, each from its
    own `Host` line over all its directives, without those of another host or of the managed
    block, and fit to be commented out. -/
structure Exact (lib : Library) (lines : List Bytes) (hosts : List ImportedHost) : Prop where
  range : ∀ h ∈ hosts, 1 ≤ h.line ∧ h.line ≤ h.endLine ∧ h.endLine ≤ lines.length
  order : hosts.Pairwise fun a b => a.line < b.line
  apart : hosts.Pairwise fun a b =>
    ∀ n, ¬ ((a.line ≤ n ∧ n ≤ a.endLine) ∧ b.line ≤ n ∧ n ≤ b.endLine)
  begins : ∀ h ∈ hosts, HostLine lib lines h
  contains : ∀ h ∈ hosts, ∀ d, At lib lines d .directive → Owns lib lines h.line d →
    h.line ≤ d ∧ d ≤ h.endLine
  others : ∀ h ∈ hosts, ∀ n, h.line ≤ n → n ≤ h.endLine →
    At lib lines n .host ∨ At lib lines n .directive → Owns lib lines h.line n
  managed : ∀ h ∈ hosts, ∀ n, h.line ≤ n → n ≤ h.endLine → ¬ At lib lines n .inside
  commented : ∀ blocks : List ImportedHost, (∀ b ∈ blocks, b ∈ hosts) → ∀ path,
    ∃ aliases, checkBlocks path lines.length (sortBlocks blocks) = .ok aliases

/-- Every `Host` line has a directive, and no directive of the managed block stands between a
    `Host` line and a directive of the host. -/
def Filled (lib : Library) (lines : List Bytes) : Prop :=
  (∀ p, At lib lines p .host → ∃ d, At lib lines d .directive ∧ Owns lib lines p d) ∧
  ∀ p m d, At lib lines m .inside → At lib lines d .directive → Owns lib lines p d → ¬ (p < m ∧ m < d)

theorem checkBlocks_ok {path : Bytes} {count : ℕ} {blocks : List ImportedHost}
    (h : ∀ b ∈ blocks, 1 ≤ b.line ∧ b.line ≤ b.endLine ∧ b.endLine ≤ count) :
    ∃ aliases, checkBlocks path count blocks = .ok aliases := by
  induction blocks with
  | nil => exact ⟨[], rfl⟩
  | cons b blocks ih =>
    obtain ⟨aliases, hrest⟩ := ih fun x hx => h x (List.mem_cons_of_mem _ hx)
    obtain ⟨hline, hle, hcount⟩ := h b List.mem_cons_self
    have hfits : ¬ (b.line < 1 ∨ b.endLine > count ∨ b.endLine < b.line) := by omega
    refine ⟨b.hostAlias :: aliases, ?_⟩
    rw [checkBlocks, if_neg hfits, hrest]
    rfl

section
variable {lines : List Bytes} {h : ImportedHost} {q d : ℕ}

/-- The directives of a host are those up to the next `Host` line. -/
theorem Closes.owns_iff (hc : Closes lib lines h q) (hh : At lib lines h.line .host)
    (hq : At lib lines q .host ∨ q = lines.length + 1) (hd : At lib lines d .directive) :
    Owns lib lines h.line d ↔ h.line < d ∧ d < q := by
  constructor
  · rintro ⟨-, hle, hlast⟩
    refine ⟨lt_of_le_of_ne hle fun heq => ?_, ?_⟩
    · rw [heq] at hh
      cases hh.eq hd
    · rcases hq with hq | rfl
      · by_contra hge
        have := hlast q hq (by omega)
        have := hc.lt
        omega
      · exact Nat.lt_succ_of_le hd.le
  · rintro ⟨hlt, hdq⟩
    refine ⟨hh, hlt.le, fun n hn hnd => ?_⟩
    rcases hc.next n hn with hle | hge
    · exact hle
    · omega

/-- A host with a directive ends with its last one. -/
theorem Closes.end_of_directive (hc : Closes lib lines h q) (hd : At lib lines d .directive)
    (hlt : h.line < d) (hdq : d < q) : h.line < h.endLine ∧ At lib lines h.endLine .directive := by
  have hge := hc.end_ge d hd hdq
  refine ⟨by omega, hc.end_eq.resolve_left (by omega)⟩

end

/-- **Main result.**  The ranges of the hosts of an accepted text are exact if and only if every
    `Host` line has a directive of its own and no directive of the managed block stands inside
    a host. -/
theorem blocks_exact_iff (lib : Library) (body : Bytes) (h : Accepted lib body) :
    Exact lib (linesOf body) (parseImport lib body).1 ↔ Filled lib (linesOf body) := by
  obtain ⟨hclosed, hsorted, hall⟩ := hosts_of_accepted h
  constructor
  · intro hexact
    refine ⟨fun p hp => ?_, fun p m d hm hd howns hbetween => ?_⟩
    · obtain ⟨x, hx, rfl⟩ := hall p hp
      obtain ⟨hline, q, hq, hc⟩ := hclosed x hx
      obtain ⟨hpos, hle, -⟩ := hexact.range x hx
      have hend := hc.end_eq.resolve_left (by omega)
      have hne : x.line ≠ x.endLine := fun heq => by
        rw [heq] at hp
        cases hp.eq hend
      exact ⟨x.endLine, hend, (hc.owns_iff hp hq hend).2 ⟨by omega, hc.end_lt⟩⟩
    · obtain ⟨x, hx, rfl⟩ := hall p howns.1
      obtain ⟨hline, hend⟩ := hexact.contains x hx d hd howns
      exact hexact.managed x hx m (by omega) (by omega) hm
  · rintro ⟨hfilled, hmanaged⟩
    have hend : ∀ x ∈ (parseImport lib body).1, x.line < x.endLine ∧
        At lib (linesOf body) x.endLine .directive := by
      intro x hx
      obtain ⟨hline, q, hq, hc⟩ := hclosed x hx
      obtain ⟨d, hd, howns⟩ := hfilled x.line hline.at
      obtain ⟨hlt, hdq⟩ := (hc.owns_iff hline.at hq hd).1 howns
      exact hc.end_of_directive hd hlt hdq
    have hrange : ∀ x ∈ (parseImport lib body).1,
        1 ≤ x.line ∧ x.line ≤ x.endLine ∧ x.endLine ≤ (linesOf body).length := fun x hx =>
      ⟨(hclosed x hx).1.at.pos, (hend x hx).1.le, (hend x hx).2.le⟩
    refine { range := hrange, order := hsorted, apart := ?_, begins := fun x hx => (hclosed x hx).1
             contains := fun x hx d hd howns => ?_, others := fun x hx n hle hge hn => ?_
             managed := fun x hx n hle hge hn => ?_, commented := fun blocks hsub path => ?_ }
    · refine hsorted.imp_of_mem fun {a b} ha hb hab n hn => ?_
      obtain ⟨-, q, -, hc⟩ := hclosed a ha
      have hnext := hc.next b.line (hclosed b hb).1.at
      have hlt := hc.end_lt
      omega
    · obtain ⟨hline, q, hq, hc⟩ := hclosed x hx
      obtain ⟨hlt, hdq⟩ := (hc.owns_iff hline.at hq hd).1 howns
      exact ⟨hlt.le, hc.end_ge d hd hdq⟩
    · obtain ⟨hline, q, hq, hc⟩ := hclosed x hx
      refine ⟨hline.at, hle, fun k hk hkn => ?_⟩
      rcases hc.next k hk with hk' | hk'
      · exact hk'
      · have := hc.end_lt
        omega
    · obtain ⟨hline, q, hq, hc⟩ := hclosed x hx
      have howns := (hc.owns_iff hline.at hq (hend x hx).2).2 ⟨(hend x hx).1, hc.end_lt⟩
      refine hmanaged x.line n x.endLine hn (hend x hx).2 howns ⟨?_, ?_⟩
      · refine lt_of_le_of_ne hle fun heq => ?_
        rw [← heq] at hn
        cases hn.eq hline.at
      · refine lt_of_le_of_ne hge fun heq => ?_
        rw [heq] at hn
        cases hn.eq (hend x hx).2
    · refine checkBlocks_ok fun b hb => hrange b (hsub b ?_)
      exact (List.perm_insertionSort _ blocks).subset hb

namespace Blocks01

/-- The functions of the libraries on ASCII. -/
def ascii : Library where
  lower := Char.toLower
  folds a b := a.toLower = b.toLower

/-- Two hosts. -/
def two : Bytes := text "Host a\n  User me\n\nHost b\n  Port 2222\n"

theorem blocks_exact_iff_two : Accepted ascii two ∧
    (Exact ascii (linesOf two) (parseImport ascii two).1 ↔ Filled ascii (linesOf two)) := by
  have haccepted : Accepted ascii two := by
    unfold Accepted
    decide
  exact ⟨haccepted, blocks_exact_iff ascii two haccepted⟩

/-- A host with the defaults only. -/
def bare : Bytes := text "Host a"

/-- Its block ends on the line 0. -/
theorem not_exact_bare : Accepted ascii bare ∧ ¬ Exact ascii (linesOf bare) (parseImport ascii bare).1 := by
  have hparse : parseImport ascii bare =
      ([{ line := 1, endLine := 0, hostAlias := text "a", hostName := text "a" }], []) := by
    decide
  refine ⟨congrArg Prod.snd hparse, fun hexact => ?_⟩
  rw [hparse] at hexact
  exact absurd (hexact.range _ List.mem_cons_self).2.1 (by decide)

end Blocks01

end Sshstate.Sshconfig
