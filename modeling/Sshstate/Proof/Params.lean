/-
  Signature parameters are read back from the text they are written as.

  The lemmas follow the reader: a quoted string with anything after it
  (`parseQuotedString_quoted`), the items of the inner list (`parseItems_quoted`), a
  parameter with the next one after it (`parseParams_texts`).  Whatever the reader
  accepts can be written again (`Written.of_parse`), so its text is a fixed point.
-/
import Sshstate.Httpsig.Sign
import Sshstate.Lib.Base64
import Sshstate.Proof.Httpsig

namespace Sshstate.Httpsig

variable {L : GoLib}

open Except (bind_eq_ok require_bind_eq_ok mapError_eq_ok require_eq_ok mapM_eq_ok)

/-- What is used of these functions to read a text back. -/
structure GoLib.Reads (L : GoLib) : Prop where
  trimSpace_nil : L.trimSpace [] = []
  trimSpace_ends : ∀ a s b, (0x21 ≤ a ∧ a ≤ 0x7e) → (0x21 ≤ b ∧ b ≤ 0x7e) →
    L.trimSpace (a :: s ++ [b]) = a :: s ++ [b]
  trimSpace_infix : ∀ s, L.trimSpace s <:+: s
  parseInt_range : ∀ s n, L.parseInt s = some n → -2 ^ 63 ≤ n ∧ n < 2 ^ 63
  parseInt_formatInt : ∀ n, -2 ^ 63 ≤ n ∧ n < 2 ^ 63 → L.parseInt (L.formatInt n) = some n
  formatInt_ne_nil : ∀ n, L.formatInt n ≠ []
  formatInt_digits : ∀ n, ∀ c ∈ L.formatInt n, c = 0x2d ∨ (0x30 ≤ c ∧ c ≤ 0x39)

/-! ## Quoted strings -/

/-- The text of a string between its quotes. -/
def escaped (s : Bytes) : Bytes :=
  s.flatMap fun c => if c = backslash ∨ c = dquote then [backslash, c] else [c]

/-- The text of a string. -/
def quoted (s : Bytes) : Bytes := dquote :: escaped s ++ [dquote]

theorem quoteString_eq_ok {s q : Bytes} :
    quoteString s = .ok q ↔ s.all printable = true ∧ q = quoted s := by
  rw [quoteString, require_bind_eq_ok, Except.ok.injEq, eq_comm (a := q)]
  rfl

theorem parseQuotedRest_escape {e : UInt8} (h : e = backslash ∨ e = dquote) (cs : Bytes) :
    parseQuotedRest (backslash :: e :: cs) = (parseQuotedRest cs).map fun p => (e :: p.1, p.2) := by
  have hne : ¬ (e ≠ backslash ∧ e ≠ dquote) := fun hh => h.elim hh.1 hh.2
  rw [parseQuotedRest, if_pos rfl, if_neg hne]
  cases parseQuotedRest cs <;> rfl

theorem parseQuotedRest_plain {c : UInt8} (hc : printable c = true) (hb : c ≠ backslash)
    (hq : c ≠ dquote) (cs : Bytes) :
    parseQuotedRest (c :: cs) = (parseQuotedRest cs).map fun p => (c :: p.1, p.2) := by
  cases cs with
  | nil => simp [parseQuotedRest, hb, hq, hc, Except.map]
  | cons e cs =>
    rw [parseQuotedRest, if_neg hb, if_neg hq, if_pos hc]
    cases parseQuotedRest (e :: cs) <;> rfl

theorem parseQuotedRest_dquote (rest : Bytes) : parseQuotedRest (dquote :: rest) = .ok ([], rest) := by
  cases rest with
  | nil => rfl
  | cons e cs => simp [parseQuotedRest, show dquote ≠ backslash by decide]

/-- A quoted string is read back, whatever follows it. -/
theorem parseQuotedString_quoted {s : Bytes} (h : s.all printable = true) (rest : Bytes) :
    parseQuotedString (quoted s ++ rest) = .ok (s, rest) := by
  have hrest : ∀ s : Bytes, s.all printable = true →
      parseQuotedRest (escaped s ++ dquote :: rest) = .ok (s, rest) := by
    intro s
    induction s with
    | nil => exact fun _ => parseQuotedRest_dquote rest
    | cons c s ih =>
      intro h
      rw [List.all_cons, Bool.and_eq_true] at h
      have ih := ih h.2
      by_cases hc : c = backslash ∨ c = dquote
      · have hcons : escaped (c :: s) ++ dquote :: rest =
            backslash :: c :: (escaped s ++ dquote :: rest) := by
          simp [escaped, hc]
        rw [hcons, parseQuotedRest_escape hc, ih]
        rfl
      · have hcons : escaped (c :: s) ++ dquote :: rest = c :: (escaped s ++ dquote :: rest) := by
          simp [escaped, hc]
        rw [not_or] at hc
        rw [hcons, parseQuotedRest_plain h.1 hc.1 hc.2, ih]
        rfl
  have hcons : quoted s ++ rest = dquote :: (escaped s ++ dquote :: rest) := by simp [quoted]
  rw [hcons, parseQuotedString, if_pos rfl, hrest s h]

/-- What is read from a quoted string can be written. -/
theorem printable_of_parseQuotedRest : ∀ {s : Bytes} {p : Bytes × Bytes},
    parseQuotedRest s = .ok p → p.1.all printable = true ∧ (∀ x ∈ p.1, x ∈ s) ∧ p.2 <:+ s
  | [], p, h => by cases h
  | [c], p, h => by
    simp only [parseQuotedRest] at h
    split_ifs at h
    cases h
    simp
  | c :: e :: cs, p, h => by
    simp only [parseQuotedRest] at h
    split_ifs at h with h1 h2 h3 h4
    · simp only [bind_eq_ok, Except.ok.injEq] at h
      obtain ⟨q, hq, rfl⟩ := h
      obtain ⟨hall, hmem, hsuf⟩ := printable_of_parseQuotedRest hq
      have he : printable e = true := by
        rcases not_and_or.1 h2 with he | he
        · rw [not_not.1 he]; decide
        · rw [not_not.1 he]; decide
      refine ⟨by simp [he, hall], ?_, hsuf.trans ⟨[c, e], rfl⟩⟩
      intro x hx
      rcases List.mem_cons.1 hx with rfl | hx
      · simp
      · exact List.mem_cons_of_mem _ (List.mem_cons_of_mem _ (hmem x hx))
    · cases h
      exact ⟨rfl, by simp, ⟨[c], rfl⟩⟩
    · simp only [bind_eq_ok, Except.ok.injEq] at h
      obtain ⟨q, hq, rfl⟩ := h
      obtain ⟨hall, hmem, hsuf⟩ := printable_of_parseQuotedRest hq
      refine ⟨by simp [h4, hall], ?_, hsuf.trans ⟨[c], rfl⟩⟩
      intro x hx
      rcases List.mem_cons.1 hx with rfl | hx
      · simp
      · exact List.mem_cons_of_mem _ (hmem x hx)

theorem printable_of_parseQuotedString {s : Bytes} {p : Bytes × Bytes}
    (h : parseQuotedString s = .ok p) :
    p.1.all printable = true ∧ (∀ x ∈ p.1, x ∈ s) ∧ p.2 <:+ s := by
  cases s with
  | nil => cases h
  | cons c cs =>
    simp only [parseQuotedString] at h
    split_ifs at h
    obtain ⟨hall, hmem, hsuf⟩ := printable_of_parseQuotedRest h
    exact ⟨hall, fun x hx => List.mem_cons_of_mem _ (hmem x hx), hsuf.trans ⟨[c], rfl⟩⟩

/-! ## The inner list -/

theorem cut_append {c : UInt8} {s : Bytes} (h : c ∉ s) (rest : Bytes) :
    cut c (s ++ c :: rest) = some (s, rest) := by
  induction s with
  | nil => simp [cut]
  | cons x s ih =>
    rw [List.mem_cons, not_or] at h
    rw [List.cons_append, cut, if_neg (Ne.symm h.1), ih h.2]
    rfl

theorem notMem_of_cut {c : UInt8} : ∀ {s : Bytes} {p : Bytes × Bytes}, cut c s = some p → c ∉ p.1
  | [], p, h => by cases h
  | x :: xs, p, h => by
    simp only [cut] at h
    split_ifs at h with hx
    · cases h; simp
    · obtain ⟨q, hq, rfl⟩ := Option.map_eq_some_iff.1 h
      rw [List.mem_cons, not_or]
      exact ⟨Ne.symm hx, notMem_of_cut hq⟩

/-- The items of the inner list are read back. -/
theorem parseItems_quoted : ∀ {cs : List Bytes} {fuel : ℕ}, (∀ c ∈ cs, c.all printable = true) →
    ([space].intercalate (cs.map quoted)).length ≤ fuel →
    parseItems fuel ([space].intercalate (cs.map quoted)) = .ok cs
  | [], fuel, _, _ => by cases fuel <;> rfl
  | [c], 0, _, hf => by simp [quoted] at hf
  | [c], fuel + 1, h, hf => by
    have hread := parseQuotedString_quoted (h c List.mem_cons_self) []
    rw [List.append_nil] at hread
    have hnil : parseItems fuel [] = .ok [] := by cases fuel <;> rfl
    have hne : quoted c ≠ [] := by simp [quoted]
    rw [List.map_singleton, List.intercalate_singleton, parseItems, if_neg hne, hread]
    simp [hnil, Except.mapError, Except.require]
  | c :: d :: cs, 0, _, hf => by simp [quoted] at hf
  | c :: d :: cs, fuel + 1, h, hf => by
    have hcons : [space].intercalate ((c :: d :: cs).map quoted) =
        quoted c ++ (space :: [space].intercalate ((d :: cs).map quoted)) := by
      simp [List.intercalate_cons_cons]
    have hdrop : (space :: [space].intercalate ((d :: cs).map quoted)).dropWhile (· == space) =
        [space].intercalate ((d :: cs).map quoted) := by
      cases cs <;> simp [quoted, show (dquote == space) = false by decide]
    have hne : quoted c ++ (space :: [space].intercalate ((d :: cs).map quoted)) ≠ [] := by
      simp [quoted]
    have hlen : ([space].intercalate ((d :: cs).map quoted)).length ≤ fuel := by
      rw [hcons] at hf
      simp only [List.length_append, List.length_cons] at hf
      omega
    have ih := parseItems_quoted (fun x hx => h x (List.mem_cons_of_mem c hx)) hlen
    have hread := parseQuotedString_quoted (h c List.mem_cons_self)
      (space :: [space].intercalate ((d :: cs).map quoted))
    rw [hcons, parseItems, if_neg hne, hread]
    simp only [Except.mapError, Except.bind_ok', hdrop, ih, Except.require]
    rw [if_pos (Or.inr fun heq => ?_)]
    · rfl
    · exact absurd (congrArg List.length heq) (by simp)

/-- What is read from the inner list can be written. -/
theorem printable_of_parseItems : ∀ {fuel : ℕ} {s : Bytes} {cs : List Bytes},
    parseItems fuel s = .ok cs → ∀ c ∈ cs, c.all printable = true ∧ ∀ x ∈ c, x ∈ s
  | 0, s, cs, h, c, hc => by cases h; exact absurd hc List.not_mem_nil
  | fuel + 1, s, cs, h, c, hc => by
    simp only [parseItems] at h
    split_ifs at h with hnil
    · cases h; exact absurd hc List.not_mem_nil
    · simp only [bind_eq_ok, mapError_eq_ok, require_eq_ok, exists_const, Except.ok.injEq] at h
      obtain ⟨⟨item, remainder⟩, hq, -, items, hitems, rfl⟩ := h
      obtain ⟨hall, hmem, hsuf⟩ := printable_of_parseQuotedString hq
      rcases List.mem_cons.1 hc with rfl | hc
      · exact ⟨hall, hmem⟩
      · obtain ⟨hp, hx⟩ := printable_of_parseItems hitems c hc
        refine ⟨hp, fun x hxc => hsuf.subset ?_⟩
        exact (List.dropWhile_suffix _).subset (hx x hxc)

/-! ## Parameters -/

/-- Strings are printable and integers fit into 64 bits. -/
def ParamValue.Written : ParamValue → Prop
  | .string s => s.all printable = true
  | .int64 n => -2 ^ 63 ≤ n ∧ n < 2 ^ 63

/-- The text of a value. -/
def ParamValue.text (L : GoLib) : ParamValue → Bytes
  | .string s => quoted s
  | .int64 n => L.formatInt n

theorem checkParamName_ok {name : Bytes} {u : Unit} (h : checkParamName name = .ok u) :
    name.all nameChar = true := by
  cases name with
  | nil => cases h
  | cons c cs =>
    simp only [checkParamName, require_bind_eq_ok] at h
    cases hfind : (c :: cs).find? fun c => !nameChar c with
    | some d => rw [hfind] at h; exact absurd h.2 (by simp)
    | none =>
      rw [List.find?_eq_none] at hfind
      rw [List.all_eq_true]
      intro d hd
      simpa using hfind d hd

theorem equals_notMem_name {name : Bytes} (h : name.all nameChar = true) : equals ∉ name := by
  intro hmem
  have := List.all_eq_true.1 h _ hmem
  revert this; decide

theorem Param.text_eq_ok {p : Param} {t : Bytes} : p.text L = .ok t ↔
    checkParamName p.name = .ok () ∧ (∀ s, p.value = .string s → s.all printable = true) ∧
      t = semicolon :: p.name ++ equals :: p.value.text L := by
  obtain ⟨name, value⟩ := p
  cases value with
  | string s =>
    simp only [Param.text, bind_eq_ok, mapError_eq_ok, quoteString_eq_ok, Except.ok.injEq,
      ParamValue.string.injEq, forall_eq', ParamValue.text]
    constructor
    · rintro ⟨⟨⟩, hname, v, ⟨hs, rfl⟩, rfl⟩
      exact ⟨hname, hs, rfl⟩
    · rintro ⟨hname, hs, rfl⟩
      exact ⟨(), hname, quoted s, ⟨hs, rfl⟩, rfl⟩
  | int64 n =>
    simp only [Param.text, bind_eq_ok, Except.ok.injEq, reduceCtorEq, false_imp_iff, implies_true,
      true_and, ParamValue.text, exists_eq_left']
    constructor
    · rintro ⟨⟨⟩, hname, rfl⟩
      exact ⟨hname, rfl⟩
    · rintro ⟨hname, rfl⟩
      exact ⟨(), hname, rfl⟩

/-- A value is read back when the next parameter follows it, or nothing. -/
theorem parseValue_text (hL : L.Reads) {v : ParamValue} (hv : v.Written) (name : Bytes) {rest : Bytes}
    (hrest : ∀ c ∈ rest.head?, c = semicolon) :
    parseValue L name (v.text L ++ rest) = .ok (v, rest) := by
  cases v with
  | string s =>
    have hread := parseQuotedString_quoted hv rest
    have hcons : quoted s ++ rest = dquote :: (escaped s ++ dquote :: rest) := by simp [quoted]
    rw [hcons] at hread
    rw [ParamValue.text, hcons, parseValue, if_pos rfl, hread]
    rfl
  | int64 n =>
    obtain ⟨c, cs, hcons⟩ := List.exists_cons_of_ne_nil (hL.formatInt_ne_nil n)
    have hdigit : ∀ c, (c = 0x2d ∨ (0x30 ≤ c ∧ c ≤ 0x39)) → (c != semicolon) = true ∧ c ≠ dquote := by
      decide +kernel
    have hplain : ∀ c ∈ L.formatInt n, (c != semicolon) = true := fun c hc =>
      (hdigit c (hL.formatInt_digits n c hc)).1
    have hfirst : c ≠ dquote :=
      (hdigit c (hL.formatInt_digits n c (hcons ▸ List.mem_cons_self))).2
    have hsplit : (L.formatInt n ++ rest).takeWhile (· != semicolon) = L.formatInt n ∧
        (L.formatInt n ++ rest).dropWhile (· != semicolon) = rest := by
      rw [List.takeWhile_append_of_pos hplain, List.dropWhile_append_of_pos hplain]
      cases rest with
      | nil => simp
      | cons d rest => simp [hrest d rfl]
    have hne : L.formatInt n ++ rest = c :: (cs ++ rest) := by rw [hcons]; rfl
    rw [ParamValue.text, hne, parseValue, if_neg hfirst, ← hne, hsplit.1, hsplit.2]
    simp [hL.parseInt_formatInt n hv, Except.require, hL.formatInt_ne_nil]

/-- Parameters are read back. -/
theorem parseParams_texts (hL : L.Reads) {ps : List Param} {ts : List Bytes} {fuel : ℕ}
    (h : List.Forall₂ (fun p t => p.text L = .ok t) ps ts) (hv : ∀ p ∈ ps, p.value.Written)
    (hf : ts.flatten.length ≤ fuel) : parseParams L fuel ts.flatten = .ok ps := by
  induction h generalizing fuel with
  | nil => cases fuel <;> rfl
  | @cons p t ps ts ht hts ih =>
    obtain ⟨hname, -, rfl⟩ := Param.text_eq_ok.1 ht
    have hcons : ((semicolon :: p.name ++ equals :: p.value.text L) :: ts).flatten =
        semicolon :: (p.name ++ equals :: (p.value.text L ++ ts.flatten)) := by simp
    have hhead : ∀ c ∈ ts.flatten.head?, c = semicolon := by
      cases hts with
      | nil => simp
      | cons ht' _ =>
        obtain ⟨-, -, rfl⟩ := Param.text_eq_ok.1 ht'
        simp [eq_comm]
    rw [hcons] at hf ⊢
    cases fuel with
    | zero => simp at hf
    | succ fuel =>
      simp only [List.length_cons, List.length_append] at hf
      have hlen : ts.flatten.length ≤ fuel := by omega
      have hrest := ih (fun q hq => hv q (List.mem_cons_of_mem p hq)) hlen
      have hcut := cut_append (equals_notMem_name (checkParamName_ok hname))
        (p.value.text L ++ ts.flatten)
      have hread := parseValue_text hL (hv p List.mem_cons_self) p.name hhead
      simp [parseParams, Except.require, hcut, hname, hread, hrest]

/-- What is read as a value can be written. -/
theorem written_of_parseValue (hL : L.Reads) {name rest : Bytes} {p : ParamValue × Bytes}
    (h : parseValue L name rest = .ok p) : p.1.Written := by
  cases rest with
  | nil => cases h
  | cons c cs =>
    simp only [parseValue] at h
    split_ifs at h
    · simp only [bind_eq_ok, mapError_eq_ok, Except.ok.injEq] at h
      obtain ⟨q, hq, rfl⟩ := h
      exact (printable_of_parseQuotedString hq).1
    · split at h
      · cases h
      · rename_i n hn
        simp only [bind_eq_ok, require_eq_ok, exists_const, Except.ok.injEq] at h
        obtain ⟨-, -, rfl⟩ := h
        exact hL.parseInt_range _ n hn

theorem written_of_parseParams (hL : L.Reads) : ∀ {fuel : ℕ} {s : Bytes} {ps : List Param},
    parseParams L fuel s = .ok ps → ∀ p ∈ ps, checkParamName p.name = .ok () ∧ p.value.Written
  | 0, s, ps, h, p, hp => by cases h; exact absurd hp List.not_mem_nil
  | fuel + 1, [], ps, h, p, hp => by cases h; exact absurd hp List.not_mem_nil
  | fuel + 1, c :: cs, ps, h, p, hp => by
    simp only [parseParams, require_bind_eq_ok] at h
    obtain ⟨-, h⟩ := h
    cases hcut : cut equals cs with
    | none => rw [hcut] at h; cases h
    | some q =>
      obtain ⟨name, rest⟩ := q
      simp only [hcut, bind_eq_ok, Except.ok.injEq] at h
      obtain ⟨⟨⟩, hname, ⟨value, rest'⟩, hvalue, params, hparams, rfl⟩ := h
      rcases List.mem_cons.1 hp with rfl | hp
      · exact ⟨hname, written_of_parseValue hL hvalue⟩
      · exact written_of_parseParams hL hparams p hp

/-! ## Signature parameters -/

/-- Parameters that are written and read back: the inner list ends at the first closing
    parenthesis, and integers are those of 64 bits. -/
structure SignatureParams.Written (p : SignatureParams) : Prop where
  components : ∀ c ∈ p.components, rightParen ∉ c
  params : ∀ q ∈ p.params, ∀ n, q.value = .int64 n → -2 ^ 63 ≤ n ∧ n < 2 ^ 63

theorem SignatureParams.value_eq_ok {p : SignatureParams} {t : Bytes} : p.value L = .ok t ↔
    (∀ c ∈ p.components, c.all printable = true) ∧
    ∃ ts, List.Forall₂ (fun q u => q.text L = .ok u) p.params ts ∧
      t = leftParen :: [space].intercalate (p.components.map quoted) ++ rightParen :: ts.flatten := by
  have hitems : ∀ {cs items : List Bytes},
      List.Forall₂ (fun c q => (quoteString c).mapError (Error.wrap "component identifier: %w" []) =
        .ok q) cs items ↔ (∀ c ∈ cs, c.all printable = true) ∧ items = cs.map quoted := by
    intro cs items
    simp only [mapError_eq_ok, quoteString_eq_ok]
    induction cs generalizing items with
    | nil => simp
    | cons c cs ih =>
      simp only [List.forall₂_cons_left_iff, ih, List.forall_mem_cons, List.map_cons]
      constructor
      · rintro ⟨_, _, ⟨hc, rfl⟩, ⟨hcs, rfl⟩, rfl⟩; exact ⟨⟨hc, hcs⟩, rfl⟩
      · rintro ⟨⟨hc, hcs⟩, rfl⟩; exact ⟨_, _, ⟨hc, rfl⟩, ⟨hcs, rfl⟩, rfl⟩
  simp only [SignatureParams.value, bind_eq_ok, mapM_eq_ok, hitems, Except.ok.injEq]
  constructor
  · rintro ⟨_, ⟨hc, rfl⟩, ts, hts, rfl⟩; exact ⟨hc, ts, hts, rfl⟩
  · rintro ⟨hc, ts, hts, rfl⟩; exact ⟨_, ⟨hc, rfl⟩, ts, hts, rfl⟩

theorem rightParen_notMem_intercalate {cs : List Bytes} (h : ∀ c ∈ cs, rightParen ∉ c) :
    rightParen ∉ [space].intercalate (cs.map quoted) := by
  have hquoted : ∀ c, rightParen ∉ c → rightParen ∉ quoted c := by
    intro c hc hmem
    simp only [quoted, escaped, List.mem_append, List.mem_cons, List.mem_flatMap, List.not_mem_nil,
      or_false] at hmem
    rcases hmem with (heq | ⟨x, hx, hmem⟩) | heq
    · exact absurd heq (by decide)
    · split_ifs at hmem with hxe
      · rcases List.mem_cons.1 hmem with heq | hmem
        · exact absurd heq (by decide)
        · exact hc (List.mem_singleton.1 hmem ▸ hx)
      · exact hc (List.mem_singleton.1 hmem ▸ hx)
    · exact absurd heq (by decide)
  induction cs with
  | nil => simp
  | cons c cs ih =>
    have hc := hquoted c (h c List.mem_cons_self)
    have hcs := ih fun x hx => h x (List.mem_cons_of_mem c hx)
    cases cs with
    | nil => simpa using hc
    | cons d cs =>
      rw [List.map_cons, List.map_cons, List.intercalate_cons_cons]
      simp only [List.mem_append, List.mem_singleton, not_or]
      exact ⟨⟨hc, by decide⟩, hcs⟩

theorem trimSpace_intercalate (hL : L.Reads) (cs : List Bytes) :
    L.trimSpace ([space].intercalate (cs.map quoted)) = [space].intercalate (cs.map quoted) := by
  have hends : ∀ cs : List Bytes, cs ≠ [] → ∃ s, [space].intercalate (cs.map quoted) =
      dquote :: s ++ [dquote] := by
    intro cs
    induction cs with
    | nil => exact fun h => absurd rfl h
    | cons c cs ih =>
      intro _
      cases cs with
      | nil => exact ⟨escaped c, by simp [quoted]⟩
      | cons d cs =>
        obtain ⟨s, hs⟩ := ih (by simp)
        refine ⟨escaped c ++ [dquote, space, dquote] ++ s, ?_⟩
        rw [List.map_cons, List.map_cons, List.intercalate_cons_cons, ← List.map_cons, hs]
        simp [quoted]
  rcases List.eq_nil_or_concat' cs with rfl | ⟨init, last, rfl⟩
  · exact hL.trimSpace_nil
  · obtain ⟨s, hs⟩ := hends (init ++ [last]) (by simp)
    rw [hs, hL.trimSpace_ends dquote s dquote (by decide) (by decide)]

/-- The text of parameters is read back. -/
theorem parse_of_value (hL : L.Reads) {p : SignatureParams} (hp : p.Written) {t : Bytes}
    (h : p.value L = .ok t) : parseSignatureParams L t = .ok p := by
  obtain ⟨hc, ts, hts, rfl⟩ := SignatureParams.value_eq_ok.1 h
  have hcut := cut_append (rightParen_notMem_intercalate hp.components) ts.flatten
  have hitems := parseItems_quoted hc le_rfl
  have hwritten : ∀ q ∈ p.params, q.value.Written := by
    intro q hq
    obtain ⟨u, hu⟩ := Except.exists_mapM_ok.1 ⟨ts, mapM_eq_ok.2 hts⟩ q hq
    obtain ⟨-, hstring, -⟩ := Param.text_eq_ok.1 hu
    cases hv : q.value with
    | string s => exact hstring s hv
    | int64 n => exact hp.params q hq n hv
  have hparams := parseParams_texts hL hts hwritten le_rfl
  rw [List.cons_append, parseSignatureParams, if_pos rfl, hcut]
  simp only [trimSpace_intercalate hL, hitems, hparams, Except.bind_ok']

/-- What is read can be written, and is read back from its text. -/
theorem value_of_parse (hL : L.Reads) {s : Bytes} {p : SignatureParams}
    (h : parseSignatureParams L s = .ok p) : p.Written ∧ ∃ t, p.value L = .ok t := by
  cases s with
  | nil => cases h
  | cons c cs =>
    simp only [parseSignatureParams] at h
    split_ifs at h
    cases hcut : cut rightParen cs with
    | none => rw [hcut] at h; cases h
    | some q =>
      obtain ⟨list, rest⟩ := q
      simp only [hcut, bind_eq_ok, Except.ok.injEq] at h
      obtain ⟨components, hitems, params, hparams, rfl⟩ := h
      have hlist := notMem_of_cut hcut
      have hpr := printable_of_parseItems hitems
      have hw := written_of_parseParams hL hparams
      refine ⟨⟨fun c hc hmem => hlist ?_, fun q hq n hn => ?_⟩, ?_⟩
      · exact (hL.trimSpace_infix list).subset ((hpr c hc).2 _ hmem)
      · have := (hw q hq).2
        rw [hn] at this
        exact this
      · have htexts : ∀ q ∈ params, ∃ u, q.text L = .ok u := fun q hq =>
          ⟨_, Param.text_eq_ok.2 ⟨(hw q hq).1, fun s hs => by
            have := (hw q hq).2
            rw [hs] at this
            exact this, rfl⟩⟩
        obtain ⟨ts, hts⟩ := Except.exists_mapM_ok.2 htexts
        exact ⟨_, SignatureParams.value_eq_ok.2 ⟨fun c hc => (hpr c hc).1, ts, mapM_eq_ok.1 hts, rfl⟩⟩

/-- **Main result.** The text of the parameters that were read is written without error and
    read as the same parameters; and so is the text of any parameters that can be written. -/
theorem params_canonical (hL : L.Reads) :
    (∀ s p, parseSignatureParams L s = .ok p →
      ∃ t, p.value L = .ok t ∧ parseSignatureParams L t = .ok p) ∧
    ∀ p t, p.value L = .ok t → p.Written → parseSignatureParams L t = .ok p := by
  refine ⟨fun s p h => ?_, fun p t h hp => parse_of_value hL hp h⟩
  obtain ⟨hp, t, ht⟩ := value_of_parse hL h
  exact ⟨t, ht, parse_of_value hL hp ht⟩

/-! ## An instance -/

namespace Params01

def toBytes (text : List Char) : Bytes := text.map fun c => c.toNat.toUInt8

def toChars (s : Bytes) : List Char := s.map fun c => Char.ofNat c.toNat

def formatInt (n : ℤ) : Bytes :=
  if n < 0 then 0x2d :: toBytes (Nat.toDigits 10 n.natAbs) else toBytes (Nat.toDigits 10 n.natAbs)

def parseInt (s : Bytes) : Option ℤ :=
  let n : ℤ := if s.head? = some 0x2d then -(Nat.ofDigitChars 10 (toChars s.tail) 0 : ℤ)
    else Nat.ofDigitChars 10 (toChars s) 0
  if -2 ^ 63 ≤ n ∧ n < 2 ^ 63 then some n else none

def decode (s : Bytes) : Option Bytes := Base64.decode (toChars s)

/-- The sample library with signed integers and base64. -/
def lib : GoLib :=
  { goSample with
    parseInt := parseInt
    formatInt := formatInt
    encodeStd := fun b => toBytes (Base64.encode b)
    decodeStd := fun s => match decode s with
      | some b => .ok b
      | none => .error (.new "illegal base64 data")
    encodeRawURL := fun b => toBytes (Base64.encode b)
    decodeRawURL := decode }

theorem toChars_toBytes {text : List Char} (h : ∀ c ∈ text, c.toNat < 128) :
    toChars (toBytes text) = text := by
  have hbyte : ∀ n, n < 128 → n.toUInt8.toNat = n := by decide
  rw [toChars, toBytes, List.map_map]
  refine (List.map_congr_left fun c hc => ?_).trans (List.map_id text)
  simp only [Function.comp_apply, hbyte _ (h c hc), Char.ofNat_toNat, id_eq]

theorem digit_range {n : ℕ} {c : Char} (h : c ∈ Nat.toDigits 10 n) : 48 ≤ c.toNat ∧ c.toNat ≤ 57 := by
  have hd := Nat.isDigit_of_mem_toDigits (by decide) (by decide) h
  simp only [Char.isDigit, Bool.and_eq_true, decide_eq_true_eq] at hd
  exact hd

theorem digit_toBytes {n : ℕ} {b : UInt8} (h : b ∈ toBytes (Nat.toDigits 10 n)) :
    0x30 ≤ b ∧ b ≤ 0x39 := by
  have hrange : ∀ n, 48 ≤ n → n ≤ 57 → 0x30 ≤ n.toUInt8 ∧ n.toUInt8 ≤ 0x39 := by decide
  obtain ⟨c, hc, rfl⟩ := List.mem_map.1 h
  obtain ⟨hlo, hhi⟩ := digit_range hc
  exact hrange _ hlo hhi

theorem ofDigitChars_toBytes (n : ℕ) :
    Nat.ofDigitChars 10 (toChars (toBytes (Nat.toDigits 10 n))) 0 = n := by
  rw [toChars_toBytes fun c hc => (digit_range hc).2.trans_lt (by decide),
    Nat.ofDigitChars_ten_toDigits]

theorem parseInt_formatInt (n : ℤ) (h : -2 ^ 63 ≤ n ∧ n < 2 ^ 63) :
    parseInt (formatInt n) = some n := by
  by_cases hn : n < 0
  · have hval : (-(n.natAbs : ℤ)) = n := by omega
    rw [formatInt, if_pos hn, parseInt]
    simp only [List.head?_cons, List.tail_cons, if_true, ofDigitChars_toBytes, hval, if_pos h]
  · have hhead : (toBytes (Nat.toDigits 10 n.natAbs)).head? ≠ some 0x2d := by
      intro hhead
      exact absurd (digit_toBytes (List.mem_of_mem_head? hhead)) (by decide)
    have hval : (n.natAbs : ℤ) = n := by omega
    rw [formatInt, if_neg hn, parseInt]
    simp only [if_neg hhead, ofDigitChars_toBytes, hval, if_pos h]

theorem formatInt_digits (n : ℤ) : ∀ c ∈ formatInt n, c = 0x2d ∨ (0x30 ≤ c ∧ c ≤ 0x39) := by
  intro c hc
  rw [formatInt] at hc
  split_ifs at hc
  · rcases List.mem_cons.1 hc with rfl | hc
    · exact Or.inl rfl
    · exact Or.inr (digit_toBytes hc)
  · exact Or.inr (digit_toBytes hc)

theorem encode_range {b : Bytes} {c : Char} (h : c ∈ Base64.encode b) :
    c.toNat < 128 ∧ 0x21 ≤ c.toNat.toUInt8 ∧ c.toNat.toUInt8 ≤ 0x7e ∧ c.toNat.toUInt8 ≠ colon := by
  have hdigit : ∀ n < 64, (Base64.digit n).toNat < 128 ∧ 0x21 ≤ (Base64.digit n).toNat.toUInt8 ∧
      (Base64.digit n).toNat.toUInt8 ≤ 0x7e ∧ (Base64.digit n).toNat.toUInt8 ≠ colon := by decide
  obtain ⟨n, hn, rfl⟩ := Base64.mem_encode h
  exact hdigit n hn

theorem decode_encode (b : Bytes) : decode (toBytes (Base64.encode b)) = some b := by
  rw [decode, toChars_toBytes fun c hc => (encode_range hc).1, Base64.decode_encode]

theorem trimSpace_ends (a : UInt8) (s : Bytes) (b : UInt8) (ha : 0x21 ≤ a ∧ a ≤ 0x7e)
    (hb : 0x21 ≤ b ∧ b ≤ 0x7e) : Sample.trimSpace (a :: s ++ [b]) = a :: s ++ [b] := by
  have hfront : (a :: s ++ [b]).dropWhile Sample.isSpace = a :: s ++ [b] := by
    simp [Sample.isSpace_graphic a ha]
  have hback : (a :: s ++ [b]).reverse.dropWhile Sample.isSpace = (a :: s ++ [b]).reverse := by
    simp [Sample.isSpace_graphic b hb]
  rw [Sample.trimSpace, hfront, hback, List.reverse_reverse]

theorem lib_reads : lib.Reads where
  trimSpace_nil := rfl
  trimSpace_ends := trimSpace_ends
  trimSpace_infix := Sample.trimSpace_infix
  parseInt_range := fun s n h => by
    simp only [lib, parseInt, Option.ite_none_right_eq_some, Option.some.injEq] at h
    exact h.2 ▸ h.1
  parseInt_formatInt := parseInt_formatInt
  formatInt_ne_nil := fun n => by
    simp only [lib, formatInt, toBytes]
    split_ifs <;> simp
  formatInt_digits := formatInt_digits

theorem lib_lawful : lib.Lawful :=
  { goSample_lawful with
    encodeStd_colon := fun b h => by
      obtain ⟨x, hx, heq⟩ := List.mem_map.1 h
      exact (encode_range hx).2.2.2 heq }

/-- Parameters with an escaped component, a negative number and a parenthesis in a string. -/
def params : SignatureParams :=
  ⟨[ascii "a \"b", ascii "@path"], [⟨ascii "x", .int64 (-5)⟩, ⟨ascii "y", .string (ascii "(;)")⟩]⟩

def text : Bytes := ascii "(\"a \\\"b\" \"@path\");x=-5;y=\"(;)\""

/-- They are written and read back. -/
theorem params_canonical_escaped : params.value lib = .ok text ∧
    parseSignatureParams lib text = .ok params := by
  have hvalue : params.value lib = .ok text := by decide
  have hwritten : params.Written := by
    refine ⟨by decide, fun q hq n hn => ?_⟩
    rcases List.mem_cons.1 hq with rfl | hq
    · cases hn; decide
    · rw [List.mem_singleton.1 hq] at hn; cases hn
  exact ⟨hvalue, (params_canonical lib_reads).2 params text hvalue hwritten⟩

end Params01

end Sshstate.Httpsig
