/-
  JSON texts as a decoder reads them: with white space, escapes and all numbers.

  `readValue` reads the first value of a text and returns what follows it.  The strings
  and the names of members come without their escapes; half a surrogate pair is replaced.
  What follows a value is a proper suffix of the text (`readValue_follows`).
-/
import Sshstate.Lib.Json

namespace Json

def isSpace (c : Char) : Bool := c = ' ' ∨ c = '\t' ∨ c = '\r' ∨ c = '\n'

def skipSpace (cs : List Char) : List Char := cs.dropWhile isSpace

/-! ## Numbers -/

/-- One digit or more. -/
def readDigits (cs : List Char) : Option (List Char × List Char) :=
  if cs.takeWhile Char.isDigit = [] then none
  else some (cs.takeWhile Char.isDigit, cs.dropWhile Char.isDigit)

/-- No number but zero begins with a zero. -/
def readInt : List Char → Option (List Char × List Char)
  | '0' :: cs => some (['0'], cs)
  | cs => readDigits cs

def readFraction : List Char → Option (List Char × List Char)
  | '.' :: cs => (readDigits cs).map fun p => ('.' :: p.1, p.2)
  | cs => some ([], cs)

def readSign (signs : List Char) : List Char → List Char × List Char
  | [] => ([], [])
  | c :: cs => if signs.contains c then ([c], cs) else ([], c :: cs)

def readExponent : List Char → Option (List Char × List Char)
  | [] => some ([], [])
  | c :: cs =>
    if c = 'e' ∨ c = 'E' then
      let sign := readSign ['+', '-'] cs
      (readDigits sign.2).map fun p => (c :: sign.1 ++ p.1, p.2)
    else some ([], c :: cs)

def readNumber (cs : List Char) : Option (List Char × List Char) := do
  let sign := readSign ['-'] cs
  let int ← readInt sign.2
  let fraction ← readFraction int.2
  let exponent ← readExponent fraction.2
  some (sign.1 ++ int.1 ++ fraction.1 ++ exponent.1, exponent.2)

/-! ## Strings -/

/-- A part of a string: a character, or a code unit that is written as `\uXXXX`. -/
inductive Piece where
  | char (c : Char)
  | unit (n : ℕ)

def hexValue (c : Char) : Option ℕ :=
  if '0' ≤ c ∧ c ≤ '9' then some (c.toNat - '0'.toNat)
  else if 'a' ≤ c ∧ c ≤ 'f' then some (c.toNat - 'a'.toNat + 10)
  else if 'A' ≤ c ∧ c ≤ 'F' then some (c.toNat - 'A'.toNat + 10)
  else none

def hex4 (a b c d : Char) : Option ℕ := do
  some (((← hexValue a) * 16 + (← hexValue b)) * 256 + (← hexValue c) * 16 + (← hexValue d))

/-- What stands for a character after a backslash. -/
def unescape (c : Char) : Option Char :=
  if c = '"' ∨ c = '\\' ∨ c = '/' then some c
  else if c = 'b' then some '\x08'
  else if c = 'f' then some '\x0c'
  else if c = 'n' then some '\n'
  else if c = 'r' then some '\r'
  else if c = 't' then some '\t'
  else none

/-- The rest of a string after its first quote. -/
def readPieces : List Char → Option (List Piece × List Char)
  | [] => none
  | c :: cs =>
    if c = '"' then some ([], cs)
    else if c = '\\' then
      match cs with
      | [] => none
      | e :: cs =>
        if e = 'u' then
          match cs with
          | w :: x :: y :: z :: cs => do
            let n ← hex4 w x y z
            let p ← readPieces cs
            some (.unit n :: p.1, p.2)
          | _ => none
        else do
          let e' ← unescape e
          let p ← readPieces cs
          some (.char e' :: p.1, p.2)
    else if c.toNat < 32 then none
    else do
      let p ← readPieces cs
      some (.char c :: p.1, p.2)

def isHigh (n : ℕ) : Bool := 0xd800 ≤ n ∧ n < 0xdc00

def isLow (n : ℕ) : Bool := 0xdc00 ≤ n ∧ n < 0xe000

/-- `Char.ofNat`, with the replacement character for half a pair. -/
def unitChar (n : ℕ) : Char := if isHigh n || isLow n then '\ufffd' else Char.ofNat n

def joinPieces : List Piece → List Char
  | [] => []
  | .char c :: rest => c :: joinPieces rest
  | .unit hi :: .unit lo :: rest =>
    if isHigh hi && isLow lo then
      Char.ofNat (0x10000 + (hi - 0xd800) * 0x400 + (lo - 0xdc00)) :: joinPieces rest
    else unitChar hi :: joinPieces (.unit lo :: rest)
  | .unit n :: rest => unitChar n :: joinPieces rest

def readString (cs : List Char) : Option (List Char × List Char) :=
  (readPieces cs).map fun p => (joinPieces p.1, p.2)

/-! ## Values -/

mutual

/-- The first value of a text, and what follows it. -/
def readValue : ℕ → List Char → Option (Value × List Char)
  | 0, _ => none
  | n + 1, cs =>
    match skipSpace cs with
    | [] => none
    | c :: cs =>
      if c = '"' then (readString cs).map fun p => (.str p.1, p.2)
      else if c = '[' then
        match skipSpace cs with
        | ']' :: rest => some (.arr .nil, rest)
        | cs => (readItems n cs).map fun p => (.arr p.1, p.2)
      else if c = '{' then
        match skipSpace cs with
        | '}' :: rest => some (.obj .nil, rest)
        | cs => (readMembers n cs).map fun p => (.obj p.1, p.2)
      else if c = 't' then (readWord "rue".toList cs).map fun rest => (.bool true, rest)
      else if c = 'f' then (readWord "alse".toList cs).map fun rest => (.bool false, rest)
      else if c = 'n' then (readWord "ull".toList cs).map fun rest => (.null, rest)
      else (readNumber (c :: cs)).map fun p => (.num p.1, p.2)

/-- The values of an array up to its closing bracket. -/
def readItems : ℕ → List Char → Option (Items × List Char)
  | 0, _ => none
  | n + 1, cs =>
    (readValue n cs).bind fun p =>
      match skipSpace p.2 with
      | ',' :: rest => (readItems n rest).map fun q => (.cons p.1 q.1, q.2)
      | ']' :: rest => some (.cons p.1 .nil, rest)
      | _ => none

/-- The members of an object up to its closing brace. -/
def readMembers : ℕ → List Char → Option (Members × List Char)
  | 0, _ => none
  | n + 1, cs =>
    match skipSpace cs with
    | '"' :: cs =>
      (readString cs).bind fun name =>
        match skipSpace name.2 with
        | ':' :: cs =>
          (readValue n cs).bind fun p =>
            match skipSpace p.2 with
            | ',' :: rest =>
              (readMembers n rest).map fun q => (.cons (String.ofList name.1) p.1 q.1, q.2)
            | '}' :: rest => some (.cons (String.ofList name.1) p.1 .nil, rest)
            | _ => none
        | _ => none
    | _ => none

end

/-- The first value of a text, and what follows it. -/
def read (cs : List Char) : Option (Value × List Char) := readValue (2 * cs.length + 1) cs

example : read " \x7b\"\\u0061\" : [ -1.5e+2 , true ]\x7d x".toList =
    some (.obj (.cons "a" (.arr (.cons (.num "-1.5e+2".toList) (.cons (.bool true) .nil))) .nil),
      " x".toList) := by decide +kernel

/-! ## What follows a value -/

/-- A proper suffix. -/
def Follows (rest cs : List Char) : Prop := rest <:+ cs ∧ rest.length < cs.length

theorem Follows.cons {rest cs : List Char} (c : Char) (h : rest <:+ cs) : Follows rest (c :: cs) :=
  ⟨h.trans (List.suffix_cons _ _), Nat.lt_succ_of_le h.length_le⟩

theorem Follows.trans_suffix {a b c : List Char} (h : Follows a b) (h' : b <:+ c) : Follows a c :=
  ⟨h.1.trans h', h.2.trans_le h'.length_le⟩

theorem Follows.suffix_trans {a b c : List Char} (h : a <:+ b) (h' : Follows b c) : Follows a c :=
  ⟨h.trans h'.1, h.length_le.trans_lt h'.2⟩

/-- What stands after a delimiter. -/
theorem Follows.of_skipSpace {rest cs : List Char} {c : Char} (h : skipSpace cs = c :: rest) :
    Follows rest cs :=
  (Follows.cons c List.suffix_rfl).trans_suffix (h ▸ List.dropWhile_suffix _)

theorem readDigits_follows {cs ds rest : List Char} (h : readDigits cs = some (ds, rest)) :
    Follows rest cs := by
  unfold readDigits at h
  split at h
  · cases h
  · rename_i hne
    cases h
    refine ⟨List.dropWhile_suffix _, ?_⟩
    have hlen := congrArg List.length (cs.takeWhile_append_dropWhile (p := Char.isDigit))
    have hpos := List.length_pos_of_ne_nil hne
    rw [List.length_append] at hlen
    omega

theorem readInt_follows {cs ds rest : List Char} (h : readInt cs = some (ds, rest)) :
    Follows rest cs := by
  unfold readInt at h
  split at h
  · cases h; exact Follows.cons _ List.suffix_rfl
  · exact readDigits_follows h

theorem readFraction_suffix {cs ds rest : List Char} (h : readFraction cs = some (ds, rest)) :
    rest <:+ cs := by
  unfold readFraction at h
  split at h
  · obtain ⟨⟨ds', rest'⟩, hd, heq⟩ := Option.map_eq_some_iff.1 h
    cases heq
    exact (Follows.cons _ (readDigits_follows hd).1).1
  · cases h; exact List.suffix_rfl

theorem readSign_suffix (signs cs : List Char) : (readSign signs cs).2 <:+ cs := by
  unfold readSign
  split
  · exact List.suffix_rfl
  · split
    · exact List.suffix_cons _ _
    · exact List.suffix_rfl

theorem readExponent_suffix {cs ds rest : List Char} (h : readExponent cs = some (ds, rest)) :
    rest <:+ cs := by
  unfold readExponent at h
  split at h
  · cases h; exact List.suffix_rfl
  · split at h
    · obtain ⟨⟨ds', rest'⟩, hd, heq⟩ := Option.map_eq_some_iff.1 h
      cases heq
      exact (Follows.cons _ ((readDigits_follows hd).1.trans (readSign_suffix _ _))).1
    · cases h; exact List.suffix_rfl

theorem readNumber_follows {cs ds rest : List Char} (h : readNumber cs = some (ds, rest)) :
    Follows rest cs := by
  simp only [readNumber, Option.bind_eq_bind, Option.bind_eq_some_iff, Option.some.injEq,
    Prod.mk.injEq] at h
  obtain ⟨⟨_, r₁⟩, hint, ⟨_, r₂⟩, hfrac, ⟨_, r₃⟩, hexp, -, rfl⟩ := h
  have htail := (readExponent_suffix hexp).trans (readFraction_suffix hfrac)
  exact ((readInt_follows hint).suffix_trans htail).trans_suffix (readSign_suffix _ _)

theorem readWord_suffix : ∀ {w cs rest : List Char}, readWord w cs = some rest → rest <:+ cs
  | [], cs, rest, h => by cases h; exact List.suffix_rfl
  | _ :: _, [], _, h => by cases h
  | a :: w, c :: cs, rest, h => by
    unfold readWord at h
    split at h
    · exact (Follows.cons c (readWord_suffix h)).1
    · cases h

theorem readPieces_follows {cs : List Char} : ∀ {ps : List Piece} {rest : List Char},
    readPieces cs = some (ps, rest) → Follows rest cs := by
  fun_induction readPieces cs with
  | case1 => intro ps rest h; cases h
  | case2 cs => rintro ps rest ⟨⟩; exact Follows.cons _ List.suffix_rfl
  | case3 => intro ps rest h; cases h
  | case4 w x y z cs _ ih =>
    intro ps rest h
    simp only [Option.bind_eq_bind, Option.bind_eq_some_iff, Option.some.injEq,
      Prod.mk.injEq] at h
    obtain ⟨n, -, ⟨ps', rest'⟩, hp, -, rfl⟩ := h
    -- an escape of six characters
    have hfour : cs <:+ 'u' :: w :: x :: y :: z :: cs := ⟨['u', w, x, y, z], rfl⟩
    exact Follows.cons _ ((ih hp).1.trans hfour)
  | case5 => intro ps rest h; cases h
  | case6 e cs _ _ ih =>
    intro ps rest h
    simp only [Option.bind_eq_bind, Option.bind_eq_some_iff, Option.some.injEq,
      Prod.mk.injEq] at h
    obtain ⟨n, -, ⟨ps', rest'⟩, hp, -, rfl⟩ := h
    exact Follows.cons _ (Follows.cons e (ih hp).1).1
  | case7 => intro ps rest h; cases h
  | case8 c cs _ _ _ ih =>
    intro ps rest h
    simp only [Option.bind_eq_bind, Option.bind_eq_some_iff, Option.some.injEq,
      Prod.mk.injEq] at h
    obtain ⟨⟨ps', rest'⟩, hp, -, rfl⟩ := h
    exact Follows.cons c (ih hp).1

theorem readString_follows {cs text rest : List Char} (h : readString cs = some (text, rest)) :
    Follows rest cs := by
  obtain ⟨⟨ps, rest'⟩, hp, heq⟩ := Option.map_eq_some_iff.1 h
  cases heq
  exact readPieces_follows hp

mutual

/-- What follows a value is the text without what was read. -/
theorem readValue_follows : ∀ {n : ℕ} {cs rest : List Char} {v : Value},
    readValue n cs = some (v, rest) → Follows rest cs
  | 0, _, _, _, h => by cases h
  | n + 1, cs, rest, v, h => by
    unfold readValue at h
    rcases hc : skipSpace cs with _ | ⟨c, cs'⟩
    · rw [hc] at h; cases h
    simp only [hc] at h
    have htail : ∀ {r}, r <:+ cs' → Follows r cs := fun hr =>
      Follows.suffix_trans hr (.of_skipSpace hc)
    split at h
    · obtain ⟨⟨_, r⟩, hr, heq⟩ := Option.map_eq_some_iff.1 h
      cases heq
      exact htail (readString_follows hr).1
    split at h
    · split at h
      · rename_i hr
        cases h
        exact htail (Follows.of_skipSpace hr).1
      · obtain ⟨⟨_, r⟩, hr, heq⟩ := Option.map_eq_some_iff.1 h
        cases heq
        exact htail ((readItems_follows hr).1.trans (List.dropWhile_suffix _))
    split at h
    · split at h
      · rename_i hr
        cases h
        exact htail (Follows.of_skipSpace hr).1
      · obtain ⟨⟨_, r⟩, hr, heq⟩ := Option.map_eq_some_iff.1 h
        cases heq
        exact htail ((readMembers_follows hr).1.trans (List.dropWhile_suffix _))
    split at h
    · obtain ⟨r, hr, heq⟩ := Option.map_eq_some_iff.1 h
      cases heq
      exact htail (readWord_suffix hr)
    split at h
    · obtain ⟨r, hr, heq⟩ := Option.map_eq_some_iff.1 h
      cases heq
      exact htail (readWord_suffix hr)
    split at h
    · obtain ⟨r, hr, heq⟩ := Option.map_eq_some_iff.1 h
      cases heq
      exact htail (readWord_suffix hr)
    · obtain ⟨⟨_, r⟩, hr, heq⟩ := Option.map_eq_some_iff.1 h
      cases heq
      exact (readNumber_follows hr).trans_suffix (hc ▸ List.dropWhile_suffix _)

theorem readItems_follows : ∀ {n : ℕ} {cs rest : List Char} {items : Items},
    readItems n cs = some (items, rest) → Follows rest cs
  | 0, _, _, _, h => by cases h
  | n + 1, cs, rest, items, h => by
    unfold readItems at h
    obtain ⟨⟨v, r⟩, hv, h⟩ := Option.bind_eq_some_iff.1 h
    have hr := readValue_follows hv
    dsimp only at h
    split at h
    · rename_i hcomma
      obtain ⟨⟨_, r'⟩, hi, heq⟩ := Option.map_eq_some_iff.1 h
      cases heq
      exact Follows.suffix_trans ((readItems_follows hi).1.trans (Follows.of_skipSpace hcomma).1) hr
    · rename_i hclose
      cases h
      exact Follows.suffix_trans (Follows.of_skipSpace hclose).1 hr
    · cases h

theorem readMembers_follows : ∀ {n : ℕ} {cs rest : List Char} {members : Members},
    readMembers n cs = some (members, rest) → Follows rest cs
  | 0, _, _, _, h => by cases h
  | n + 1, cs, rest, members, h => by
    unfold readMembers at h
    split at h
    · rename_i hquote
      obtain ⟨⟨name, r⟩, hname, h⟩ := Option.bind_eq_some_iff.1 h
      have hkey : Follows r cs :=
        Follows.suffix_trans (readString_follows hname).1 (.of_skipSpace hquote)
      dsimp only at h
      split at h
      · rename_i hcolon
        obtain ⟨⟨v, r'⟩, hv, h⟩ := Option.bind_eq_some_iff.1 h
        have hr : Follows r' cs := Follows.suffix_trans
          ((readValue_follows hv).1.trans (Follows.of_skipSpace hcolon).1) hkey
        dsimp only at h
        split at h
        · rename_i hcomma
          obtain ⟨⟨_, r''⟩, hm, heq⟩ := Option.map_eq_some_iff.1 h
          cases heq
          exact Follows.suffix_trans
            ((readMembers_follows hm).1.trans (Follows.of_skipSpace hcomma).1) hr
        · rename_i hclose
          cases h
          exact Follows.suffix_trans (Follows.of_skipSpace hclose).1 hr
        · cases h
      · cases h
    · cases h

end

/-! ## Repeated names -/

mutual

/-- The members of every object have different names. -/
def Value.Distinct : Value → Prop
  | .obj members => members.names.Nodup ∧ members.Distinct
  | .arr items => items.Distinct
  | _ => True

def Items.Distinct : Items → Prop
  | .nil => True
  | .cons v rest => v.Distinct ∧ rest.Distinct

def Members.Distinct : Members → Prop
  | .nil => True
  | .cons _ v rest => v.Distinct ∧ rest.Distinct

end

end Json
