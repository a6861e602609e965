/-
  Structured fields (`internal/httpsig/sfv.go`): quoted strings, byte sequences,
  dictionary members and the parameters of a signature.

  A Go string is the list of its bytes.  The functions of Go's standard library
  that the package calls on strings are collected in `GoLib`.
-/
import Sshstate.Protocol.Basic

namespace Sshstate.Httpsig

/-- The functions of Go's standard library. -/
structure GoLib where
  /-- `strings.ToUpper` -/
  toUpper : Bytes → Bytes
  /-- `strings.ToLower` -/
  toLower : Bytes → Bytes
  /-- `strings.TrimSpace` -/
  trimSpace : Bytes → Bytes
  /-- `textproto.CanonicalMIMEHeaderKey` -/
  canonicalKey : Bytes → Bytes
  /-- `strconv.ParseInt(·, 10, 64)` -/
  parseInt : Bytes → Option ℤ
  /-- `strconv.FormatInt(·, 10)` -/
  formatInt : ℤ → Bytes
  /-- `base64.StdEncoding.EncodeToString` -/
  encodeStd : Bytes → Bytes
  /-- `base64.StdEncoding.DecodeString` -/
  decodeStd : Bytes → Except Error Bytes
  /-- `base64.RawURLEncoding.EncodeToString` -/
  encodeRawURL : Bytes → Bytes
  /-- `base64.RawURLEncoding.DecodeString` -/
  decodeRawURL : Bytes → Option Bytes
  /-- `time.Duration.String` of nanoseconds -/
  durationText : ℤ → String
  /-- `time.Time.Format(time.RFC3339)` of nanoseconds -/
  rfc3339 : ℤ → String

/-- `a`–`z` for `A`–`Z`. -/
def lowerByte (c : UInt8) : UInt8 := if 0x41 ≤ c ∧ c ≤ 0x5a then c + 0x20 else c

/-- The letters and the hyphen, of which the names of the header fields are made. -/
def fieldNameChar (c : UInt8) : Bool := (0x61 ≤ lowerByte c && lowerByte c ≤ 0x7a) || c = 0x2d

/-- A string literal. -/
def ascii (s : String) : Bytes := s.toList.map fun c => c.toNat.toUInt8

/-- A string as an argument of an error. -/
def goText (s : Bytes) : String := String.ofList (s.map fun c => Char.ofNat c.toNat)

/-- A list of strings as an argument of an error (`%v`). -/
def listText (l : List Bytes) : String := "[" ++ String.intercalate " " (l.map goText) ++ "]"

def newline : UInt8 := 0x0a
def return_ : UInt8 := 0x0d
def space : UInt8 := 0x20
def dquote : UInt8 := 0x22
def leftParen : UInt8 := 0x28
def rightParen : UInt8 := 0x29
def colon : UInt8 := 0x3a
def semicolon : UInt8 := 0x3b
def equals : UInt8 := 0x3d
def backslash : UInt8 := 0x5c
def rightBracket : UInt8 := 0x5d

/-- What is used of these functions. -/
structure GoLib.Lawful (L : GoLib) : Prop where
  toUpper_newline : ∀ s, newline ∉ s → newline ∉ L.toUpper s
  toLower_newline : ∀ s, newline ∉ s → newline ∉ L.toLower s
  toLower_ascii : ∀ s, (∀ c ∈ s, c < 0x80) → L.toLower s = s.map lowerByte
  trimSpace_infix : ∀ s, L.trimSpace s <:+: s
  trimSpace_space : ∀ s, L.trimSpace (space :: s) = L.trimSpace s
  trimSpace_graphic : ∀ s, (∀ c ∈ s, 0x21 ≤ c ∧ c ≤ 0x7e) → L.trimSpace s = s
  canonicalKey_eq : ∀ a b, a.all fieldNameChar = true → b.all fieldNameChar = true →
    (L.canonicalKey a = L.canonicalKey b ↔ a.map lowerByte = b.map lowerByte)
  canonicalKey_idem : ∀ a, a.all fieldNameChar = true →
    L.canonicalKey (L.canonicalKey a) = L.canonicalKey a
  encodeStd_colon : ∀ b, colon ∉ L.encodeStd b

/-- The characters of a structured-field string. -/
def printable (c : UInt8) : Bool := 0x20 ≤ c && c < 0x7f

/-- `strings.IndexByte`: what stands before and after the first `c`. -/
def cut (c : UInt8) : Bytes → Option (Bytes × Bytes)
  | [] => none
  | x :: xs => if x = c then some ([], xs) else (cut c xs).map fun p => (x :: p.1, p.2)

/-! ## Quoted strings -/

def quoteString (s : Bytes) : Except Error Bytes := do
  Except.require (s.all printable = true)
    (.errorf "%q contains a character that cannot appear in a structured-field string" [goText s])
  .ok (dquote :: s.flatMap (fun c => if c = backslash ∨ c = dquote then [backslash, c] else [c])
    ++ [dquote])

/-- `parseQuotedString` past the opening quote: the string, and what follows it. -/
def parseQuotedRest : Bytes → Except Error (Bytes × Bytes)
  | [] => .error (.new "string is not closed")
  | [c] =>
    if c = backslash then .error (.new "string ends with an escape")
    else if c = dquote then .ok ([], [])
    else if printable c then .error (.new "string is not closed")
    else .error (.new "string contains a character outside the allowed range")
  | c :: e :: cs =>
    if c = backslash then
      if e ≠ backslash ∧ e ≠ dquote then .error (.errorf "invalid escape %q in string" [goText [e]])
      else do
        let p ← parseQuotedRest cs
        .ok (e :: p.1, p.2)
    else if c = dquote then .ok ([], e :: cs)
    else if printable c then do
      let p ← parseQuotedRest (e :: cs)
      .ok (c :: p.1, p.2)
    else .error (.new "string contains a character outside the allowed range")

def parseQuotedString : Bytes → Except Error (Bytes × Bytes)
  | [] => .error (.new "expected a quoted string")
  | c :: cs => if c = dquote then parseQuotedRest cs else .error (.new "expected a quoted string")

/-! ## Signature parameters -/

/-- The dynamic type of `Param.Value`. -/
inductive ParamValue where
  | string (s : Bytes)
  | int64 (n : ℤ)
  deriving DecidableEq, Repr

structure Param where
  name : Bytes
  value : ParamValue
  deriving DecidableEq, Repr

structure SignatureParams where
  components : List Bytes
  params : List Param
  deriving DecidableEq, Repr

def lowerLetter (c : UInt8) : Bool := 0x61 ≤ c && c ≤ 0x7a

/-- The characters of a parameter name: `a`–`z`, `0`–`9`, `_`, `-` and `.`. -/
def nameChar (c : UInt8) : Bool :=
  lowerLetter c || (0x30 ≤ c && c ≤ 0x39) || c = 0x5f || c = 0x2d || c = 0x2e

def checkParamName (name : Bytes) : Except Error Unit :=
  match name with
  | [] => .error (.new "parameter name is empty")
  | c :: _ => do
    Except.require (lowerLetter c = true)
      (.errorf "parameter name %q must start with a lowercase letter" [goText name])
    match name.find? fun c => !nameChar c with
    | some c => .error (.errorf "parameter name %q contains %q" [goText name, goText [c]])
    | none => .ok ()

variable (L : GoLib)

/-- One parameter of `SignatureParams.Value`. -/
def Param.text (p : Param) : Except Error Bytes := do
  checkParamName p.name
  let v ← match p.value with
    | .string s => (quoteString s).mapError (.wrap "parameter %q: %w" [goText p.name])
    | .int64 n => .ok (L.formatInt n)
  .ok (semicolon :: p.name ++ equals :: v)

namespace SignatureParams

/-- `SignatureParams.Value`. -/
def value (p : SignatureParams) : Except Error Bytes := do
  let items ← p.components.mapM fun c =>
    (quoteString c).mapError (.wrap "component identifier: %w" [])
  let params ← p.params.mapM (Param.text L)
  .ok (leftParen :: [space].intercalate items ++ rightParen :: params.flatten)

/-- `SignatureParams.Param`. -/
def param (p : SignatureParams) (name : Bytes) : Option ParamValue :=
  (p.params.find? fun q => q.name == name).map (·.value)

end SignatureParams

/-- The items of the inner list; every turn reads two quotes at least, so that the
    length of the list bounds the number of turns. -/
def parseItems : ℕ → Bytes → Except Error (List Bytes)
  | 0, _ => .ok []
  | fuel + 1, rest =>
    if rest = [] then .ok []
    else do
      let (item, remainder) ←
        (parseQuotedString rest).mapError (.wrap "component identifier: %w" [])
      let rest := remainder.dropWhile (· == space)
      Except.require (rest = [] ∨ remainder ≠ rest)
        (.new "inner list items must be separated by a single space")
      let items ← parseItems fuel rest
      .ok (item :: items)

/-- The value of the parameter `name`, and what follows it. -/
def parseValue (name rest : Bytes) : Except Error (ParamValue × Bytes) :=
  match rest with
  | [] => .error (.errorf "parameter %q has no value" [goText name])
  | c :: _ =>
    if c = dquote then do
      let (value, remainder) ←
        (parseQuotedString rest).mapError (.wrap "parameter %q: %w" [goText name])
      .ok (.string value, remainder)
    else
      let digits := rest.takeWhile (· != semicolon)
      match L.parseInt digits with
      | none =>
        .error (.errorf "parameter %q is neither a quoted string nor an integer" [goText name])
      | some n => do
        Except.require (digits ≠ [])
          (.errorf "parameter %q is neither a quoted string nor an integer" [goText name])
        Except.require (L.formatInt n = digits)
          (.errorf "parameter %q is not a canonical integer" [goText name])
        .ok (.int64 n, rest.dropWhile (· != semicolon))

/-- The parameters after the inner list; every turn reads a semicolon. -/
def parseParams : ℕ → Bytes → Except Error (List Param)
  | 0, _ => .ok []
  | _ + 1, [] => .ok []
  | fuel + 1, c :: cs => do
    Except.require (c = semicolon) (.errorf "expected a parameter, found %q" [goText (c :: cs)])
    match cut equals cs with
    | none => .error (.new "parameter has no value")
    | some (name, rest) => do
      checkParamName name
      let (value, rest) ← parseValue L name rest
      let params ← parseParams fuel rest
      .ok (⟨name, value⟩ :: params)

def parseSignatureParams : Bytes → Except Error SignatureParams
  | [] => .error (.new "signature parameters must begin with an inner list")
  | c :: cs =>
    if c = leftParen then
      match cut rightParen cs with
      | none => .error (.new "inner list is not closed")
      | some (list, rest) => do
        let inner := L.trimSpace list
        let components ← parseItems inner.length inner
        let params ← parseParams L rest.length rest
        .ok ⟨components, params⟩
    else .error (.new "signature parameters must begin with an inner list")

/-! ## Byte sequences and dictionary members -/

def byteSequence (b : Bytes) : Bytes := colon :: L.encodeStd b ++ [colon]

def parseByteSequence (s : Bytes) : Except Error Bytes := do
  Except.require (2 ≤ s.length ∧ s.head? = some colon ∧ s.getLast? = some colon)
    (.new "byte sequence must be wrapped in colons")
  let body := s.tail.dropLast
  let raw ← (L.decodeStd body).mapError (.wrap "byte sequence is not base64: %w" [])
  Except.require (L.encodeStd raw = body) (.new "byte sequence is not canonical base64")
  .ok raw

def dictionaryMember (label value : Bytes) : Bytes := label ++ equals :: value

def parseDictionaryMember (header expectLabel : Bytes) : Except Error Bytes := do
  let header := L.trimSpace header
  Except.require (header ≠ []) (.new "field is empty")
  let label := expectLabel ++ [equals]
  Except.require (label <+: header)
    (.errorf "field is not a single member labelled %q" [goText expectLabel])
  let value := header.drop label.length
  Except.require (value ≠ []) (.new "dictionary member has no value")
  .ok value

end Sshstate.Httpsig
