/-
  Identifiers, byte strings, counters and errors (`internal/protocol`: `id.go`,
  `encoding.go`, `errors.go`).

  * An `ID` is the text of 16 random bytes in lower-case hex, as the list of its
    characters; `ID.valid` is `ID.Valid` and every object checks the ids it
    carries with `ID.check`.
  * A nullable byte field (`Bytes` in the source, `nil` encoded as `null`) is an
    `Option Bytes`; `bytes.Equal` does not tell `nil` from the empty string
    (`bytesEqual`).
  * A counter (`uint64`) is a natural number.  Where the source computes on
    counters or converts them to `int64` the wrap-around is written out
    (`counterSucc`, `toInt64`).
  * An error keeps the format string and the arguments of the source;
    `Error.codeOf` is `CodeOf`.
-/
import Mathlib
import Sshstate.Lib.Except

namespace Sshstate

/-! ## Bytes and counters -/

abbrev Bytes := List UInt8

/-- `bytes.Equal` on nullable fields. -/
def bytesEqual (a b : Option Bytes) : Bool := a.getD [] == b.getD []

/-- `sha256.Size`. -/
def sha256Size : ℕ := 32

/-- `c + 1` on `uint64`. -/
def counterSucc (c : ℕ) : ℕ := (c + 1) % 2 ^ 64

/-- The value of `n` as an `int64`, with wrap-around. -/
def toInt64 (n : ℤ) : ℤ := (n + 2 ^ 63) % 2 ^ 64 - 2 ^ 63

/-- `math.MaxInt64`. -/
def maxInt64 : ℕ := 2 ^ 63 - 1

/-- `MaxObjectBytes`. -/
def maxObjectBytes : ℕ := 2 ^ 20

theorem counterSucc_eq {c : ℕ} (h : c ≤ maxInt64) : counterSucc c = c + 1 := by
  unfold maxInt64 at h; unfold counterSucc; omega

theorem toInt64_eq {c : ℕ} (h : c ≤ maxInt64) : toInt64 c = c := by
  unfold maxInt64 at h; unfold toInt64; omega

/-! ## Errors -/

/-- The error codes of the relay protocol. -/
inductive Code where
  | invalidRequest | malformedEncoding | unsupportedVer | unknownSuite | digestMismatch
  | idMismatch | signatureInvalid | signatureExpired | signatureReplayed | deviceUnknown
  | deviceRevoked | notAuthorized | bootstrapConsumed | notFound | pairingExpired
  | pairingConsumed | pairingIncomplete | parentMismatch | idempotencyMismat | conflictContent
  | chainMismatch | rotationActive | epochMismatch | bodyTooLarge | headerTooLarge
  | rateLimited | notImplemented | internal
  deriving DecidableEq, Repr

/-- An error as the source builds it: `errors.New` or `fmt.Errorf` without a
    wrapped error, a `protocol.Error`, or `fmt.Errorf` around another error. -/
inductive Error where
  | errorf (format : String) (args : List String)
  | protocol (code : Code) (format : String) (args : List String)
  | wrap (format : String) (args : List String) (err : Error)
  deriving DecidableEq, Repr

/-- `errors.New`. -/
def Error.new (text : String) : Error := .errorf text []

/-- `fmt.Sprintf` for the verbs the source uses: each verb takes the next
    argument, and `%q` quotes it. -/
def sprintf : List Char → List String → List Char
  | [], _ => []
  | '%' :: v :: cs, a :: as => (if v = 'q' then a.quote else a).toList ++ sprintf cs as
  | c :: cs, as => c :: sprintf cs as

/-- The text of an error. -/
def Error.text : Error → String
  | errorf format args | protocol _ format args => String.ofList (sprintf format.toList args)
  | wrap format args err => String.ofList (sprintf format.toList (args ++ [err.text]))

/-- `CodeOf`: the code of the outermost `protocol.Error` in the chain. -/
def Error.codeOf : Error → Code
  | errorf _ _ => .internal
  | protocol code _ _ => code
  | wrap _ _ err => err.codeOf

/-! ## Identifiers -/

/-- A 128-bit identifier in its text form. -/
abbrev ID := List Char

namespace ID

instance : LawfulBEq ID := inferInstance

/-- `IDBytes`. -/
def idBytes : ℕ := 16

def isLowerHex (c : Char) : Bool := ('0' ≤ c && c ≤ '9') || ('a' ≤ c && c ≤ 'f')

/-- `ID.Valid`: 32 lower-case hex digits. -/
def valid (id : ID) : Bool := id.length == idBytes * 2 && id.all isLowerHex

/-- `ID.String`. -/
def text (id : ID) : String := String.ofList id

/-- `ID.check`. -/
def check (id : ID) (field : String) : Except Error Unit :=
  Except.require (valid id = true) (.errorf "%s is not a 128-bit lowercase hex id" [field])

@[simp] theorem check_eq_ok {id : ID} {field : String} {u : Unit} :
    check id field = .ok u ↔ valid id = true := by simp [check]

theorem check_bind_eq_ok {α : Type} {id : ID} {field : String} {f : Unit → Except Error α} {b : α} :
    (check id field >>= f) = .ok b ↔ valid id = true ∧ f () = .ok b :=
  Except.require_bind_eq_ok

/-- One hex digit of `hex.EncodeToString`. -/
def hexDigit (n : ℕ) : Char := if n < 10 then Char.ofNat (48 + n) else Char.ofNat (87 + n)

/-- `hex.EncodeToString`. -/
def hexEncode (b : Bytes) : ID :=
  b.flatMap fun x => [hexDigit (x.toNat / 16), hexDigit (x.toNat % 16)]

end ID

end Sshstate
