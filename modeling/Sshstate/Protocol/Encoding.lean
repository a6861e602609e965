/-
  The JSON texts of envelopes (`internal/protocol/encoding.go`, the field tags of
  `record.go`).

  `Envelope.marshal` is the value `json.Marshal` writes: byte strings as unpadded
  base64url, counters as decimal strings, `seq` left out when it is zero.
  `strictUnmarshal` is `StrictUnmarshal`: a limit on the size, no repeated keys, no
  unknown fields.  A struct is decoded as `encoding/json` does it: each member sets
  the field of its name, or else one whose name is equal up to case, and what no
  member sets keeps its zero value.

  The parts of the Go library that only errors and texts in another spelling depend
  on are fields of `Decoder`.  A text is the list of its characters, and its size is
  counted in bytes.
-/
import Sshstate.Lib.Base64
import Sshstate.Lib.Json
import Sshstate.Protocol.Record

namespace Sshstate

open Json (Value Members byteLength)

/-- What the decoding of an object takes from the Go library. -/
structure Decoder where
  /-- The value that makes up a text. -/
  parse : List Char → Except Error Value
  /-- The form of a name in which keys are compared that no field spells. -/
  foldName : String → String
  /-- A value that does not fit the type of its field. -/
  typeError : Value → (goType : String) → Error
  base64Error : List Char → Error
  rangeError : List Char → Error

/-- Texts without white space and escapes are read as they were written. -/
structure Decoder.Lawful (D : Decoder) : Prop where
  parse_render : ∀ v : Value, v.Plain → D.parse v.render = .ok v

/-! ## Bytes and counters -/

/-- `Bytes.MarshalJSON`. -/
def marshalBytes : Option Bytes → Value
  | none => .null
  | some b => .str (Base64.encode b)

/-- `Counter.MarshalJSON`. -/
def marshalCounter (c : ℕ) : Value := .str (Nat.toDigits 10 c)

section
variable (D : Decoder)

/-- `Bytes.UnmarshalJSON`; `DecodeString` leaves line breaks out. -/
def unmarshalBytes : Value → Except Error (Option Bytes)
  | .null => .ok none
  | .str s =>
    match Base64.decode (s.filter fun c => c ≠ '\n' ∧ c ≠ '\r') with
    | none => .error (.wrap "binary field is not unpadded base64url: %w" [] (D.base64Error s))
    | some raw => do
      .require (Base64.encode raw = s)
        (.errorf "binary field %q is not canonical base64url" [String.ofList s])
      return some raw
  | v => .error (.wrap "binary field must be a base64url string: %w" [] (D.typeError v "string"))

/-- The checks of `Counter.UnmarshalJSON` on the string. -/
def counterOf (s : List Char) : Except Error ℕ := do
  .require (s ≠ []) (.new "counter is empty")
  .require (¬ (1 < s.length ∧ s.head? = some '0'))
    (.errorf "counter %q has a leading zero" [String.ofList s])
  .require (∀ c ∈ s, c.isDigit = true) (.errorf "counter %q is not decimal" [String.ofList s])
  .require (Nat.ofDigitChars 10 s 0 < 2 ^ 64)
    (.wrap "counter %q out of range: %w" [String.ofList s] (D.rangeError s))
  return Nat.ofDigitChars 10 s 0

/-- `Counter.UnmarshalJSON`; `null` leaves the string empty. -/
def unmarshalCounter : Value → Except Error ℕ
  | .str s => counterOf D s
  | .null => counterOf D []
  | v => .error (.wrap "counter must be a decimal string: %w" [] (D.typeError v "string"))

/-! ## Fields of the library's own types -/

def unmarshalString (old : List Char) : Value → Except Error (List Char)
  | .str s => .ok s
  | .null => .ok old
  | v => .error (D.typeError v "string")

def unmarshalBool (old : Bool) : Value → Except Error Bool
  | .bool b => .ok b
  | .null => .ok old
  | v => .error (D.typeError v "bool")

/-- The integer a number is, if it is written without a fraction and an exponent. -/
def intOf? : List Char → Option ℤ
  | [] => none
  | c :: cs =>
    if c = '-' then
      if cs ≠ [] ∧ ∀ d ∈ cs, d.isDigit = true then some (-(Nat.ofDigitChars 10 cs 0 : ℤ)) else none
    else if ∀ d ∈ c :: cs, d.isDigit = true then some (Nat.ofDigitChars 10 (c :: cs) 0 : ℤ)
    else none

def unmarshalInt (old : ℤ) : Value → Except Error ℤ
  | .num digits =>
    match (intOf? digits).filter fun z => -2 ^ 63 ≤ z ∧ z < 2 ^ 63 with
    | some z => .ok z
    | none => .error (D.typeError (.num digits) "int")
  | .null => .ok old
  | v => .error (D.typeError v "int")

/-! ## Structs -/

/-- The fields of a struct: a name, and how a value sets the field. -/
abbrev StructFields (α : Type) := List (String × (Value → α → Except Error α))

/-- The field a key sets. -/
def fieldFor {α : Type} (fields : StructFields α) (key : String) :
    Option (String × (Value → α → Except Error α)) :=
  (fields.find? fun f => f.1 = key).or (fields.find? fun f => D.foldName f.1 = D.foldName key)

def unmarshalMembers {α : Type} (fields : StructFields α) : Members → α → Except Error α
  | .nil, a => .ok a
  | .cons key v rest, a =>
    match fieldFor D fields key with
    | none => .error (.errorf "json: unknown field %q" [key])
    | some (_, set) => do
      let a ← set v a
      unmarshalMembers fields rest a

def unmarshalStruct {α : Type} (goType : String) (fields : StructFields α) (a : α) :
    Value → Except Error α
  | .obj members => unmarshalMembers D fields members a
  | .null => .ok a
  | v => .error (D.typeError v goType)

/-! ## Strict decoding -/

mutual

/-- `checkValue`. -/
def checkValue (path : List Char) : Value → Except Error Unit
  | .obj members => checkObject path [] members
  | .arr items => checkArray path items
  | _ => .ok ()

/-- `checkArray`. -/
def checkArray (path : List Char) : Json.Items → Except Error Unit
  | .nil => .ok ()
  | .cons v rest => do
    checkValue path v
    checkArray path rest

/-- `checkObject`. -/
def checkObject (path : List Char) (seen : List String) : Members → Except Error Unit
  | .nil => .ok ()
  | .cons key v rest => do
    let here := if path = [] then key.toList else path ++ '.' :: key.toList
    .require (key ∉ seen) (.errorf "duplicate JSON key %q" [String.ofList here])
    checkValue here v
    checkObject path (key :: seen) rest

end

/-- `StrictUnmarshalLimit`. -/
def strictUnmarshalLimit {α : Type} (unmarshal : Value → Except Error α) (data : List Char)
    (limit : ℕ) : Except Error α := do
  .require (byteLength data ≤ limit)
    (.errorf "object is %d bytes, limit is %d" [toString (byteLength data), toString limit])
  let v ← D.parse data
  checkValue [] v
  unmarshal v

/-- `StrictUnmarshal`. -/
def strictUnmarshal {α : Type} (unmarshal : Value → Except Error α) (data : List Char) :
    Except Error α :=
  strictUnmarshalLimit D unmarshal data maxObjectBytes

end

/-! ## Envelopes -/

/-- The record type of a text. -/
def RecordType.ofText (s : List Char) : RecordType :=
  (([host, key, knownHost, conflictMetadata, conflictSecret].find? fun t => t.text.toList = s).getD
    (other (String.ofList s)))

namespace Context

def marshal (c : Context) : Value :=
  .obj (.ofList
    [("domain", .str c.domain.toList), ("format_version", .num (toString c.formatVersion).toList),
     ("vault_id", .str c.vaultID), ("record_id", .str c.recordID),
     ("record_type", .str c.recordType.text.toList), ("key_epoch", marshalCounter c.keyEpoch),
     ("rev", marshalCounter c.rev), ("parent_digest", marshalBytes c.parentDigest),
     ("mutation_id", .str c.mutationID), ("updated_by", .str c.updatedBy),
     ("deleted", .bool c.deleted)])

/-- The zero value. -/
def zero : Context :=
  { domain := "", formatVersion := 0, vaultID := [], recordID := [], recordType := .other "",
    keyEpoch := 0, rev := 0, parentDigest := none, mutationID := [], updatedBy := [],
    deleted := false }

def fields (D : Decoder) : StructFields Context :=
  [("domain", fun v c => do
      return { c with domain := String.ofList (← unmarshalString D c.domain.toList v) }),
   ("format_version", fun v c => do
      return { c with formatVersion := ← unmarshalInt D c.formatVersion v }),
   ("vault_id", fun v c => do return { c with vaultID := ← unmarshalString D c.vaultID v }),
   ("record_id", fun v c => do return { c with recordID := ← unmarshalString D c.recordID v }),
   ("record_type", fun v c => do
      return { c with recordType := .ofText (← unmarshalString D c.recordType.text.toList v) }),
   ("key_epoch", fun v c => do return { c with keyEpoch := ← unmarshalCounter D v }),
   ("rev", fun v c => do return { c with rev := ← unmarshalCounter D v }),
   ("parent_digest", fun v c => do return { c with parentDigest := ← unmarshalBytes D v }),
   ("mutation_id", fun v c => do return { c with mutationID := ← unmarshalString D c.mutationID v }),
   ("updated_by", fun v c => do return { c with updatedBy := ← unmarshalString D c.updatedBy v }),
   ("deleted", fun v c => do return { c with deleted := ← unmarshalBool D c.deleted v })]

end Context

namespace Envelope

def marshal (e : Envelope) : Value :=
  .obj (.ofList
    ([("context", e.context.marshal), ("nonce", marshalBytes (some e.nonce)),
      ("ciphertext", marshalBytes (some e.ciphertext)),
      ("signature", marshalBytes (some e.signature))] ++
     if e.seq = 0 then [] else [("seq", marshalCounter e.seq)]))

/-- `json.Marshal`. -/
def text (e : Envelope) : List Char := e.marshal.render

/-- `Canonical`: the members in the order of their names. -/
def canonicalText (e : Envelope) : List Char := e.marshal.sorted.render

/-- The zero value. -/
def zero : Envelope := { context := .zero, nonce := [], ciphertext := [], signature := [], seq := 0 }

def fields (D : Decoder) : StructFields Envelope :=
  [("context", fun v e => do
      return { e with context := ← unmarshalStruct D "Context" (Context.fields D) e.context v }),
   ("nonce", fun v e => do return { e with nonce := (← unmarshalBytes D v).getD [] }),
   ("ciphertext", fun v e => do return { e with ciphertext := (← unmarshalBytes D v).getD [] }),
   ("signature", fun v e => do return { e with signature := (← unmarshalBytes D v).getD [] }),
   ("seq", fun v e => do return { e with seq := ← unmarshalCounter D v })]

def unmarshal (D : Decoder) : Value → Except Error Envelope :=
  unmarshalStruct D "Envelope" (fields D) zero

end Envelope

end Sshstate
