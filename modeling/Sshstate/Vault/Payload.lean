/-
  What records hold (`internal/vault`: `payload.go`, `alias.go`).

  The texts of hosts and keys are lists of characters; the line of a known host is a byte
  string.  A payload is sealed as its canonical JSON.  `Coding` is what the records take from
  the JSON library, and `Coding.Lawful` what is assumed of it: a payload that is not too long
  is read back as it was written, but for bytes in a line that are no UTF-8, which JSON
  replaces.
-/
import Sshstate.Lib.Utf8
import Sshstate.Protocol.Codec
import Sshstate.Vault.Record

namespace Sshstate.Vault

/-! ## Aliases -/

/-- `MaxAliasLen`. -/
def maxAliasLen : ℕ := 64

/-- `'a'` to `'z'` and `'0'` to `'9'`. -/
def isPlain (c : UInt8) : Bool := (97 ≤ c && c ≤ 122) || (48 ≤ c && c ≤ 57)

/-- `'.'`, `'_'` and `'-'`. -/
def isMark (c : UInt8) : Bool := c = 46 || c = 95 || c = 45

/-- The loop of `ValidateAlias`. -/
def validateAliasFrom (hostAlias : List Char) : (first : Bool) → Bytes → Except Error Unit
  | _, [] => .ok ()
  | first, c :: rest =>
    let said := String.ofList hostAlias
    if isPlain c then validateAliasFrom hostAlias false rest
    else if isMark c then do
      .require (first = false) (.errorf "alias %q must start with a lowercase letter or digit" [said])
      validateAliasFrom hostAlias false rest
    else if 65 ≤ c ∧ c ≤ 90 then
      .error (.errorf "alias %q contains uppercase; aliases are lowercase (try %q)"
        [said, String.ofList (hostAlias.map Char.toLower)])
    else
      .error (.errorf "alias %q contains %q; allowed are a-z, 0-9, dot, underscore, hyphen"
        [said, String.ofList [Char.ofNat c.toNat]])

/-- `ValidateAlias`. -/
def validateAlias (hostAlias : List Char) : Except Error Unit := do
  .require (hostAlias ≠ []) (.new "alias is empty")
  .require ((utf8 hostAlias).length ≤ maxAliasLen)
    (.errorf "alias %q is %d characters, limit is %d"
      [String.ofList hostAlias, toString (utf8 hostAlias).length, toString maxAliasLen])
  validateAliasFrom hostAlias true (utf8 hostAlias)

/-! ## Hosts -/

/-- `HostPayload`. -/
structure HostPayload where
  formatVersion : ℤ
  hostAlias : List Char
  hostName : List Char
  user : List Char
  port : ℤ
  proxyJump : Option (List Char)
  keyIDs : List ID
  deriving DecidableEq, Repr

/-- `DefaultPort`. -/
def defaultPort : ℤ := 22

/-- `strings.ContainsAny`. -/
def containsAny (value chars : List Char) : Bool := value.any chars.contains

/-- `strings.TrimSpace` of a text. -/
def trimSpace (value : List Char) : List Char := Utf8.runes (Utf8.trimSpace (utf8 value))

/-- `validateConfigToken`. -/
def validateConfigToken (field : String) (value : List Char) : Except Error Unit := do
  .require (containsAny value ['\n', '\r'] = false) (.errorf "%s contains a newline" [field])
  .require (containsAny value ['"', '\\'] = false)
    (.errorf "%s contains a quote or backslash, which OpenSSH would reparse" [field])
  .require (trimSpace value = value) (.errorf "%s has leading or trailing whitespace" [field])
  .require (containsAny value [' ', '\t'] = false) (.errorf "%s contains whitespace" [field])

/-- The loop over the key ids of a host. -/
def validateKeyIDs (hostAlias : List Char) : (seen : List ID) → List ID → Except Error Unit
  | _, [] => .ok ()
  | seen, id :: ids => do
    .require (ID.valid id = true)
      (.errorf "host %q references malformed key id %q" [String.ofList hostAlias, ID.text id])
    .require (id ∉ seen) (.errorf "host %q lists key %s twice" [String.ofList hostAlias, ID.text id])
    validateKeyIDs hostAlias (id :: seen) ids

/-- `HostPayload.Validate`. -/
def HostPayload.validate (p : HostPayload) : Except Error Unit := do
  .require (p.formatVersion = payloadFormatVersion)
    (.errorf "unsupported host payload version %d" [toString p.formatVersion])
  validateAlias p.hostAlias
  .require (p.hostName ≠ []) (.new "host has no HostName")
  validateConfigToken "HostName" p.hostName
  .require (p.user ≠ []) (.new "host has no User")
  validateConfigToken "User" p.user
  .require (1 ≤ p.port ∧ p.port ≤ 65535) (.errorf "port %d is out of range" [toString p.port])
  match p.proxyJump with
  | none => validateKeyIDs p.hostAlias [] p.keyIDs
  | some jump => do
    (validateAlias jump).mapError (.wrap "proxy_jump: %w" [])
    .require (jump ≠ p.hostAlias)
      (.errorf "host %q lists itself as its own ProxyJump" [String.ofList p.hostAlias])
    validateKeyIDs p.hostAlias [] p.keyIDs

/-! ## Keys -/

/-- `KeyPayload`. -/
structure KeyPayload where
  formatVersion : ℤ
  privateKey : List Char
  publicKey : List Char
  fingerprint : List Char
  algorithm : List Char
  comment : List Char
  deriving DecidableEq, Repr

/-- `KeyPayload.Validate`. -/
def KeyPayload.validate (p : KeyPayload) : Except Error Unit := do
  .require (p.formatVersion = payloadFormatVersion)
    (.errorf "unsupported key payload version %d" [toString p.formatVersion])
  .require (p.privateKey ≠ []) (.new "key record has no private key")
  .require (p.publicKey ≠ []) (.new "key record has no public key")
  .require ("SHA256:".toList <+: p.fingerprint)
    (.errorf "fingerprint %q is not an OpenSSH SHA256 fingerprint" [String.ofList p.fingerprint])
  .require (p.algorithm ≠ []) (.new "key record has no algorithm")

/-! ## Known hosts -/

/-- `TrustStatus`; `other` is any text that is none of the two. -/
inductive TrustStatus where
  | approved | pending
  | other (name : String)
  deriving DecidableEq, Repr

/-- The text of a status. -/
def TrustStatus.text : TrustStatus → String
  | approved => "approved"
  | pending => "pending"
  | other name => name

/-- `KnownHostPayload`. -/
structure KnownHostPayload where
  formatVersion : ℤ
  line : Bytes
  keyType : Bytes
  fingerprint : Bytes
  marker : Bytes
  status : TrustStatus
  lineDigest : Bytes
  deriving DecidableEq, Repr

/-- `"@revoked"`. -/
def markerRevoked : Bytes := utf8 "@revoked".toList

/-- `"@cert-authority"`. -/
def markerCertAuthority : Bytes := utf8 "@cert-authority".toList

/-- `KnownHostPayload.Validate`. -/
def KnownHostPayload.validate (p : KnownHostPayload) : Except Error Unit := do
  .require (p.formatVersion = payloadFormatVersion)
    (.errorf "unsupported known_host payload version %d" [toString p.formatVersion])
  .require (p.line ≠ []) (.new "known_host record has no line")
  .require (10 ∉ p.line ∧ 13 ∉ p.line) (.new "known_host line contains a newline")
  .require (p.marker = [] ∨ p.marker = markerRevoked ∨ p.marker = markerCertAuthority)
    (.errorf "unknown known_hosts marker %q" [String.ofList (Utf8.runes p.marker)])
  .require (p.status = .approved ∨ p.status = .pending)
    (.errorf "unknown trust status %q" [p.status.text])
  .require (p.lineDigest ≠ []) (.new "known_host record has no line digest")

/-! ## JSON -/

/-- The canonical JSON of a payload, and how it is read into the type. -/
structure Form (α : Type) where
  /-- `Canonical`. -/
  canonical : α → Bytes
  /-- `StrictUnmarshal`. -/
  read : Bytes → Except Error α
  /-- What `out` is before. -/
  zero : α

/-- The forms of the payloads. -/
structure Coding where
  host : Form HostPayload
  key : Form KeyPayload
  knownHost : Form KnownHostPayload
  /-- `StrictUnmarshal` of a conflict record. -/
  readConflict : Bytes → Except Error ConflictPayload
  /-- `json.Marshal` of a host. -/
  marshalHost : HostPayload → Bytes
  /-- `json.Unmarshal` of a text into any value, and `Canonical` of that. -/
  canonicalValue : Bytes → Except Error Bytes
  /-- `Canonical` of a text in JSON (`json.RawMessage`). -/
  canonicalRaw : Bytes → Except Error Bytes

/-- What JSON keeps of a text. -/
def asText (s : Bytes) : Bytes := utf8 (Utf8.runes s)

/-- What JSON keeps of a known host. -/
def KnownHostPayload.asText (p : KnownHostPayload) : KnownHostPayload :=
  { p with line := Vault.asText p.line, keyType := Vault.asText p.keyType,
           fingerprint := Vault.asText p.fingerprint, marker := Vault.asText p.marker }

/-- A payload that is not too long is read back, as far as JSON keeps it. -/
structure Form.Lawful {α : Type} (f : Form α) (kept : α → α) : Prop where
  ne_nil : ∀ p, f.canonical p ≠ []
  read : ∀ p, (f.canonical p).length ≤ maxObjectBytes → f.read (f.canonical p) = .ok (kept p)

/-- What is assumed of the JSON library: payloads are read back; the candidate of a conflict
    record is kept in its canonical form; and the canonical form of a host is the same whether it
    is made from the host, from its JSON or from itself. -/
structure Coding.Lawful (J : Coding) (C : Suite) : Prop where
  host : J.host.Lawful id
  key : J.key.Lawful id
  knownHost : J.knownHost.Lawful KnownHostPayload.asText
  conflict : ∀ p : ConflictPayload, (C.canonical (.conflictPayload p)).length ≤ maxObjectBytes →
    ∀ kept, (match p.candidate with
      | none => kept = none
      | some raw => raw ≠ [] ∧ ∃ c, J.canonicalRaw raw = .ok c ∧ kept = some c) →
    J.readConflict (C.canonical (.conflictPayload p)) = .ok { p with candidate := kept }
  raw_marshal : ∀ p, J.canonicalRaw (J.marshalHost p) = .ok (J.host.canonical p)
  value_marshal : ∀ p, J.canonicalValue (J.marshalHost p) = .ok (J.host.canonical p)
  value_canonical : ∀ p, J.canonicalValue (J.host.canonical p) = .ok (J.host.canonical p)
  marshal_ne_nil : ∀ p, J.marshalHost p ≠ []

/-- A conflict record with nothing in it. -/
def zeroConflict : ConflictPayload :=
  { formatVersion := 0, sourceRecordID := [], sourceRecordType := .other "", sourceMutationID := [],
    observedHeadDigest := none, preservedAt := "", candidate := none, removal := false }

end Sshstate.Vault
