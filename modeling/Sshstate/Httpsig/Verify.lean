/-
  Signed requests (`internal/httpsig`: `base.go` and the verifier of `profile.go`).

  * `fromRequest` takes from a request what a signature can cover, and `base` is the
    text that is signed: a line for every covered component, then the parameters.  The
    value of a header field is that of all its occurrences, trimmed and joined.
  * `Verifier.check` is `Verify` up to the use of the nonce.  It reads the header fields
    it reports with `Header.Get`, which is the first occurrence as it stands.

  A header maps the canonical name of a field to its values, and a request carries the
  escaped path of its URL.  Times are in nanoseconds; the parameters `created` and
  `expires` are in seconds.  (Go's times wrap around for seconds near the ends of
  `int64`; such parameters are refused in either reading.)
-/
import Sshstate.Protocol.Suite
import Sshstate.Httpsig.Fields

namespace Sshstate.Httpsig

/-! ## Constants -/

def label : Bytes := ascii "sshstate"
def tag : Bytes := ascii "sshstate.request.v1"
def signingDomain : String := "sshstate.request.v1"

/-- `time.Second`. -/
def second : ℤ := 10 ^ 9

def maxValidity : ℤ := 300 * second
def skewTolerance : ℤ := 60 * second
def nonceBytes : ℕ := 16
def defaultMaxHeaderBytes : ℕ := 16 * 2 ^ 10

def headerSignature : Bytes := ascii "Signature"
def headerSignatureInput : Bytes := ascii "Signature-Input"
def headerContentDigest : Bytes := ascii "Content-Digest"
def headerVault : Bytes := ascii "SSHState-Vault"
def headerDevice : Bytes := ascii "SSHState-Device"
def headerIdempotency : Bytes := ascii "Idempotency-Key"

def contentDigestAlgorithm : Bytes := ascii "sha-256"

def componentMethod : Bytes := ascii "@method"
def componentAuthority : Bytes := ascii "@authority"
def componentPath : Bytes := ascii "@path"
def componentQuery : Bytes := ascii "@query"
def componentSignatureParams : Bytes := ascii "@signature-params"

def paramOrder : List Bytes := ["created", "expires", "nonce", "keyid", "tag"].map ascii

/-! ## Messages -/

variable (L : GoLib)

/-- `http.Header`: the values of a field under its canonical name. -/
def Header := Bytes → List Bytes

/-- `Header.Values`. -/
def Header.values (h : Header) (name : Bytes) : List Bytes := h (L.canonicalKey name)

/-- `Header.Get`: the first value of a field. -/
def Header.get (h : Header) (name : Bytes) : Bytes := (h.values L name).head?.getD []

structure Request where
  method : Bytes
  host : Bytes
  /-- `URL.Host` -/
  urlHost : Bytes
  /-- `URL.EscapedPath()` -/
  escapedPath : Bytes
  /-- `URL.RawQuery` -/
  rawQuery : Bytes
  header : Header

structure Message where
  method : Bytes
  authority : Bytes
  path : Bytes
  query : Bytes
  fields : Header

/-- `strings.LastIndexByte`. -/
def lastIndexByte (s : Bytes) (c : UInt8) : ℤ :=
  if c ∈ s then s.length - 1 - (s.reverse.idxOf c : ℤ) else -1

def normalizeAuthority (authority : Bytes) (https : Bool) : Bytes :=
  let authority := L.toLower (L.trimSpace authority)
  let defaultPort := if https then ascii ":443" else ascii ":80"
  let i := lastIndexByte authority colon
  if lastIndexByte authority rightBracket < i ∧ authority.drop i.toNat = defaultPort then
    authority.take i.toNat
  else authority

def fromRequest (r : Request) (https : Bool) : Except Error Message := do
  let authority := if r.host = [] then r.urlHost else r.host
  Except.require (authority ≠ []) (.new "request has no authority")
  .ok { method := L.toUpper r.method
        authority := normalizeAuthority L authority https
        path := if r.escapedPath = [] then ascii "/" else r.escapedPath
        query := r.rawQuery
        fields := r.header }

/-- The three calls of `strings.ReplaceAll`: a line break becomes a space. -/
def unbroken : Bytes → Bytes
  | [] => []
  | [c] => if c = newline ∨ c = return_ then [space] else [c]
  | c :: d :: cs =>
    if c = return_ ∧ d = newline then space :: unbroken cs
    else (if c = newline ∨ c = return_ then space else c) :: unbroken (d :: cs)

def fieldValue (h : Header) (name : Bytes) : Option Bytes :=
  match h.values L (L.canonicalKey name) with
  | [] => none
  | values => some ((ascii ", ").intercalate (values.map fun v => L.trimSpace (unbroken v)))

def componentValue (m : Message) (c : Bytes) : Except Error Bytes :=
  if c.head? = some 0x40 then
    if c = componentMethod then .ok m.method
    else if c = componentAuthority then .ok m.authority
    else if c = componentPath then .ok m.path
    else if c = componentQuery then .ok (ascii "?" ++ m.query)
    else if c = componentSignatureParams then
      .error (.new
        "@signature-params is added last and must not be listed as a covered component")
    else .error (.errorf "derived component %q is not implemented" [goText c])
  else if c ≠ L.toLower c then
    .error (.errorf "field component %q must be lowercase" [goText c])
  else match fieldValue L m.fields c with
    | none => .error (.errorf "covered field %q is not present in the message" [goText c])
    | some value => .ok value

/-- The lines of the covered components. -/
def coveredLines (m : Message) (seen : List Bytes) : List Bytes → Except Error Bytes
  | [] => .ok []
  | c :: cs => do
    Except.require (c ∉ seen) (.errorf "component %q is covered twice" [goText c])
    let value ← componentValue L m c
    let id ← quoteString c
    let lines ← coveredLines m (c :: seen) cs
    .ok (id ++ ascii ": " ++ value ++ newline :: lines)

def base (m : Message) (params : SignatureParams) : Except Error Bytes := do
  let lines ← coveredLines L m [] params.components
  let value ← params.value L
  .ok (lines ++ ascii "\"@signature-params\": " ++ value)

/-! ## Verification -/

def expectedComponents (h : Header) (hasBody : Bool) : List Bytes :=
  [componentMethod, componentAuthority, componentPath, componentQuery] ++
    (if hasBody then [L.toLower headerContentDigest] else []) ++
    [L.toLower headerVault, L.toLower headerDevice] ++
    (if h.get L headerIdempotency ≠ [] then [L.toLower headerIdempotency] else [])

def intParam (p : SignatureParams) (name : String) : Option ℤ :=
  match p.param (ascii name) with
  | some (.int64 n) => some n
  | _ => none

def stringParam (p : SignatureParams) (name : String) : Option Bytes :=
  match p.param (ascii name) with
  | some (.string s) => some s
  | _ => none

/-- `protocol.ID` of a string. -/
def idOf (s : Bytes) : ID := s.map fun c => Char.ofNat c.toNat

structure Result where
  vaultID : ID
  deviceID : ID
  created : ℤ
  expires : ℤ
  nonce : Bytes
  idempotencyKey : Bytes
  deriving DecidableEq, Repr

structure Verifier where
  resolveVerifyKey : ID → ID → Except Error Bytes
  maxHeaderBytes : ℤ

namespace Verifier

variable (V : Verifier)

def maxHeader : ℤ := if 0 < V.maxHeaderBytes then V.maxHeaderBytes else defaultMaxHeaderBytes

def checkSize (name value : Bytes) : Except Error Unit :=
  Except.require ((value.length : ℤ) ≤ V.maxHeader)
    (.protocol .headerTooLarge "%s is %d bytes, above the %d-byte limit"
      [goText name, toString value.length, toString V.maxHeader])

/-- The first half of `Verify`: the signature and its parameters.  (The source looks
    at the sizes of the two fields in no fixed order.) -/
def parseSignature (r : Request) : Except Error (Bytes × SignatureParams) := do
  let rawInput := r.header.get L headerSignatureInput
  let rawSig := r.header.get L headerSignature
  Except.require (rawInput ≠ [] ∧ rawSig ≠ [])
    (.protocol .signatureInvalid "request is not signed" [])
  V.checkSize headerSignatureInput rawInput
  V.checkSize headerSignature rawSig
  Except.require ((r.header.values L headerSignatureInput).length = 1 ∧
      (r.header.values L headerSignature).length = 1)
    (.protocol .signatureInvalid "exactly one signature is required" [])
  let inputValue ← (parseDictionaryMember L rawInput label).mapError fun e =>
    .protocol .signatureInvalid "%s: %v" [goText headerSignatureInput, e.text]
  let sigValue ← (parseDictionaryMember L rawSig label).mapError fun e =>
    .protocol .signatureInvalid "%s: %v" [goText headerSignature, e.text]
  let sig ← (parseByteSequence L sigValue).mapError fun e =>
    .protocol .signatureInvalid "%s: %v" [goText headerSignature, e.text]
  let params ← (parseSignatureParams L inputValue).mapError fun e =>
    .protocol .signatureInvalid "%s: %v" [goText headerSignatureInput, e.text]
  Except.require ((params.value L).toOption = some inputValue)
    (.protocol .signatureInvalid "%s is not in this profile's canonical form"
      [goText headerSignatureInput])
  .ok (sig, params)

def checkShape (r : Request) (params : SignatureParams) (hasBody : Bool) : Except Error Unit := do
  let want := expectedComponents L r.header hasBody
  Except.require (params.components = want)
    (.protocol .signatureInvalid "covered components are %v, this profile requires %v"
      [listText params.components, listText want])
  let names := params.params.map (·.name)
  Except.require (names = paramOrder)
    (.protocol .signatureInvalid "signature parameters are %v, this profile requires %v"
      [listText names, listText paramOrder])
  Except.require (¬ (hasBody = true ∧ r.header.get L headerContentDigest = []))
    (.protocol .invalidRequest "a request with a body must carry %s" [goText headerContentDigest])
  Except.require (¬ (hasBody = false ∧ r.header.get L headerContentDigest ≠ []))
    (.protocol .invalidRequest "%s is present on a request with no body"
      [goText headerContentDigest])

/-- A parameter, or the error that it has the wrong type. -/
def required {α : Type} (value : Option α) (text : String) : Except Error α :=
  match value with
  | some a => .ok a
  | none => .error (.protocol .signatureInvalid text [])

/-- `checkParams` at the time `now`. -/
def checkParams (now : ℤ) (r : Request) (params : SignatureParams) : Except Error Result := do
  let created ← required (intParam params "created") "created is not an integer"
  let expires ← required (intParam params "expires") "expires is not an integer"
  let nonce ← required (stringParam params "nonce") "nonce is not a string"
  let keyid ← required (stringParam params "keyid") "keyid is not a string"
  Except.require (stringParam params "tag" = some tag)
    (.protocol .signatureInvalid "tag is not %q" [goText tag])
  let createdAt := created * second
  let expiresAt := expires * second
  Except.require (createdAt < expiresAt)
    (.protocol .signatureInvalid "expires is not after created" [])
  Except.require (expiresAt - createdAt ≤ maxValidity)
    (.protocol .signatureInvalid "validity window is %s, the limit is %s"
      [L.durationText (expiresAt - createdAt), L.durationText maxValidity])
  Except.require (createdAt ≤ now + skewTolerance)
    (.protocol .signatureExpired "signature was created in the future" [])
  Except.require (now ≤ expiresAt + skewTolerance)
    (.protocol .signatureExpired "signature expired at %s" [L.rfc3339 expiresAt])
  Except.require ((L.decodeRawURL nonce).map List.length = some nonceBytes)
    (.protocol .signatureInvalid "nonce must be %d bytes of unpadded base64url"
      [toString nonceBytes])
  let vaultID := r.header.get L headerVault
  let deviceID := r.header.get L headerDevice
  Except.require ((idOf vaultID).valid = true ∧ (idOf deviceID).valid = true)
    (.protocol .invalidRequest "%s and %s must be 128-bit lowercase hex ids"
      [goText headerVault, goText headerDevice])
  Except.require (keyid = deviceID)
    (.protocol .signatureInvalid "keyid does not match %s" [goText headerDevice])
  .ok { vaultID := idOf vaultID
        deviceID := idOf deviceID
        created := createdAt
        expires := expiresAt
        nonce := nonce
        idempotencyKey := r.header.get L headerIdempotency }

end Verifier

variable (C : Suite)

def checkContentDigest (r : Request) (body : Bytes) : Except Error Unit := do
  let header := r.header.get L headerContentDigest
  if header = [] then .ok ()
  else do
    let value ← (parseDictionaryMember L header contentDigestAlgorithm).mapError fun e =>
      .protocol .invalidRequest "%s must be a single %s entry: %v"
        [goText headerContentDigest, goText contentDigestAlgorithm, e.text]
    let want ← (parseByteSequence L value).mapError fun e =>
      .protocol .invalidRequest "%s: %v" [goText headerContentDigest, e.text]
    Except.require (want = C.sha256 body)
      (.protocol .digestMismatch "%s does not match the body" [goText headerContentDigest])

/-- `Verify` up to the use of the nonce, at the time `now`. -/
def Verifier.check (V : Verifier) (now : ℤ) (r : Request) (body : Bytes) (https : Bool) :
    Except Error Result := do
  let (sig, params) ← V.parseSignature L r
  checkShape L r params (body ≠ [])
  let result ← checkParams L now r params
  checkContentDigest L C r body
  let key ← V.resolveVerifyKey result.vaultID result.deviceID
  let msg ← (fromRequest L r https).mapError fun e => .protocol .invalidRequest "%v" [e.text]
  let base ← (base L msg params).mapError fun e => .protocol .signatureInvalid "%v" [e.text]
  Except.require (C.verify key signingDomain base sig = true)
    (.protocol .signatureInvalid "signature does not verify" [])
  .ok result

end Sshstate.Httpsig
