/-
  Signing a request (`Signer` in `internal/httpsig/profile.go`), and a small instance of
  the library on which concrete requests are signed and verified.

  The random nonce and the randomness of the signature are arguments.  In the instance
  every string is ASCII, a base64 text is the bytes themselves with `0xff` and `0xfe` in
  the place of the colon and the newline, and the names of header fields are kept in
  lower case.
-/
import Sshstate.Protocol.Sample
import Sshstate.Httpsig.Verify

namespace Sshstate.Httpsig

variable (L : GoLib) (C : Suite)

/-- `Header.Set`. -/
def Header.set (h : Header) (name value : Bytes) : Header := fun key =>
  if key = L.canonicalKey name then [value] else h key

/-- `Header.Del`. -/
def Header.del (h : Header) (name : Bytes) : Header := fun key =>
  if key = L.canonicalKey name then [] else h key

/-- `[]byte` of an id. -/
def idBytes (id : ID) : Bytes := id.map fun c => c.toNat.toUInt8

structure Signer where
  vaultID : ID
  deviceID : ID
  key : Bytes
  maxHeaderBytes : ℤ

namespace Signer

variable (S : Signer)

def maxHeader : ℤ := if 0 < S.maxHeaderBytes then S.maxHeaderBytes else defaultMaxHeaderBytes

def checkSize (name value : Bytes) : Except Error Unit :=
  Except.require ((value.length : ℤ) ≤ S.maxHeader)
    (.protocol .headerTooLarge
      "%s would be %d bytes, above the %d-byte limit; raise the limit on the reverse proxy and on both ends rather than truncating it"
      [goText name, toString value.length, toString S.maxHeader])

/-- The request with the identity of the signer and the digest of the body. -/
def address (r : Request) (body : Bytes) : Request :=
  let header := (r.header.set L headerVault (idBytes S.vaultID)).set L headerDevice
    (idBytes S.deviceID)
  let digest := dictionaryMember contentDigestAlgorithm (byteSequence L (C.sha256 body))
  { r with header :=
      if body = [] then header.del L headerContentDigest
      else header.set L headerContentDigest digest }

def params (now : ℤ) (nonce : Bytes) (r : Request) (body : Bytes) : SignatureParams where
  components := expectedComponents L r.header (body ≠ [])
  params := [
    ⟨ascii "created", .int64 (now / second)⟩,
    ⟨ascii "expires", .int64 (now / second + 300)⟩,
    ⟨ascii "nonce", .string (L.encodeRawURL nonce)⟩,
    ⟨ascii "keyid", .string (idBytes S.deviceID)⟩,
    ⟨ascii "tag", .string tag⟩]

/-- `Sign` at the time `now`. -/
def sign (now : ℤ) (nonce entropy : Bytes) (r : Request) (body : Bytes) (https : Bool) :
    Except Error Request := do
  Except.require (S.vaultID.valid = true ∧ S.deviceID.valid = true)
    (.protocol .internal "signer has no vault or device identity" [])
  let r := S.address L C r body
  let params := S.params L now nonce r body
  let msg ← (fromRequest L r https).mapError fun e => .protocol .invalidRequest "%v" [e.text]
  let base ← (base L msg params).mapError fun e => .protocol .invalidRequest "%v" [e.text]
  let sig := C.sign S.key entropy signingDomain base
  let value ← (params.value L).mapError fun e => .protocol .internal "%v" [e.text]
  let input := dictionaryMember label value
  let signature := dictionaryMember label (byteSequence L sig)
  S.checkSize headerSignatureInput input
  S.checkSize headerSignature signature
  .ok { r with header :=
    (r.header.set L headerSignatureInput input).set L headerSignature signature }

end Signer

/-! ## An instance -/

namespace Sample

def upperByte (c : UInt8) : UInt8 := if 0x61 ≤ c ∧ c ≤ 0x7a then c - 0x20 else c

def isSpace (c : UInt8) : Bool := c = space || (0x09 ≤ c && c ≤ 0x0d)

def trimSpace (s : Bytes) : Bytes :=
  ((s.dropWhile isSpace).reverse.dropWhile isSpace).reverse

def encodeByte (c : UInt8) : UInt8 :=
  if c = colon then 0xff else if c = newline then 0xfe else c

def decodeByte (c : UInt8) : UInt8 :=
  if c = 0xff then colon else if c = 0xfe then newline else c

def parseInt (s : Bytes) : Option ℤ :=
  if s ≠ [] ∧ s.all (fun c => 0x30 ≤ c && c ≤ 0x39) = true then
    some (s.foldl (fun n c => n * 10 + (c.toNat - 0x30 : ℕ)) 0)
  else none

def formatInt (n : ℤ) : Bytes := (Nat.toDigits 10 n.toNat).map fun c => c.toNat.toUInt8

end Sample

def goSample : GoLib where
  toUpper := List.map Sample.upperByte
  toLower := List.map lowerByte
  trimSpace := Sample.trimSpace
  canonicalKey := List.map lowerByte
  parseInt := Sample.parseInt
  formatInt := Sample.formatInt
  encodeStd := List.map Sample.encodeByte
  decodeStd := fun s => .ok (s.map Sample.decodeByte)
  encodeRawURL := id
  decodeRawURL := some
  durationText := fun _ => ""
  rfc3339 := fun _ => ""

section

-- `decide` goes through all bytes
set_option maxRecDepth 2000

theorem lowerByte_lowerByte (c : UInt8) : lowerByte (lowerByte c) = lowerByte c := by
  revert c; decide

theorem Sample.lowerByte_newline (c : UInt8) (h : lowerByte c = newline) : c = newline := by
  revert c; decide

theorem Sample.upperByte_newline (c : UInt8) (h : upperByte c = newline) : c = newline := by
  revert c; decide

theorem Sample.isSpace_graphic (c : UInt8) (h : 0x21 ≤ c ∧ c ≤ 0x7e) : isSpace c = false := by
  revert c; decide

theorem Sample.encodeByte_ne_colon (c : UInt8) : encodeByte c ≠ colon := by
  revert c; decide

end

theorem Sample.trimSpace_infix (s : Bytes) : trimSpace s <:+: s := by
  have h : trimSpace s <+: s.dropWhile isSpace := by
    have := List.dropWhile_suffix (l := (s.dropWhile isSpace).reverse) isSpace
    exact List.reverse_suffix.1 (by rwa [trimSpace, List.reverse_reverse])
  exact h.isInfix.trans (List.dropWhile_suffix isSpace).isInfix

theorem Sample.trimSpace_graphic (s : Bytes) (h : ∀ c ∈ s, 0x21 ≤ c ∧ c ≤ 0x7e) :
    trimSpace s = s := by
  have hdrop : ∀ l : Bytes, (∀ c ∈ l, 0x21 ≤ c ∧ c ≤ 0x7e) → l.dropWhile isSpace = l := by
    intro l hl
    cases l with
    | nil => rfl
    | cons c cs => simp [isSpace_graphic c (hl c List.mem_cons_self)]
  rw [trimSpace, hdrop s h, hdrop s.reverse (fun c hc => h c (List.mem_reverse.1 hc)),
    List.reverse_reverse]

theorem goSample_lawful : goSample.Lawful where
  toUpper_newline := fun s hs h => by
    obtain ⟨c, hc, heq⟩ := List.mem_map.1 h
    exact hs (Sample.upperByte_newline c heq ▸ hc)
  toLower_newline := fun s hs h => by
    obtain ⟨c, hc, heq⟩ := List.mem_map.1 h
    exact hs (Sample.lowerByte_newline c heq ▸ hc)
  toLower_ascii := fun _ _ => rfl
  trimSpace_infix := Sample.trimSpace_infix
  trimSpace_space := fun _ => rfl
  trimSpace_graphic := Sample.trimSpace_graphic
  canonicalKey_eq := fun _ _ _ _ => Iff.rfl
  canonicalKey_idem := fun a _ => by
    simp [goSample, List.map_map, Function.comp_def, lowerByte_lowerByte]
  encodeStd_colon := fun b h => by
    obtain ⟨c, -, hc⟩ := List.mem_map.1 h
    exact Sample.encodeByte_ne_colon c hc

namespace Sample

/-- The signer and the relay's view of it. -/
def signer : Signer := ⟨Sshstate.Sample.id 1, Sshstate.Sample.id 2, [4], 0⟩

def verifier : Verifier := ⟨fun _ _ => .ok [4], 0⟩

/-- A request with the given values of `Idempotency-Key`. -/
def request (keys : List Bytes) : Request where
  method := ascii "PUT"
  host := ascii "relay.example:443"
  urlHost := []
  escapedPath := ascii "/v1/records/1"
  rawQuery := []
  header := fun key => if key = goSample.canonicalKey headerIdempotency then keys else []

def nonce (n : UInt8) : Bytes := List.replicate 15 0x41 ++ [n]

/-- The request signed at the time `0`. -/
def signed (n : UInt8) (keys : List Bytes) (body : Bytes) : Except Error Request :=
  signer.sign goSample sample 0 (nonce n) [] (request keys) body true

end Sample

end Sshstate.Httpsig
