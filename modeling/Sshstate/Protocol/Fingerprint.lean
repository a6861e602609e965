/-
  Fingerprints of digests (`internal/protocol`: `fingerprint.go`).

  A fingerprint is the base32 text of a SHA-256 digest.  `parseFingerprint` reads it from any
  byte string: letters of either case, with blanks, line breaks and hyphens between them.
-/
import Sshstate.Lib.Base32
import Sshstate.Lib.Utf8
import Sshstate.Protocol.Basic

namespace Sshstate

/-- `FingerprintChars`. -/
def fingerprintChars : ℕ := 52

/-- `Fingerprint`. -/
def fingerprint (digest : Bytes) : Except Error Bytes := do
  .require (digest.length = sha256Size)
    (.errorf "fingerprint needs a %d-byte digest, got %d" [toString sha256Size, toString digest.length])
  let s := Base32.encode digest
  .require (s.length = fingerprintChars) (.errorf "fingerprint encoded to %d characters, expected %d"
    [toString s.length, toString fingerprintChars])
  return s

/-- The slices of four characters. -/
def groupsOfFour : Bytes → List Bytes
  | a :: b :: c :: d :: s => [a, b, c, d] :: groupsOfFour s
  | [] => []
  | s => [s]

/-- `FingerprintGroups`. -/
def fingerprintGroups (digest : Bytes) : Except Error (List Bytes) := do
  let s ← fingerprint digest
  return groupsOfFour s

/-- The separators between the characters of a fingerprint. -/
def isSeparator (r : Char) : Bool := r = ' ' ∨ r = '\t' ∨ r = '\n' ∨ r = '\r' ∨ r = '-'

/-- The loop of `ParseFingerprint`: the characters without the separators, in upper case. -/
def cleanFingerprint : List Char → Except Error Bytes
  | [] => .ok []
  | r :: rs =>
    if ('A' ≤ r ∧ r ≤ 'Z') ∨ ('2' ≤ r ∧ r ≤ '7') then do
      let clean ← cleanFingerprint rs
      return UInt8.ofNat r.toNat :: clean
    else if 'a' ≤ r ∧ r ≤ 'z' then do
      let clean ← cleanFingerprint rs
      return UInt8.ofNat (r.toNat - 'a'.toNat + 'A'.toNat) :: clean
    else if isSeparator r then cleanFingerprint rs
    else .error (.errorf "fingerprint contains %q, which is not in the alphabet" [String.singleton r])

/-- `ParseFingerprint`. -/
def parseFingerprint (s : Bytes) : Except Error Bytes := do
  let text ← cleanFingerprint (Utf8.runes s)
  .require (text.length = fingerprintChars) (.errorf "fingerprint has %d characters, expected %d"
    [toString text.length, toString fingerprintChars])
  match Base32.decode text with
  | none => .error (.wrap "fingerprint is not valid base32: %w" [] (.new "illegal base32 data"))
  | some digest =>
    .require (digest.length = sha256Size) (.new "fingerprint did not decode to a 32-byte digest")
    .require (Base32.encode digest = text)
      (.new "fingerprint has non-zero unused bits in its final character")
    return digest

end Sshstate
