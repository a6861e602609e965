/-
  Entries of `known_hosts` and the destinations they are for (`internal/knownhosts`:
  `knownhosts.go`).

  Texts are byte strings.  `Library` holds what the source takes from its libraries: the
  lower case of a character, base64 and HMAC.
-/
import Sshstate.Lib.Utf8
import Sshstate.Protocol.Basic

namespace Sshstate.Knownhosts

/-- Functions of the libraries. -/
structure Library where
  /-- `unicode.ToLower`. -/
  lower : Char → Char
  /-- `base64.StdEncoding.DecodeString`. -/
  decodeBase64 : Bytes → Option Bytes
  /-- HMAC with SHA-1 of a key and a message. -/
  hmacSha1 : Bytes → Bytes → Bytes

/-- `Entry`; a key is kept in its wire form. -/
structure Entry where
  line : Bytes
  lineNo : ℕ
  marker : Bytes
  patterns : List Bytes
  hashed : Bool
  keyType : Bytes
  fingerprint : Bytes
  key : Bytes
  digest : Bytes
  deriving DecidableEq, Repr

/-- `'*'`. -/
def star : UInt8 := 42

/-- `'?'`. -/
def question : UInt8 := 63

/-- `'!'`. -/
def bang : UInt8 := 33

/-- `'|'`. -/
def pipe : UInt8 := 124

/-- `globMatch`.  The inner loop tries every tail of the subject, from the longest. -/
def globMatch (pattern s : Bytes) : Bool :=
  match pattern with
  | [] => s = []
  | c :: pattern =>
    if c = star then
      match h : pattern.dropWhile (· = star) with
      | [] => true
      | d :: rest => s.tails.any fun t => globMatch (d :: rest) t
    else if c = question then
      match s with
      | [] => false
      | _ :: s => globMatch pattern s
    else
      match s with
      | [] => false
      | b :: s => if b ≠ c then false else globMatch pattern s
termination_by pattern.length
decreasing_by
  · have hle := (List.dropWhile_suffix (l := pattern) (· = star)).length_le
    rw [h] at hle
    exact Nat.lt_succ_of_le hle
  · exact Nat.lt_succ_self _
  · exact Nat.lt_succ_self _

/-- `matchPattern`. -/
def matchPattern (lib : Library) (pattern s : Bytes) : Bool :=
  globMatch (Utf8.toLower lib.lower pattern) (Utf8.toLower lib.lower s)

/-- `strings.HasPrefix(p, "!")`. -/
def negated (p : Bytes) : Bool := p.head? = some bang

/-- `strings.TrimPrefix(p, "!")`. -/
def trimBang (p : Bytes) : Bytes := if negated p then p.tail else p

/-- The loop of `Entry.Matches`. -/
def matchLoop (lib : Library) (dest : Bytes) : (matched : Bool) → List Bytes → Bool
  | matched, [] => matched
  | matched, p :: ps =>
    if matchPattern lib (trimBang p) dest = false then matchLoop lib dest matched ps
    else if negated p then false
    else matchLoop lib dest true ps

/-- `Entry.matchesHashed`. -/
def Entry.matchesHashed (lib : Library) (e : Entry) (dest : Bytes) : Bool :=
  match (e.patterns.headD []).splitOn pipe with
  | [_, version, salt, want] =>
    if version ≠ [49] then false
    else
      match lib.decodeBase64 salt, lib.decodeBase64 want with
      | some salt, some want => lib.hmacSha1 salt dest = want
      | _, _ => false
  | _ => false

/-- `Entry.Matches`. -/
def Entry.matches (lib : Library) (e : Entry) (dest : Bytes) : Bool :=
  if e.hashed then e.matchesHashed lib dest else matchLoop lib dest false e.patterns

end Sshstate.Knownhosts
