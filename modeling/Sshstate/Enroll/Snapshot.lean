/-
  The snapshot in the bundle of a new device (`internal/enroll`: `bundle.go`).

  A snapshot is one line of canonical JSON for every record, sorted by record id with the
  same loop as the members of an export (`Export.sortEnvelopes`).
-/
import Sshstate.Enroll.Pairing
import Sshstate.Export.Archive

namespace Sshstate.Enroll.Snapshot

open Export (newline joinLines sortEnvelopes)

variable (D : ByteDecoder)

/-- `BuildSnapshot`. -/
def build (envs : List Envelope) : Except Error Bytes := do
  let b := joinLines ((sortEnvelopes envs).map (Envelope.codec D.toDecoder).canonicalBytes)
  .require (b.length ≤ maxSnapshotBytes) (.errorf "snapshot is %d bytes, the limit is %d"
    [toString b.length, toString maxSnapshotBytes])
  return b

/-- The loop of `ParseSnapshot`; `i` lines have been read. -/
def parseLines : (i : ℕ) → List Bytes → Except Error (List Envelope)
  | _, [] => .ok []
  | i, line :: rest =>
    if line = [] then parseLines (i + 1) rest
    else do
      let env ← (strictUnmarshalBytes D (Envelope.codec D.toDecoder) .zero line).mapError
        (.wrap "snapshot line %d: %w" [toString (i + 1)])
      return env :: (← parseLines (i + 1) rest)

/-- `ParseSnapshot`. -/
def parse (raw : Bytes) : Except Error (List Envelope) := do
  .require (raw.length ≤ maxSnapshotBytes) (.errorf "snapshot is %d bytes, the limit is %d"
    [toString raw.length, toString maxSnapshotBytes])
  parseLines D 0 ((raw.rdropWhile (· = newline)).splitOn newline)

end Sshstate.Enroll.Snapshot
