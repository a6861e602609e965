/-
  Encrypted exports (`internal/export/export.go`, and `ExportManifest.Validate` in
  `internal/protocol/bundle.go`).

  An archive is the line `Magic`, the line of the signed manifest and the bodies of its
  members one after the other, sealed to the recovery recipient.  `build` writes it and
  `openArchive` (`Open`) cuts the bodies out again by the lengths of the manifest.

  The lengths are `uint64` and the offsets `int`: a conversion and a sum wrap around, and
  a slice out of range ends the program, which is the outcome `Fault.panic`.  What is hashed
  and signed is encoded by the suite, the bodies are the texts themselves.
-/
import Sshstate.Membership.Chain
import Sshstate.Protocol.Codec
import Sshstate.Protocol.Pairing

namespace Sshstate

/-- `ExportDomain`. -/
def exportDomain : String := "sshstate.export.v1"

/-- `ExportSignatureDomain`. -/
def exportSignatureDomain : String := "sshstate.export-sig.v1"

/-! ## Manifests -/

/-- `MemberGenesis`. -/
def memberGenesis : String := "genesis.json"

/-- `MemberMembership`. -/
def memberMembership : String := "membership.jsonl"

/-- `MemberRecords`. -/
def memberRecords : String := "records.jsonl"

/-- `MemberConflicts`. -/
def memberConflicts : String := "conflicts.jsonl"

/-- `MemberBundle`. -/
def memberBundle : String := "bundle.json"

/-- The names of the members, in the order `Build` writes them. -/
def memberNames : List String :=
  [memberBundle, memberConflicts, memberGenesis, memberMembership, memberRecords]

namespace ExportManifest

/-- The loop of `ExportManifest.Validate` over the members; `before` are those passed. -/
def validateMembers : (before : List ExportMember) → List ExportMember → Except Error Unit
  | _, [] => .ok ()
  | before, m :: ms => do
    .require (m.name ∈ memberNames) (.errorf "unknown export member %q" [m.name])
    .require (m.name ∉ before.map (·.name)) (.errorf "export member %q is named twice" [m.name])
    .require (∀ p ∈ before.getLast?, p.name < m.name)
      (.errorf "export members are not sorted: %q follows %q"
        [m.name, (before.getLast?.map (·.name)).getD ""])
    .require (m.digest.length = sha256Size) (.errorf "export member %q has a %d-byte digest"
      [m.name, toString m.digest.length])
    validateMembers (before ++ [m]) ms

/-- `ExportManifest.Validate`.  The name of a missing member is one of several, if several are
    missing: the source takes them from a map. -/
def validate (C : Suite) (m : ExportManifest) (expectSuite : String) : Except Error Unit := do
  .require (m.domain = exportDomain)
    (.errorf "export domain %q is not %q" [m.domain, exportDomain])
  .require (m.formatVersion = 1)
    (.errorf "unsupported export format version %d" [toString m.formatVersion])
  .require (m.suite = expectSuite)
    (.errorf "export uses suite %q, this build implements %q" [m.suite, expectSuite])
  ID.check m.vaultID "vault_id"
  ID.check m.exportedBy "exported_by"
  .require (m.genesisDigest.length = sha256Size)
    (.errorf "genesis_digest must be %d bytes" [toString sha256Size])
  .require (1 ≤ m.keyEpoch) (.new "key_epoch starts at 1")
  .require ((C.parseTime m.createdAt).isSome = true) (.new "export created_at is not RFC 3339")
  (m.checkpoint.validate C).mapError (.wrap "export checkpoint: %w" [])
  .require (m.checkpoint.vaultID = m.vaultID) (.new "the export's checkpoint names another vault")
  .require (m.checkpoint.keyEpoch = m.keyEpoch)
    (.new "the export's checkpoint is at another epoch")
  validateMembers [] m.members
  .require (∀ name ∈ memberNames, name ∈ m.members.map (·.name))
    (.errorf "the export does not name %q"
      [(memberNames.find? (· ∉ m.members.map (·.name))).getD ""])

end ExportManifest

namespace Export

variable (C : Suite)

/-- `Magic`. -/
def magic : String := "sshstate-export-v1"

/-- `MaxArchiveBytes`, which is `crypto.MaxStreamBytes`. -/
def maxArchiveBytes : ℕ := 256 * 2 ^ 20

/-- `Contents`; a pointer that may be `nil` is an option. -/
structure Contents where
  genesis : Option Genesis
  membership : List SignedMembershipEvent
  records : List Envelope
  conflicts : List Envelope
  bundle : Option SignedBundle
  deriving DecidableEq

/-- `Archive`. -/
structure Archive where
  manifest : ExportManifest
  contents : Contents
  deriving DecidableEq

/-! ## Lines -/

/-- `'\n'`. -/
def newline : UInt8 := 10

/-- The lines of a member, each closed by a newline. -/
def joinLines (lines : List Bytes) : Bytes := lines.flatMap (· ++ [newline])

/-- `encodeEvents`. -/
def encodeEvents (D : Decoder) (events : List SignedMembershipEvent) : Bytes :=
  joinLines (events.map (SignedMembershipEvent.codec D).canonicalBytes)

/-- The inner loop of `encodeEnvelopes`: `env` moves towards the front of the envelopes before
    it, which are given from the last to the first. -/
def sink (env : Envelope) : List Envelope → List Envelope
  | [] => [env]
  | p :: ps => if env.context.recordID < p.context.recordID then p :: sink env ps else env :: p :: ps

/-- The order in which `encodeEnvelopes` writes. -/
def sortEnvelopes (envs : List Envelope) : List Envelope :=
  (envs.foldl (fun sorted env => sink env sorted) []).reverse

/-- `encodeEnvelopes`. -/
def encodeEnvelopes (D : Decoder) (envs : List Envelope) : Bytes :=
  joinLines ((sortEnvelopes envs).map (Envelope.codec D).canonicalBytes)

/-- `lines`. -/
def lines (raw : Bytes) : List Bytes :=
  if raw = [] then []
  else ((raw.rdropWhile (· = newline)).splitOn newline).filter (· ≠ [])

/-- The loop of `decodeEvents` and `decodeEnvelopes`; `i` lines have been read. -/
def decodeLines {α : Type} (D : ByteDecoder) (c : Codec α) (zero : α) (format : String) :
    (i : ℕ) → List Bytes → Except Error (List α)
  | _, [] => .ok []
  | i, line :: rest => do
    let a ← (strictUnmarshalBytes D c zero line).mapError (.wrap format [toString (i + 1)])
    return a :: (← decodeLines D c zero format (i + 1) rest)

/-! ## Zero values -/

def zeroGenesis : Genesis :=
  { domain := "", formatVersion := 0, suite := "", vaultID := [], createdAt := "",
    firstDeviceID := [], firstDeviceVerifyKey := [], firstDeviceRecipient := "",
    recoveryVerifyKey := [], recoveryRecipient := "" }

def zeroEvent : SignedMembershipEvent :=
  { event := { domain := "", formatVersion := 0, suite := "", vaultID := [], eventID := [],
               chainSeq := 0, parentDigest := none, action := .other "", deviceID := [],
               deviceVerifyKey := none, deviceRecipient := none, transcriptDigest := none,
               authority := .other "", authorizedBy := [], createdAt := "" }
    signature := [] }

def zeroBundle : SignedBundle :=
  { bundle := { domain := "", formatVersion := 0, suite := "", vaultID := [], genesisDigest := [],
                purpose := .other "", recipientDeviceID := none, recipient := "", keyEpoch := 0,
                metadataKey := [], secretKey := [], transcriptDigest := none, checkpoint := .zero,
                snapshotDigest := none, snapshotLength := none, rotationID := none,
                epochHistory := [], createdAt := "" }
    signature := [] }

def zeroManifest : SignedExportManifest :=
  { manifest := { domain := "", formatVersion := 0, suite := "", vaultID := [], genesisDigest := [],
                  keyEpoch := 0, exportedBy := [], createdAt := "", checkpoint := .zero,
                  members := [] }
    signature := [] }

/-- `decodeEvents`. -/
def decodeEvents (D : ByteDecoder) (raw : Bytes) : Except Error (List SignedMembershipEvent) :=
  decodeLines D (SignedMembershipEvent.codec D.toDecoder) zeroEvent "membership line %d: %w" 0
    (lines raw)

/-- `decodeEnvelopes`. -/
def decodeEnvelopes (D : ByteDecoder) (raw : Bytes) : Except Error (List Envelope) :=
  decodeLines D (Envelope.codec D.toDecoder) .zero "record line %d: %w" 0 (lines raw)

/-! ## Build -/

/-- `Signer.Sign`. -/
abbrev Signer := (domain : String) → (msg : Bytes) → Except Error Bytes

/-- The members with their bodies, in the order of `names`. -/
def bodies (D : Decoder) (c : Contents) (g : Genesis) (b : SignedBundle) : List (String × Bytes) :=
  [(memberBundle, (SignedBundle.codec D).canonicalBytes b),
   (memberConflicts, encodeEnvelopes D c.conflicts),
   (memberGenesis, (Genesis.codec D).canonicalBytes g),
   (memberMembership, encodeEvents D c.membership),
   (memberRecords, encodeEnvelopes D c.records)]

def memberOf (body : String × Bytes) : ExportMember :=
  { name := body.1, length := body.2.length, digest := C.sha256 body.2 }

/-- The manifest of an export. -/
def manifestOf (D : Decoder) (c : Contents) (g : Genesis) (b : SignedBundle) (checkpoint : Checkpoint)
    (exporter : ID) (createdAt : String) : ExportManifest :=
  { domain := exportDomain, formatVersion := 1, suite := suiteID, vaultID := g.vaultID,
    genesisDigest := g.digest C, keyEpoch := checkpoint.keyEpoch, exportedBy := exporter,
    createdAt := createdAt, checkpoint := checkpoint,
    members := (bodies D c g b).map (memberOf C) }

/-- `SealBounded`. -/
def sealBounded (plaintext : Bytes) (recipient : String) (entropy : Bytes) : Except Error Bytes := do
  .require (plaintext.length ≤ maxArchiveBytes) (.errorf "seal: payload is %d bytes, the limit is %d"
    [toString plaintext.length, toString maxArchiveBytes])
  return C.sealTo plaintext recipient entropy

/-- `Build`; the entropy is that of the seal. -/
def build (D : Decoder) (c : Contents) (checkpoint : Checkpoint) (exporter : ID) (signer : Signer)
    (recipient : Option String) (createdAt : String) (entropy : Bytes) : Except Error Bytes :=
  match c.genesis, recipient with
  | none, _ => .error (.new "export: no genesis")
  | some _, none => .error (.new "export: no recovery recipient")
  | some g, some recipient => do
    .require (recipient = g.recoveryRecipient)
      (.new "export: the recipient is not the one genesis pins")
    match c.bundle with
    | none => .error (.new "export: no vault keys; the archive would decrypt to nothing")
    | some b => do
      let manifest := manifestOf C D c g b checkpoint exporter createdAt
      (manifest.validate C suiteID).mapError (.wrap "export: %w" [])
      let sig ← signer exportSignatureDomain (C.canonical (.exportManifest manifest))
      let header := (SignedExportManifest.codec D).canonicalBytes
        { manifest := manifest, signature := sig }
      let archive := utf8 magic.toList ++ newline :: (header ++ newline ::
        (bodies D c g b).flatMap Prod.snd)
      sealBounded C archive recipient entropy

/-! ## Open -/

/-- How `Open` ends without an archive. -/
inductive Fault where
  | error (e : Error)
  /-- The program is stopped: slice bounds out of range. -/
  | panic
  deriving DecidableEq

/-- `OpenBounded`. -/
def openBounded (kit ciphertext : Bytes) : Except Error Bytes := do
  .require (ciphertext.length ≤ maxArchiveBytes + 2 ^ 20)
    (.errorf "open: ciphertext exceeds %d bytes" [toString maxArchiveBytes])
  match C.openWith kit ciphertext with
  | none => .error (.new "open")
  | some out => do
    .require (out.length ≤ maxArchiveBytes)
      (.errorf "open: plaintext exceeds %d bytes" [toString maxArchiveBytes])
    return out

/-- `bytes.Cut` at the first newline. -/
def cut : Bytes → Option (Bytes × Bytes)
  | [] => none
  | b :: rest =>
    if b = newline then some ([], rest) else (cut rest).map fun (before, after) => (b :: before, after)

/-- The steps of `Open` up to the manifest: the signed manifest and the bodies after it. -/
def openHeader (D : ByteDecoder) (sealedArchive kit genesisDigest : Bytes) :
    Except Error (SignedExportManifest × Bytes) := do
  let raw ← (openBounded C kit sealedArchive).mapError (.wrap "open export: %w" [])
  match cut raw with
  | none => .error (.new "open export: this is not an sshstate export")
  | some (first, rest) => do
    .require (first = utf8 magic.toList) (.new "open export: this is not an sshstate export")
    match cut rest with
    | none => .error (.new "open export: the archive has no manifest")
    | some (header, body) => do
      let signed ← (strictUnmarshalBytes D (SignedExportManifest.codec D.toDecoder) zeroManifest
        header).mapError (.wrap "open export: %w" [])
      (signed.manifest.validate C suiteID).mapError (.wrap "open export: %w" [])
      .require (genesisDigest = [] ∨ signed.manifest.genesisDigest = genesisDigest)
        (.new "open export: this archive is for a different vault")
      return (signed, body)

/-- `body[lo:hi]`. -/
def slice (body : Bytes) (lo hi : ℤ) : Except Fault Bytes :=
  if 0 ≤ lo ∧ lo ≤ hi ∧ hi ≤ body.length then
    .ok ((body.drop lo.toNat).take (hi - lo).toNat)
  else .error .panic

/-- `end := offset + int(member.Length)`. -/
def endOf (offset : ℤ) (m : ExportMember) : ℤ := toInt64 (offset + toInt64 m.length)

/-- The loop of `Open` over the members: the last offset, and the bodies. -/
def openMembers (body : Bytes) : (offset : ℤ) → List ExportMember →
    Except Fault (ℤ × List (String × Bytes))
  | offset, [] => .ok (offset, [])
  | offset, m :: ms => do
    .require (endOf offset m ≤ body.length)
      (.error (.errorf "open export: %q runs past the end of the archive" [m.name]))
    let chunk ← slice body offset (endOf offset m)
    .require (C.sha256 chunk = m.digest)
      (.error (.errorf "open export: %q does not match its digest" [m.name]))
    let (last, chunks) ← openMembers body (endOf offset m) ms
    return (last, (m.name, chunk) :: chunks)

/-- The bodies of an archive: the loop and the check after it. -/
def openBodies (body : Bytes) (members : List ExportMember) : Except Fault (List (String × Bytes)) := do
  let (last, chunks) ← openMembers C body 0 members
  .require (last = body.length)
    (.error (.new "open export: the archive has trailing data no member accounts for"))
  return chunks

/-- `bodies[name]`. -/
def bodyOf (chunks : List (String × Bytes)) (name : String) : Bytes := (chunks.lookup name).getD []

/-- `verifyRecord`. -/
def verifyRecord (chain : Membership.Chain) (g : Genesis) (env : Envelope) : Except Error Unit := do
  env.validate
  .require (env.context.vaultID = g.vaultID) (.new "the record belongs to another vault")
  match chain.device env.context.updatedBy with
  | none => .error (.errorf "writer %s is not in the membership chain"
      [ID.text env.context.updatedBy])
  | some d =>
    .require (C.verify d.verifyKey recordSignatureDomain (env.signingInput C) env.signature = true)
      (.new "the signature does not verify")

/-- The signature of the manifest and the bundle, checked with the key of the exporter. -/
def openBundle (D : ByteDecoder) (signed : SignedExportManifest) (g : Genesis)
    (exporter : Membership.Device) (raw : Bytes) : Except Error SignedBundle := do
  .require (C.verify exporter.verifyKey exportSignatureDomain
      (C.canonical (.exportManifest signed.manifest)) signed.signature = true)
    (.new "open export: the manifest is not signed by the device it names")
  let b ← (strictUnmarshalBytes D (SignedBundle.codec D.toDecoder) zeroBundle raw).mapError
    (.wrap "open export bundle: %w" [])
  (b.bundle.validate C suiteID).mapError (.wrap "open export bundle: %w" [])
  .require (b.bundle.purpose = .recovery)
    (.errorf "open export: the bundle is for %s, not recovery" [b.bundle.purpose.text])
  .require (b.bundle.recipient = g.recoveryRecipient)
    (.new "open export: the bundle is addressed to a recipient genesis does not pin")
  .require (C.verify exporter.verifyKey bundleSignatureDomain (C.canonical (.bundle b.bundle))
      b.signature = true)
    (.new "open export: the vault keys are not signed by the device that exported them")
  return b

/-- The steps of `Open` after the bodies are cut out. -/
def openContents (D : ByteDecoder) (signed : SignedExportManifest) (chunks : List (String × Bytes)) :
    Except Error Archive := do
  let g ← (strictUnmarshalBytes D (Genesis.codec D.toDecoder) zeroGenesis
    (bodyOf chunks memberGenesis)).mapError (.wrap "open export genesis: %w" [])
  .require (g.digest C = signed.manifest.genesisDigest)
    (.new "open export: the archive's genesis is not the one its manifest names")
  let events ← decodeEvents D (bodyOf chunks memberMembership)
  let chain ← (Membership.validate C g events).mapError (.wrap "open export membership: %w" [])
  match chain.device signed.manifest.exportedBy with
  | none => .error (.new "open export: the exporting device is not in the membership chain")
  | some exporter => do
    let b ← openBundle C D signed g exporter (bodyOf chunks memberBundle)
    let records ← decodeEnvelopes D (bodyOf chunks memberRecords)
    let conflicts ← decodeEnvelopes D (bodyOf chunks memberConflicts)
    (records ++ conflicts).forM fun env => (verifyRecord C chain g env).mapError
      (.wrap "open export record %s: %w" [ID.text env.context.recordID])
    return { manifest := signed.manifest
             contents := { genesis := some g, membership := events, records := records,
                           conflicts := conflicts, bundle := some b } }

/-- `Open`. -/
def openArchive (D : ByteDecoder) (sealedArchive kit genesisDigest : Bytes) : Except Fault Archive := do
  let (signed, body) ← (openHeader C D sealedArchive kit genesisDigest).mapError Fault.error
  let chunks ← openBodies C body signed.manifest.members
  (openContents C D signed chunks).mapError Fault.error

end Export

end Sshstate
