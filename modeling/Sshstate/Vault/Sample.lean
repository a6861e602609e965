/-
  A small instance of the JSON library, on which concrete edits are evaluated, and a vault with
  one device.

  A payload is written with a code that tells where it ends; a text in that code is its own
  canonical form.  The primitives are the sample ones, with the conflict records in that code.
-/
import Sshstate.Lib.Serial
import Sshstate.Protocol.Sample
import Sshstate.Vault.Payload

namespace Sshstate.Sample

open Vault

/-! ## Codes -/

def hostCode : Serial HostPayload :=
  (Serial.pair .int (.pair .text (.pair .text (.pair .text (.pair .int (.pair (.option .text)
    (.list .text))))))).map
    (fun p => (p.formatVersion, p.hostAlias, p.hostName, p.user, p.port, p.proxyJump, p.keyIDs))
    (fun x => ⟨x.1, x.2.1, x.2.2.1, x.2.2.2.1, x.2.2.2.2.1, x.2.2.2.2.2.1, x.2.2.2.2.2.2⟩) fun _ => rfl

def keyCode : Serial KeyPayload :=
  (Serial.pair .int (.pair .text (.pair .text (.pair .text (.pair .text .text))))).map
    (fun p => (p.formatVersion, p.privateKey, p.publicKey, p.fingerprint, p.algorithm, p.comment))
    (fun x => ⟨x.1, x.2.1, x.2.2.1, x.2.2.2.1, x.2.2.2.2.1, x.2.2.2.2.2⟩) fun _ => rfl

def statusCode : Serial TrustStatus :=
  (Serial.pair .nat .string).map
    (fun
      | .approved => (0, "")
      | .pending => (1, "")
      | .other name => (2, name))
    (fun
      | (0, _) => .approved
      | (1, _) => .pending
      | (_, name) => .other name)
    fun s => by cases s <;> rfl

def knownHostCode : Serial KnownHostPayload :=
  (Serial.pair .int (.pair .bytes (.pair .bytes (.pair .bytes (.pair .bytes (.pair statusCode
    .bytes)))))).map
    (fun p => (p.formatVersion, p.line, p.keyType, p.fingerprint, p.marker, p.status, p.lineDigest))
    (fun x => ⟨x.1, x.2.1, x.2.2.1, x.2.2.2.1, x.2.2.2.2.1, x.2.2.2.2.2.1, x.2.2.2.2.2.2⟩) fun _ => rfl

def recordTypeCode : Serial RecordType :=
  (Serial.pair .nat .string).map
    (fun
      | .host => (0, "")
      | .key => (1, "")
      | .knownHost => (2, "")
      | .conflictMetadata => (3, "")
      | .conflictSecret => (4, "")
      | .other name => (5, name))
    (fun
      | (0, _) => .host
      | (1, _) => .key
      | (2, _) => .knownHost
      | (3, _) => .conflictMetadata
      | (4, _) => .conflictSecret
      | (_, name) => .other name)
    fun t => by cases t <;> rfl

def conflictCode : Serial ConflictPayload :=
  (Serial.pair .int (.pair .text (.pair recordTypeCode (.pair .text (.pair (.option .bytes)
    (.pair .string (.pair (.option .bytes) .bool))))))).map
    (fun p => (p.formatVersion, p.sourceRecordID, p.sourceRecordType, p.sourceMutationID,
      p.observedHeadDigest, p.preservedAt, p.candidate, p.removal))
    (fun x => ⟨x.1, x.2.1, x.2.2.1, x.2.2.2.1, x.2.2.2.2.1, x.2.2.2.2.2.1, x.2.2.2.2.2.2.1,
      x.2.2.2.2.2.2.2⟩) fun _ => rfl

/-! ## The library -/

def readAs {α : Type} (c : Serial α) (text : Bytes) : Except Error α :=
  match c.read text with
  | none => .error (.new "unexpected end of JSON input")
  | some a => .ok a

theorem readAs_encode {α : Type} (c : Serial α) (a : α) : readAs c (c.encode a) = .ok a := by
  rw [readAs, c.read_encode]

/-- The sample primitives, with conflict records that can be read. -/
def suite : Suite :=
  { sample with
    canonical := fun
      | .conflictPayload p => conflictCode.encode p
      | d => sample.canonical d }

theorem suite_correct : suite.Correct :=
  ⟨sample_correct.open_seal, sample_correct.seal_ne_nil, sample_correct.verify_sign,
    sample_correct.sign_ne_nil⟩

def coding : Coding where
  host :=
    { canonical := hostCode.encode
      read := readAs hostCode
      zero := ⟨0, [], [], [], 0, none, []⟩ }
  key :=
    { canonical := keyCode.encode
      read := readAs keyCode
      zero := ⟨0, [], [], [], [], []⟩ }
  knownHost :=
    { canonical := knownHostCode.encode
      read := fun text => (readAs knownHostCode text).map KnownHostPayload.asText
      zero := ⟨0, [], [], [], [], .other "", []⟩ }
  readConflict := readAs conflictCode
  marshalHost := hostCode.encode
  canonicalValue := .ok
  canonicalRaw := .ok

theorem hostCode_ne_nil (p : HostPayload) : hostCode.encode p ≠ [] :=
  hostCode.encode_ne_nil (b := { p with port := p.port + 1 }) fun h => by
    have heq : p.port = p.port + 1 := congrArg HostPayload.port h
    omega

theorem keyCode_ne_nil (p : KeyPayload) : keyCode.encode p ≠ [] :=
  keyCode.encode_ne_nil (b := { p with formatVersion := p.formatVersion + 1 }) fun h => by
    have heq : p.formatVersion = p.formatVersion + 1 := congrArg KeyPayload.formatVersion h
    omega

theorem knownHostCode_ne_nil (p : KnownHostPayload) : knownHostCode.encode p ≠ [] :=
  knownHostCode.encode_ne_nil (b := { p with formatVersion := p.formatVersion + 1 }) fun h => by
    have heq : p.formatVersion = p.formatVersion + 1 := congrArg KnownHostPayload.formatVersion h
    omega

theorem coding_lawful : coding.Lawful suite where
  host := ⟨hostCode_ne_nil, fun p _ => readAs_encode _ p⟩
  key := ⟨keyCode_ne_nil, fun p _ => readAs_encode _ p⟩
  knownHost := ⟨knownHostCode_ne_nil, fun p _ => by
    simp only [coding, readAs_encode, Except.map]⟩
  conflict := by
    intro p _ kept hkept
    have hsame : kept = p.candidate := by
      cases hcandidate : p.candidate with
      | none => simpa [hcandidate] using hkept
      | some raw =>
        simp only [hcandidate] at hkept
        obtain ⟨-, c, hc, rfl⟩ := hkept
        rw [Except.ok.inj hc]
    rw [hsame]
    exact readAs_encode conflictCode p
  raw_marshal _ := rfl
  value_marshal _ := rfl
  value_canonical _ := rfl
  marshal_ne_nil := hostCode_ne_nil

/-! ## A vault with one device -/

def manager : Manager :=
  { genesis := genesis, deviceID := id 0x0a, signing := [10],
    keys := { epoch := 1, metadata := [1], secret := [2] } }

/-- The vault of the device, with no records. -/
def start : Store :=
  Store.empty.putDevice
    { id := id 0x0a, verifyKey := [10], recipient := "A", status := .active,
      enrolledAt := "t0" }

/-- The draw of a run. -/
def newID (n : ℕ) (h : ID.valid (id n) = true) : NewID := ⟨id n, h⟩

theorem valid_20 : ID.valid (id 0x20) = true := by decide
theorem valid_21 : ID.valid (id 0x21) = true := by decide
theorem valid_22 : ID.valid (id 0x22) = true := by decide
theorem valid_23 : ID.valid (id 0x23) = true := by decide
theorem valid_24 : ID.valid (id 0x24) = true := by decide
theorem valid_25 : ID.valid (id 0x25) = true := by decide

end Sshstate.Sample
