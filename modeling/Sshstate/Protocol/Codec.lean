/-
  The JSON forms of the signed objects (`internal/protocol`: `encoding.go` and the
  field tags of `genesis.go`, `membership.go`, `record.go` and `bundle.go`).

  A `Codec` is how the values of a Go type are written and read; a struct is the list
  of its fields (`Codec.struct`), so an object is described by its tags, the types of
  its fields and where they are stored.  `canonicalBytes` is `Canonical`: the members
  of every object in the order of their names, without white space, in UTF-8.

  A slice that is `nil` and one that is empty are both the empty list and written as
  `null`: the program only has the first kind.
-/
import Sshstate.Protocol.Encoding
import Sshstate.Protocol.Objects

namespace Sshstate

open Json (Value Members Items byteLength)

/-- What the decoding of bytes takes from the Go library. -/
structure ByteDecoder extends Decoder where
  /-- The characters of a text in UTF-8; what is no UTF-8 is replaced. -/
  text : Bytes → List Char

/-- A text in UTF-8. -/
def utf8 (text : List Char) : Bytes := text.flatMap String.utf8EncodeChar

structure ByteDecoder.Lawful (D : ByteDecoder) : Prop extends D.toDecoder.Lawful where
  text_utf8 : ∀ s, D.text (utf8 s) = s

/-- How the values of a type are written, and read over the value that is there. -/
structure Codec (α : Type) where
  write : α → Value
  read : α → Value → Except Error α

/-- A field of a struct. -/
structure Field (α : Type) where
  name : String
  type : Type
  codec : Codec type
  get : α → type
  set : α → type → α

namespace Codec

/-- `Canonical`. -/
def canonicalText {α : Type} (c : Codec α) (a : α) : List Char := (c.write a).sorted.render

def canonicalBytes {α : Type} (c : Codec α) (a : α) : Bytes := utf8 (c.canonicalText a)

variable (D : Decoder)

/-! ## Types -/

def string : Codec String where
  write s := .str s.toList
  read old v := do return String.ofList (← unmarshalString D old.toList v)

def id : Codec ID where
  write := .str
  read := unmarshalString D

def bool : Codec Bool where
  write := .bool
  read := unmarshalBool D

def int : Codec ℤ where
  write z := .num (toString z).toList
  read := unmarshalInt D

def counter : Codec ℕ where
  write := marshalCounter
  read _ := unmarshalCounter D

/-- `Bytes` where `nil` is told from the empty string. -/
def nullable : Codec (Option Bytes) where
  write := marshalBytes
  read _ := unmarshalBytes D

/-- `Bytes` in a field that is never `nil`. -/
def bytes : Codec Bytes where
  write b := marshalBytes (some b)
  read _ v := do return (← unmarshalBytes D v).getD []

/-- A string type with named values. -/
def enum {α : Type} (text : α → String) (ofText : String → α) : Codec α where
  write a := .str (text a).toList
  read old v := do return ofText (String.ofList (← unmarshalString D (text old).toList v))

/-- A pointer; what it points to is read over `zero` when it was `nil`. -/
def ptr {α : Type} (c : Codec α) (zero : α) : Codec (Option α) where
  write
    | none => .null
    | some a => c.write a
  read old v := match v with
    | .null => .ok none
    | v => do return some (← c.read (old.getD zero) v)

def readItems {α : Type} (c : Codec α) (zero : α) : Items → Except Error (List α)
  | .nil => .ok []
  | .cons v rest => do
    let a ← c.read zero v
    return a :: (← readItems c zero rest)

def slice {α : Type} (c : Codec α) (zero : α) (goType : String) : Codec (List α) where
  write
    | [] => .null
    | l => .arr (.ofList (l.map c.write))
  read _ v := match v with
    | .null => .ok []
    | .arr items => readItems c zero items
    | v => .error (D.typeError v goType)

/-- How a value sets a field. -/
def setter {α : Type} (f : Field α) : String × (Value → α → Except Error α) :=
  (f.name, fun v a => do return f.set a (← f.codec.read (f.get a) v))

def struct {α : Type} (goType : String) (fields : List (Field α)) : Codec α where
  write a := .obj (.ofList (fields.map fun f => (f.name, f.codec.write (f.get a))))
  read := unmarshalStruct D goType (fields.map setter)

end Codec

/-- `StrictUnmarshal` into a value of the type that has its zero value. -/
def strictUnmarshalBytes {α : Type} (D : ByteDecoder) (c : Codec α) (zero : α) (data : Bytes) :
    Except Error α := do
  .require (data.length ≤ maxObjectBytes)
    (.errorf "object is %d bytes, limit is %d" [toString data.length, toString maxObjectBytes])
  let v ← D.parse (D.text data)
  checkValue [] v
  c.read zero v

/-! ## Named values -/

def MembershipAction.text : MembershipAction → String
  | .enroll => "enroll"
  | .revoke => "revoke"
  | .other name => name

def MembershipAction.ofText (s : String) : MembershipAction :=
  if s = "enroll" then .enroll else if s = "revoke" then .revoke else .other s

def Authority.text : Authority → String
  | .device => "device"
  | .recovery => "recovery"
  | .other name => name

def Authority.ofText (s : String) : Authority :=
  if s = "device" then .device else if s = "recovery" then .recovery else .other s

def BundlePurpose.text : BundlePurpose → String
  | .enrollment => "enrollment"
  | .recovery => "recovery"
  | .rotation => "rotation"
  | .other name => name

def BundlePurpose.ofText (s : String) : BundlePurpose :=
  if s = "enrollment" then .enrollment else if s = "recovery" then .recovery
  else if s = "rotation" then .rotation else .other s

/-! ## Objects -/

section
variable (D : Decoder)

def Genesis.fields : List (Field Genesis) :=
  [⟨"domain", _, .string D, (·.domain), fun g x => { g with domain := x }⟩,
   ⟨"format_version", _, .int D, (·.formatVersion), fun g x => { g with formatVersion := x }⟩,
   ⟨"suite", _, .string D, (·.suite), fun g x => { g with suite := x }⟩,
   ⟨"vault_id", _, .id D, (·.vaultID), fun g x => { g with vaultID := x }⟩,
   ⟨"created_at", _, .string D, (·.createdAt), fun g x => { g with createdAt := x }⟩,
   ⟨"first_device_id", _, .id D, (·.firstDeviceID), fun g x => { g with firstDeviceID := x }⟩,
   ⟨"first_device_verify_key", _, .bytes D, (·.firstDeviceVerifyKey),
     fun g x => { g with firstDeviceVerifyKey := x }⟩,
   ⟨"first_device_recipient", _, .string D, (·.firstDeviceRecipient),
     fun g x => { g with firstDeviceRecipient := x }⟩,
   ⟨"recovery_verify_key", _, .bytes D, (·.recoveryVerifyKey),
     fun g x => { g with recoveryVerifyKey := x }⟩,
   ⟨"recovery_recipient", _, .string D, (·.recoveryRecipient),
     fun g x => { g with recoveryRecipient := x }⟩]

def Genesis.codec : Codec Genesis := .struct D "Genesis" (Genesis.fields D)

def MembershipEvent.fields : List (Field MembershipEvent) :=
  [⟨"domain", _, .string D, (·.domain), fun e x => { e with domain := x }⟩,
   ⟨"format_version", _, .int D, (·.formatVersion), fun e x => { e with formatVersion := x }⟩,
   ⟨"suite", _, .string D, (·.suite), fun e x => { e with suite := x }⟩,
   ⟨"vault_id", _, .id D, (·.vaultID), fun e x => { e with vaultID := x }⟩,
   ⟨"event_id", _, .id D, (·.eventID), fun e x => { e with eventID := x }⟩,
   ⟨"chain_seq", _, .counter D, (·.chainSeq), fun e x => { e with chainSeq := x }⟩,
   ⟨"parent_digest", _, .nullable D, (·.parentDigest), fun e x => { e with parentDigest := x }⟩,
   ⟨"action", _, .enum D MembershipAction.text MembershipAction.ofText, (·.action),
     fun e x => { e with action := x }⟩,
   ⟨"device_id", _, .id D, (·.deviceID), fun e x => { e with deviceID := x }⟩,
   ⟨"device_verify_key", _, .nullable D, (·.deviceVerifyKey),
     fun e x => { e with deviceVerifyKey := x }⟩,
   ⟨"device_recipient", _, .ptr (.string D) "", (·.deviceRecipient),
     fun e x => { e with deviceRecipient := x }⟩,
   ⟨"transcript_digest", _, .nullable D, (·.transcriptDigest),
     fun e x => { e with transcriptDigest := x }⟩,
   ⟨"authority", _, .enum D Authority.text Authority.ofText, (·.authority),
     fun e x => { e with authority := x }⟩,
   ⟨"authorized_by", _, .id D, (·.authorizedBy), fun e x => { e with authorizedBy := x }⟩,
   ⟨"created_at", _, .string D, (·.createdAt), fun e x => { e with createdAt := x }⟩]

def MembershipEvent.codec : Codec MembershipEvent :=
  .struct D "MembershipEvent" (MembershipEvent.fields D)

def SignedMembershipEvent.fields : List (Field SignedMembershipEvent) :=
  [⟨"event", _, MembershipEvent.codec D, (·.event), fun s x => { s with event := x }⟩,
   ⟨"signature", _, .bytes D, (·.signature), fun s x => { s with signature := x }⟩]

def SignedMembershipEvent.codec : Codec SignedMembershipEvent :=
  .struct D "SignedMembershipEvent" (SignedMembershipEvent.fields D)

def Head.fields : List (Field Head) :=
  [⟨"record_id", _, .id D, (·.recordID), fun h x => { h with recordID := x }⟩,
   ⟨"rev", _, .counter D, (·.rev), fun h x => { h with rev := x }⟩,
   ⟨"digest", _, .bytes D, (·.digest), fun h x => { h with digest := x }⟩,
   ⟨"deleted", _, .bool D, (·.deleted), fun h x => { h with deleted := x }⟩]

def Head.codec : Codec Head := .struct D "Head" (Head.fields D)

def Head.zero : Head := { recordID := [], rev := 0, digest := [], deleted := false }

def Checkpoint.fields : List (Field Checkpoint) :=
  [⟨"domain", _, .string D, (·.domain), fun c x => { c with domain := x }⟩,
   ⟨"format_version", _, .int D, (·.formatVersion), fun c x => { c with formatVersion := x }⟩,
   ⟨"vault_id", _, .id D, (·.vaultID), fun c x => { c with vaultID := x }⟩,
   ⟨"key_epoch", _, .counter D, (·.keyEpoch), fun c x => { c with keyEpoch := x }⟩,
   ⟨"seq", _, .counter D, (·.seq), fun c x => { c with seq := x }⟩,
   ⟨"membership_digest", _, .bytes D, (·.membershipDigest),
     fun c x => { c with membershipDigest := x }⟩,
   ⟨"heads", _, .slice D (Head.codec D) .zero "[]Head", (·.heads), fun c x => { c with heads := x }⟩,
   ⟨"created_at", _, .string D, (·.createdAt), fun c x => { c with createdAt := x }⟩]

def Checkpoint.codec : Codec Checkpoint := .struct D "Checkpoint" (Checkpoint.fields D)

def Checkpoint.zero : Checkpoint :=
  { domain := "", formatVersion := 0, vaultID := [], keyEpoch := 0, seq := 0,
    membershipDigest := [], heads := [], createdAt := "" }

def EpochKeys.fields : List (Field EpochKeys) :=
  [⟨"key_epoch", _, .counter D, (·.keyEpoch), fun k x => { k with keyEpoch := x }⟩,
   ⟨"metadata_key", _, .bytes D, (·.metadataKey), fun k x => { k with metadataKey := x }⟩,
   ⟨"secret_key", _, .bytes D, (·.secretKey), fun k x => { k with secretKey := x }⟩]

def EpochKeys.codec : Codec EpochKeys := .struct D "EpochKeys" (EpochKeys.fields D)

def EpochKeys.zero : EpochKeys := { keyEpoch := 0, metadataKey := [], secretKey := [] }

def Bundle.fields : List (Field Bundle) :=
  [⟨"domain", _, .string D, (·.domain), fun b x => { b with domain := x }⟩,
   ⟨"format_version", _, .int D, (·.formatVersion), fun b x => { b with formatVersion := x }⟩,
   ⟨"suite", _, .string D, (·.suite), fun b x => { b with suite := x }⟩,
   ⟨"vault_id", _, .id D, (·.vaultID), fun b x => { b with vaultID := x }⟩,
   ⟨"genesis_digest", _, .bytes D, (·.genesisDigest), fun b x => { b with genesisDigest := x }⟩,
   ⟨"purpose", _, .enum D BundlePurpose.text BundlePurpose.ofText, (·.purpose),
     fun b x => { b with purpose := x }⟩,
   ⟨"recipient_device_id", _, .ptr (.id D) [], (·.recipientDeviceID),
     fun b x => { b with recipientDeviceID := x }⟩,
   ⟨"recipient", _, .string D, (·.recipient), fun b x => { b with recipient := x }⟩,
   ⟨"key_epoch", _, .counter D, (·.keyEpoch), fun b x => { b with keyEpoch := x }⟩,
   ⟨"metadata_key", _, .bytes D, (·.metadataKey), fun b x => { b with metadataKey := x }⟩,
   ⟨"secret_key", _, .bytes D, (·.secretKey), fun b x => { b with secretKey := x }⟩,
   ⟨"transcript_digest", _, .nullable D, (·.transcriptDigest),
     fun b x => { b with transcriptDigest := x }⟩,
   ⟨"checkpoint", _, Checkpoint.codec D, (·.checkpoint), fun b x => { b with checkpoint := x }⟩,
   ⟨"snapshot_digest", _, .nullable D, (·.snapshotDigest), fun b x => { b with snapshotDigest := x }⟩,
   ⟨"snapshot_length", _, .ptr (.counter D) 0, (·.snapshotLength),
     fun b x => { b with snapshotLength := x }⟩,
   ⟨"rotation_id", _, .ptr (.id D) [], (·.rotationID), fun b x => { b with rotationID := x }⟩,
   ⟨"epoch_history", _, .slice D (EpochKeys.codec D) .zero "[]EpochKeys", (·.epochHistory),
     fun b x => { b with epochHistory := x }⟩,
   ⟨"created_at", _, .string D, (·.createdAt), fun b x => { b with createdAt := x }⟩]

def Bundle.codec : Codec Bundle := .struct D "Bundle" (Bundle.fields D)

def SignedBundle.fields : List (Field SignedBundle) :=
  [⟨"bundle", _, Bundle.codec D, (·.bundle), fun s x => { s with bundle := x }⟩,
   ⟨"signature", _, .bytes D, (·.signature), fun s x => { s with signature := x }⟩]

def SignedBundle.codec : Codec SignedBundle := .struct D "SignedBundle" (SignedBundle.fields D)

def ExportMember.fields : List (Field ExportMember) :=
  [⟨"name", _, .string D, (·.name), fun m x => { m with name := x }⟩,
   ⟨"length", _, .counter D, (·.length), fun m x => { m with length := x }⟩,
   ⟨"digest", _, .bytes D, (·.digest), fun m x => { m with digest := x }⟩]

def ExportMember.codec : Codec ExportMember := .struct D "ExportMember" (ExportMember.fields D)

def ExportMember.zero : ExportMember := { name := "", length := 0, digest := [] }

def ExportManifest.fields : List (Field ExportManifest) :=
  [⟨"domain", _, .string D, (·.domain), fun m x => { m with domain := x }⟩,
   ⟨"format_version", _, .int D, (·.formatVersion), fun m x => { m with formatVersion := x }⟩,
   ⟨"suite", _, .string D, (·.suite), fun m x => { m with suite := x }⟩,
   ⟨"vault_id", _, .id D, (·.vaultID), fun m x => { m with vaultID := x }⟩,
   ⟨"genesis_digest", _, .bytes D, (·.genesisDigest), fun m x => { m with genesisDigest := x }⟩,
   ⟨"key_epoch", _, .counter D, (·.keyEpoch), fun m x => { m with keyEpoch := x }⟩,
   ⟨"exported_by", _, .id D, (·.exportedBy), fun m x => { m with exportedBy := x }⟩,
   ⟨"created_at", _, .string D, (·.createdAt), fun m x => { m with createdAt := x }⟩,
   ⟨"checkpoint", _, Checkpoint.codec D, (·.checkpoint), fun m x => { m with checkpoint := x }⟩,
   ⟨"members", _, .slice D (ExportMember.codec D) .zero "[]ExportMember", (·.members),
     fun m x => { m with members := x }⟩]

def ExportManifest.codec : Codec ExportManifest :=
  .struct D "ExportManifest" (ExportManifest.fields D)

def SignedExportManifest.fields : List (Field SignedExportManifest) :=
  [⟨"manifest", _, ExportManifest.codec D, (·.manifest), fun s x => { s with manifest := x }⟩,
   ⟨"signature", _, .bytes D, (·.signature), fun s x => { s with signature := x }⟩]

def SignedExportManifest.codec : Codec SignedExportManifest :=
  .struct D "SignedExportManifest" (SignedExportManifest.fields D)

/-- An envelope as it is decoded; it is written by `Envelope.marshal`, which leaves a `seq`
    of zero out. -/
def Envelope.codec : Codec Envelope where
  write := Envelope.marshal
  read := unmarshalStruct D "Envelope" (Envelope.fields D)

end

end Sshstate
