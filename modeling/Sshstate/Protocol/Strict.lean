/-
  `StrictUnmarshal` into the structs of the protocol, with a record of which key set which
  field (`internal/protocol/encoding.go`, the field tags of the package).

  A `GoType` is what `encoding/json` looks at: the kind of a value, and the tags of a
  struct.  `decode` follows it through a value and lists the `Assignment`s it makes; a
  field is named by its place in the Go value, so that two keys that lead to one field
  lead to one place.  A key sets the field of its name, or else one whose name is equal up
  to case (`JsonLib.foldName`); what is no field is refused.

  The texts of errors of the library are parameters, and so is how a rune outside of ASCII
  folds: only `ſ` and the Kelvin sign fold to a letter of ASCII.
-/
import Sshstate.Lib.JsonText
import Sshstate.Protocol.Codec

namespace Sshstate

open Json (Value Members Items isSpace)

/-! ## Types -/

mutual

/-- A Go type, as far as decoding depends on it; `ID` and the string types with named
    values are `string`. -/
inductive GoType where
  | string
  | bool
  | int
  | counter
  | bytes
  /-- `map[string]any` -/
  | map
  | pointer (elem : GoType)
  | slice (elem : GoType)
  | struct (name : String) (fields : GoFields)

/-- The fields of a struct with their tags. -/
inductive GoFields where
  | nil
  | cons (tag : String) (type : GoType) (rest : GoFields)

end

/-- The type behind pointers. -/
def GoType.indirect : GoType → GoType
  | .pointer t => t.indirect
  | t => t

def GoFields.ofList : List (String × GoType) → GoFields
  | [] => .nil
  | (tag, t) :: rest => .cons tag t (ofList rest)

/-- The first field whose tag is `p`. -/
def GoFields.find? (p : String → Bool) : GoFields → Option (String × GoType)
  | .nil => none
  | .cons tag t rest => if p tag then some (tag, t) else rest.find? p

/-! ## The library -/

/-- What decoding takes from the Go library. -/
structure JsonLib where
  /-- The characters of a text in UTF-8; what is no UTF-8 is replaced. -/
  text : Bytes → List Char
  /-- The least rune that a rune outside of ASCII folds to. -/
  foldOther : Char → Char
  foldOther_le : ∀ c, 128 ≤ c.toNat → 128 ≤ (foldOther c).toNat
  syntaxError : List Char → Error
  typeError : Value → (goType : String) → Error
  base64Error : List Char → Error
  rangeError : List Char → Error

namespace JsonLib

variable (L : JsonLib)

/-- `foldRune`. -/
def foldRune (c : Char) : Char :=
  if c.toNat < 128 then c.toUpper
  else if c = '\u017f' then 'S'
  else if c = '\u212a' then 'K'
  else L.foldOther c

/-- `foldName`. -/
def foldName (name : String) : String := String.ofList (name.toList.map L.foldRune)

/-- The library as the decoding of values uses it. -/
def decoder : ByteDecoder where
  parse text :=
    match Json.read text with
    | none => .error (L.syntaxError text)
    | some (v, rest) =>
      if rest.all isSpace then .ok v else .error (.new "trailing data after JSON value")
  foldName := L.foldName
  typeError := L.typeError
  base64Error := L.base64Error
  rangeError := L.rangeError
  text := L.text

end JsonLib

/-! ## Decoding -/

/-- A step into a Go value. -/
inductive Step where
  | field (tag : String)
  | item (i : ℕ)
  deriving DecidableEq, Repr

/-- A key of the input sets a field of the struct at a place. -/
structure Assignment where
  struct : List Step
  tag : String
  key : String
  deriving DecidableEq, Repr

/-- The place of the field. -/
def Assignment.place (a : Assignment) : List Step := a.struct ++ [.field a.tag]

section
variable (L : JsonLib)

/-- The field a key sets. -/
def GoFields.field (fields : GoFields) (key : String) : Option (String × GoType) :=
  (fields.find? fun tag => tag = key).or
    (fields.find? fun tag => L.foldName tag = L.foldName key)

/-- A value that is not taken apart. -/
def GoType.decodeLeaf (v : Value) : GoType → Except Error Unit
  | .string => do let _ ← unmarshalString L.decoder.toDecoder [] v
  | .bool => do let _ ← unmarshalBool L.decoder.toDecoder false v
  | .int => do let _ ← unmarshalInt L.decoder.toDecoder 0 v
  | .counter => do let _ ← unmarshalCounter L.decoder.toDecoder v
  | .bytes => do let _ ← unmarshalBytes L.decoder.toDecoder v
  | .map =>
    match v with
    | .obj _ | .null => .ok ()
    | v => .error (L.typeError v "map[string]interface {}")
  | .slice _ =>
    match v with
    | .null => .ok ()
    | v => .error (L.typeError v "slice")
  | .struct name _ =>
    match v with
    | .null => .ok ()
    | v => .error (L.typeError v name)
  | .pointer _ => .ok ()

/-- `null` leaves a pointer `nil`, and any other value goes to what it points to. -/
def GoType.decodeScalar (t : GoType) (v : Value) : Except Error (List Assignment) :=
  match t, v with
  | .pointer _, .null => .ok []
  | t, v => do
    t.indirect.decodeLeaf L v
    return []

mutual

/-- `Decoder.Decode`, from a place of the Go value on. -/
def GoType.decode (t : GoType) (place : List Step) : Value → Except Error (List Assignment)
  | .obj members =>
    match t.indirect with
    | .struct _ fields => decodeMembers fields place members
    | _ => t.decodeScalar L (.obj members)
  | .arr items =>
    match t.indirect with
    | .slice elem => decodeItems elem place 0 items
    | _ => t.decodeScalar L (.arr items)
  | v => t.decodeScalar L v

def decodeItems (elem : GoType) (place : List Step) (i : ℕ) : Items → Except Error (List Assignment)
  | .nil => .ok []
  | .cons v rest => do
    let here ← elem.decode (place ++ [.item i]) v
    let more ← decodeItems elem place (i + 1) rest
    return here ++ more

def decodeMembers (fields : GoFields) (place : List Step) : Members → Except Error (List Assignment)
  | .nil => .ok []
  | .cons key v rest =>
    match fields.field L key with
    | none => .error (.errorf "json: unknown field %q" [key])
    | some (tag, t) => do
      let here ← t.decode (place ++ [.field tag]) v
      let more ← decodeMembers fields place rest
      return ⟨place, tag, key⟩ :: (here ++ more)

end

/-- `StrictUnmarshalLimit` into a value of the type `t`: the fields that are set, and the
    keys that set them. -/
def strictUnmarshalType (t : GoType) (data : Bytes) (limit : ℕ) :
    Except Error (List Assignment) := do
  .require (data.length ≤ limit)
    (.errorf "object is %d bytes, limit is %d" [toString data.length, toString limit])
  match Json.read (L.text data) with
  | none => .error (L.syntaxError (L.text data))
  | some (v, rest) => do
    checkValue [] v
    let assignments ← t.decode L [] v
    .require (rest.all isSpace = true) (.new "trailing data after JSON value")
    return assignments

end

/-! ## The structs of the protocol -/

namespace GoType

/-- A struct with its tags. -/
def tagged (name : String) (fields : List (String × GoType)) : GoType := .struct name (.ofList fields)

def genesis : GoType := tagged "Genesis"
  [("domain", .string), ("format_version", .int), ("suite", .string), ("vault_id", .string),
   ("created_at", .string), ("first_device_id", .string), ("first_device_verify_key", .bytes),
   ("first_device_recipient", .string), ("recovery_verify_key", .bytes),
   ("recovery_recipient", .string)]

def membershipEvent : GoType := tagged "MembershipEvent"
  [("domain", .string), ("format_version", .int), ("suite", .string), ("vault_id", .string),
   ("event_id", .string), ("chain_seq", .counter), ("parent_digest", .bytes), ("action", .string),
   ("device_id", .string), ("device_verify_key", .bytes), ("device_recipient", .pointer .string),
   ("transcript_digest", .bytes), ("authority", .string), ("authorized_by", .string),
   ("created_at", .string)]

def signedMembershipEvent : GoType := tagged "SignedMembershipEvent"
  [("event", membershipEvent), ("signature", .bytes)]

def context : GoType := tagged "Context"
  [("domain", .string), ("format_version", .int), ("vault_id", .string), ("record_id", .string),
   ("record_type", .string), ("key_epoch", .counter), ("rev", .counter), ("parent_digest", .bytes),
   ("mutation_id", .string), ("updated_by", .string), ("deleted", .bool)]

def envelope : GoType := tagged "Envelope"
  [("context", context), ("nonce", .bytes), ("ciphertext", .bytes), ("signature", .bytes),
   ("seq", .counter)]

def head : GoType := tagged "Head"
  [("record_id", .string), ("rev", .counter), ("digest", .bytes), ("deleted", .bool)]

def checkpoint : GoType := tagged "Checkpoint"
  [("domain", .string), ("format_version", .int), ("vault_id", .string), ("key_epoch", .counter),
   ("seq", .counter), ("membership_digest", .bytes), ("heads", .slice head),
   ("created_at", .string)]

def epochKeys : GoType := tagged "EpochKeys"
  [("key_epoch", .counter), ("metadata_key", .bytes), ("secret_key", .bytes)]

def bundle : GoType := tagged "Bundle"
  [("domain", .string), ("format_version", .int), ("suite", .string), ("vault_id", .string),
   ("genesis_digest", .bytes), ("purpose", .string), ("recipient_device_id", .pointer .string),
   ("recipient", .string), ("key_epoch", .counter), ("metadata_key", .bytes),
   ("secret_key", .bytes), ("transcript_digest", .bytes), ("checkpoint", checkpoint),
   ("snapshot_digest", .bytes), ("snapshot_length", .pointer .counter),
   ("rotation_id", .pointer .string), ("epoch_history", .slice epochKeys), ("created_at", .string)]

def signedBundle : GoType := tagged "SignedBundle" [("bundle", bundle), ("signature", .bytes)]

def exportMember : GoType := tagged "ExportMember"
  [("name", .string), ("length", .counter), ("digest", .bytes)]

def exportManifest : GoType := tagged "ExportManifest"
  [("domain", .string), ("format_version", .int), ("suite", .string), ("vault_id", .string),
   ("genesis_digest", .bytes), ("key_epoch", .counter), ("exported_by", .string),
   ("created_at", .string), ("checkpoint", checkpoint), ("members", .slice exportMember)]

def signedExportManifest : GoType := tagged "SignedExportManifest"
  [("manifest", exportManifest), ("signature", .bytes)]

def pairingOffer : GoType := tagged "PairingOffer"
  [("domain", .string), ("format_version", .int), ("suite", .string), ("vault_id", .string),
   ("joiner_device_id", .string), ("joiner_verify_key", .bytes), ("joiner_recipient", .string),
   ("joiner_challenge", .bytes), ("created_at", .string)]

def signedPairingOffer : GoType := tagged "SignedPairingOffer"
  [("offer", pairingOffer), ("signature", .bytes)]

def pairingApproval : GoType := tagged "PairingApproval"
  [("approver_device_id", .string), ("approver_verify_key", .bytes),
   ("approver_recipient", .string), ("approver_challenge", .bytes), ("created_at", .string),
   ("expires_at", .string)]

def pairingTranscript : GoType := tagged "PairingTranscript"
  [("domain", .string), ("format_version", .int), ("suite", .string), ("vault_id", .string),
   ("session_id", .string), ("approver_device_id", .string), ("approver_verify_key", .bytes),
   ("approver_recipient", .string), ("joiner_device_id", .string), ("joiner_verify_key", .bytes),
   ("joiner_recipient", .string), ("approver_challenge", .bytes), ("joiner_challenge", .bytes),
   ("created_at", .string), ("expires_at", .string)]

def pairingConfirmation : GoType := tagged "PairingConfirmation"
  [("domain", .string), ("format_version", .int), ("vault_id", .string), ("session_id", .string),
   ("device_id", .string), ("transcript_digest", .bytes), ("created_at", .string)]

def signedPairingConfirmation : GoType := tagged "SignedPairingConfirmation"
  [("confirmation", pairingConfirmation), ("signature", .bytes)]

def rotationPreconditions : GoType := tagged "RotationPreconditions"
  [("membership_digest", .bytes), ("checkpoint_digest", .bytes), ("seq", .counter)]

def manifestItem : GoType := tagged "ManifestItem"
  [("name", .string), ("digest", .bytes), ("length", .counter)]

def transitionManifest : GoType := tagged "TransitionManifest"
  [("domain", .string), ("format_version", .int), ("suite", .string), ("vault_id", .string),
   ("genesis_digest", .bytes), ("rotation_id", .string), ("from_epoch", .counter),
   ("to_epoch", .counter), ("initiated_by", .string), ("created_at", .string),
   ("preconditions", rotationPreconditions), ("items", .slice manifestItem)]

def signedTransitionManifest : GoType := tagged "SignedTransitionManifest"
  [("manifest", transitionManifest), ("signature", .bytes)]

def recoveryAdmission : GoType := tagged "RecoveryAdmission"
  [("domain", .string), ("format_version", .int), ("vault_id", .string), ("genesis_digest", .bytes),
   ("nonce", .string), ("device_id", .string), ("device_verify_key", .bytes),
   ("device_recipient", .string), ("created_at", .string)]

def errorBody : GoType := tagged "ErrorBody"
  [("code", .string), ("message", .string), ("detail", .map)]

def envelopeBody : GoType := tagged "EnvelopeBody"
  [("id", .string), ("recipient_device_id", .pointer .string), ("purpose", .string),
   ("key_epoch", .counter), ("ciphertext", .bytes)]

def importRecord : GoType := tagged "ImportRecord"
  [("envelope", envelope), ("ancestors", .slice .bytes)]

def importOutcome : GoType := tagged "ImportOutcome"
  [("record_id", .string), ("outcome", .string), ("seq", .counter), ("head", .pointer envelope)]

/-- The bodies of requests and answers (`api.go`). -/
def bodies : List GoType :=
  [errorBody,
   tagged "ErrorResponse" [("error", errorBody), ("head", .pointer envelope)],
   tagged "BootstrapRequest"
     [("genesis", genesis), ("membership_root", signedMembershipEvent),
      ("membership", .slice signedMembershipEvent), ("seeded", .bool)],
   tagged "BootstrapResponse" [("vault_id", .string)],
   tagged "CreatePairingRequest"
     [("vault_id", .string), ("offer", pairingOffer), ("signature", .bytes)],
   tagged "CreatePairingResponse" [("session_id", .string), ("expires_at", .string)],
   tagged "PairingResponse"
     [("session_id", .string), ("state", .string), ("offer", .pointer pairingOffer),
      ("offer_signature", .bytes), ("approver", .pointer pairingApproval),
      ("approver_confirmation", .pointer signedPairingConfirmation),
      ("joiner_confirmation", .pointer signedPairingConfirmation), ("bundle", .bytes),
      ("snapshot", .bytes), ("membership_event", .pointer signedMembershipEvent),
      ("genesis", .pointer genesis), ("expires_at", .string)],
   tagged "ConfirmPairingRequest"
     [("approver", .pointer pairingApproval), ("confirmation", pairingConfirmation),
      ("signature", .bytes)],
   tagged "CompletePairingRequest"
     [("membership_event", .pointer signedMembershipEvent), ("bundle", .bytes),
      ("snapshot", .bytes), ("genesis", .pointer genesis), ("acknowledged", .bool)],
   tagged "MembershipResponse" [("events", .slice signedMembershipEvent)],
   tagged "AppendMembershipRequest" [("event", signedMembershipEvent)],
   tagged "AppendMembershipResponse" [("chain_seq", .counter), ("head_digest", .bytes)],
   envelopeBody,
   tagged "EnvelopesResponse" [("envelopes", .slice envelopeBody)],
   tagged "RecoveryChallengeRequest" [("vault_id", .string)],
   tagged "RecoveryChallengeResponse"
     [("nonce", .string), ("expires_at", .string), ("genesis", .pointer genesis),
      ("recovery_envelope", .bytes)],
   recoveryAdmission,
   tagged "RecoveryCompleteRequest"
     [("admission", recoveryAdmission), ("signature", .bytes),
      ("membership_event", signedMembershipEvent)],
   tagged "RecoveryCompleteResponse" [("device_id", .string), ("membership_head_digest", .bytes)],
   tagged "RecordsResponse"
     [("changes", .slice envelope), ("next_cursor", .counter), ("snapshot_cursor", .counter),
      ("has_more", .bool), ("history", .string), ("history_origin", .string)],
   importRecord,
   tagged "ImportRequest" [("history", .string), ("records", .slice importRecord)],
   importOutcome,
   tagged "ImportResponse" [("history", .string), ("outcomes", .slice importOutcome)],
   tagged "PutRecordResponse" [("accepted", .bool), ("seq", .counter), ("digest", .bytes)]]

/-- The structs of the protocol. -/
def protocolStructs : List GoType :=
  [genesis, membershipEvent, signedMembershipEvent, context, envelope, head, checkpoint, epochKeys,
   bundle, signedBundle, exportMember, exportManifest, signedExportManifest, pairingOffer,
   signedPairingOffer, pairingApproval, pairingTranscript, pairingConfirmation,
   signedPairingConfirmation, rotationPreconditions, manifestItem, transitionManifest,
   signedTransitionManifest] ++ bodies

end GoType

end Sshstate
