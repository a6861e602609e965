/-
  Record envelopes (`internal/protocol/record.go`) and conflict record
  payloads (`internal/vault/payload.go`).

  An envelope is the unit of replication: its `Context` names the record, the
  revision and the digest of the revision it was built on; `seq` is the relay's
  number for it and is covered by neither the signature nor the digest
  (`Envelope.strip`).
-/
import Sshstate.Protocol.Basic

namespace Sshstate

/-! ## Record types -/

/-- `RecordType`; `other` is any text that is none of the five. -/
inductive RecordType where
  | host | key | knownHost | conflictMetadata | conflictSecret
  | other (name : String)
  deriving DecidableEq, Repr

namespace RecordType

/-- The text of a record type. -/
def text : RecordType → String
  | host => "host"
  | key => "key"
  | knownHost => "known_host"
  | conflictMetadata => "conflict_metadata"
  | conflictSecret => "conflict_secret"
  | other name => name

/-- `RecordType.Valid`. -/
def valid : RecordType → Bool
  | other _ => false
  | _ => true

/-- `RecordType.SecretScoped`. -/
def secretScoped (t : RecordType) : Bool := t == key || t == conflictSecret

/-- The types of conflict records. -/
def isConflict (t : RecordType) : Bool := t == conflictMetadata || t == conflictSecret

/-- The conflict type that holds a candidate of type `t` (`ConflictType`). -/
def conflictType (t : RecordType) : RecordType :=
  if t.secretScoped then conflictSecret else conflictMetadata

theorem isConflict_host : RecordType.isConflict .host = false := rfl

@[simp] theorem isConflict_conflictType (t : RecordType) : t.conflictType.isConflict = true := by
  unfold conflictType; split_ifs <;> rfl

end RecordType

/-! ## Contexts and envelopes -/

/-- `RecordDomain`. -/
def recordDomain : String := "sshstate.record.v1"

/-- `RecordSignatureDomain`. -/
def recordSignatureDomain : String := "sshstate.record-sig.v1"

/-- `RecordFormatVersion`. -/
def recordFormatVersion : ℤ := 1

/-- `Context`. -/
structure Context where
  domain : String
  formatVersion : ℤ
  vaultID : ID
  recordID : ID
  recordType : RecordType
  keyEpoch : ℕ
  rev : ℕ
  parentDigest : Option Bytes
  mutationID : ID
  updatedBy : ID
  deleted : Bool
  deriving DecidableEq, Repr

/-- `Envelope`. -/
structure Envelope where
  context : Context
  nonce : Bytes
  ciphertext : Bytes
  signature : Bytes
  seq : ℕ
  deriving DecidableEq, Repr

namespace Context

/-- `Context.Validate`. -/
def validate (c : Context) : Except Error Unit := do
  .require (c.domain = recordDomain)
    (.errorf "record domain %q is not %q" [c.domain, recordDomain])
  .require (c.formatVersion = recordFormatVersion)
    (.errorf "unsupported record format version %d" [toString c.formatVersion])
  ID.check c.vaultID "vault_id"
  ID.check c.recordID "record_id"
  ID.check c.mutationID "mutation_id"
  ID.check c.updatedBy "updated_by"
  .require (c.recordType.valid = true) (.errorf "unknown record type %q" [c.recordType.text])
  .require (1 ≤ c.keyEpoch) (.new "key_epoch starts at 1")
  .require (1 ≤ c.rev) (.new "rev starts at 1")
  .require (c.rev = 1 → c.parentDigest = none)
    (.new "rev 1 is a creation and must not carry a parent_digest")
  .require (1 < c.rev → (c.parentDigest.getD []).length = sha256Size)
    (.errorf "rev %s needs a %d-byte parent_digest, got %d"
      [toString c.rev, toString sha256Size, toString (c.parentDigest.getD []).length])

/-- What `validate` accepts. -/
structure Valid (c : Context) : Prop where
  domain : c.domain = recordDomain
  formatVersion : c.formatVersion = recordFormatVersion
  vaultID : ID.valid c.vaultID = true
  recordID : ID.valid c.recordID = true
  mutationID : ID.valid c.mutationID = true
  updatedBy : ID.valid c.updatedBy = true
  recordType : c.recordType.valid = true
  keyEpoch : 1 ≤ c.keyEpoch
  rev : 1 ≤ c.rev
  root : c.rev = 1 → c.parentDigest = none
  parent : 1 < c.rev → (c.parentDigest.getD []).length = sha256Size

theorem validate_eq_ok {c : Context} {u : Unit} : c.validate = .ok u ↔ c.Valid := by
  simp only [validate, Except.bind_eq_ok, Except.require_eq_ok, ID.check_eq_ok]
  constructor
  · rintro ⟨-, h1, -, h2, -, h3, -, h4, -, h5, -, h6, -, h7, -, h8, -, h9, -, h10, h11⟩
    exact ⟨h1, h2, h3, h4, h5, h6, h7, h8, h9, h10, h11⟩
  · rintro ⟨h1, h2, h3, h4, h5, h6, h7, h8, h9, h10, h11⟩
    exact ⟨(), h1, (), h2, (), h3, (), h4, (), h5, (), h6, (), h7, (), h8, (), h9, (), h10, h11⟩

/-- A parent digest that passes `validate` is never empty. -/
theorem Valid.parent_ne_nil {c : Context} (h : c.Valid) {p : Bytes} (hp : c.parentDigest = some p) :
    p ≠ [] := by
  rintro rfl
  rcases Nat.lt_or_ge 1 c.rev with h1 | h1
  · have := h.parent h1; rw [hp] at this; simp [sha256Size] at this
  · have := h.root (by have := h.rev; omega); rw [hp] at this; cases this

end Context

namespace Envelope

/-- `Envelope.Validate`. -/
def validate (e : Envelope) : Except Error Unit := do
  e.context.validate
  .require (e.nonce ≠ []) (.new "envelope has no nonce")
  .require (e.ciphertext ≠ []) (.new "envelope has no ciphertext")
  .require (e.signature ≠ []) (.new "envelope has no signature")

/-- What `validate` accepts. -/
structure Valid (e : Envelope) : Prop where
  context : e.context.Valid
  nonce : e.nonce ≠ []
  ciphertext : e.ciphertext ≠ []
  signature : e.signature ≠ []

theorem validate_eq_ok {e : Envelope} {u : Unit} : e.validate = .ok u ↔ e.Valid := by
  simp only [validate, Except.bind_eq_ok, Except.require_eq_ok, Context.validate_eq_ok]
  constructor
  · rintro ⟨-, h1, -, h2, -, h3, h4⟩; exact ⟨h1, h2, h3, h4⟩
  · rintro ⟨h1, h2, h3, h4⟩; exact ⟨(), h1, (), h2, (), h3, h4⟩

/-- The envelope without the relay's number. -/
def strip (e : Envelope) : Envelope := { e with seq := 0 }

@[simp] theorem strip_context (e : Envelope) : e.strip.context = e.context := rfl
@[simp] theorem strip_seq (e : Envelope) : e.strip.seq = 0 := rfl
@[simp] theorem strip_strip (e : Envelope) : e.strip.strip = e.strip := rfl
@[simp] theorem strip_with_seq (e : Envelope) (n : ℕ) : ({ e with seq := n } : Envelope).strip = e.strip :=
  rfl

theorem context_of_strip {e e' : Envelope} (h : e.strip = e'.strip) : e.context = e'.context :=
  (Envelope.mk.inj h).1

theorem strip_eq_self {e : Envelope} (h : e.seq = 0) : e.strip = e := by
  cases e; simp only at h; subst h; rfl

end Envelope

/-! ## Conflict records -/

/-- The payload of a conflict record: the candidate that lost against the
    relay's head, kept aside for the user (`ConflictPayload`). -/
structure ConflictPayload where
  formatVersion : ℤ
  sourceRecordID : ID
  sourceRecordType : RecordType
  sourceMutationID : ID
  observedHeadDigest : Option Bytes
  preservedAt : String
  candidate : Option Bytes
  removal : Bool
  deriving DecidableEq, Repr

end Sshstate
