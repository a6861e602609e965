/-
  The primitives the program calls and does not implement: SHA-256, the JCS
  canonical encoding, ML-DSA signatures, XChaCha20-Poly1305, age and the text
  form of time.  They are the parameter `Suite` of the whole development.

  The only property built into the parameter is the length of a SHA-256 sum.
  What else a result needs of the primitives is a named hypothesis of that
  result: `Suite.Correct` (what was sealed or signed opens and verifies) and
  `Suite.KeyBound` (a signature verifies under one key only).
-/
import Sshstate.Protocol.Objects

namespace Sshstate

/-- The documents the program encodes canonically. -/
inductive Doc where
  | context (c : Context)
  /-- `signedView` -/
  | signedView (c : Context) (nonce ciphertext : Bytes)
  /-- An `Envelope`, and with `seq = 0` its `digestView`: `seq` is omitted when 0. -/
  | envelope (e : Envelope)
  | genesis (g : Genesis)
  | membershipEvent (e : MembershipEvent)
  | signedMembershipEvent (e : SignedMembershipEvent)
  | pairingOffer (o : PairingOffer)
  | pairingTranscript (t : PairingTranscript)
  | pairingConfirmation (c : PairingConfirmation)
  | bundle (b : Bundle)
  | signedBundle (b : SignedBundle)
  | exportManifest (m : ExportManifest)
  | recoveryAdmission (a : RecoveryAdmission)
  /-- `conflictIDInput` -/
  | conflictID (domain : String) (vaultID sourceRecordID sourceMutationID : ID)
  | conflictPayload (p : ConflictPayload)

/-- The primitives. -/
structure Suite where
  /-- `sha256.Sum256` -/
  sha256 : Bytes → Bytes
  sha256_length : ∀ b, (sha256 b).length = sha256Size
  /-- `Canonical` -/
  canonical : Doc → Bytes
  /-- `time.Parse(time.RFC3339, ·)`, in nanoseconds -/
  parseTime : String → Option ℤ
  /-- `stamp` -/
  stamp : ℤ → String
  /-- Whether `VerifyKeyFromBytes` accepts the key. -/
  verifyKeyOK : Bytes → Bool
  /-- `Verify`: key, domain, message, signature -/
  verify : Bytes → String → Bytes → Bytes → Bool
  /-- `SigningKey.Verifier().Bytes()` -/
  verifier : Bytes → Bytes
  /-- `SigningKey.Sign`: seed, entropy, domain, message -/
  sign : Bytes → Bytes → String → Bytes → Bytes
  /-- `SealAEAD`: key, nonce, plaintext, associated data -/
  sealAEAD : Bytes → Bytes → Bytes → Bytes → Bytes
  /-- `OpenAEAD`: key, nonce, ciphertext, associated data -/
  openAEAD : Bytes → Bytes → Bytes → Bytes → Option Bytes
  /-- `ParseRecipient`; a recipient is its `String()` -/
  parseRecipient : String → Option String
  /-- `EncryptionKey.Recipient().String()` -/
  recipient : Bytes → String
  /-- `Seal` and `SealBounded`: plaintext, recipient, entropy -/
  sealTo : Bytes → String → Bytes → Bytes
  /-- `Open` and `OpenBounded`: identity, ciphertext -/
  openWith : Bytes → Bytes → Option Bytes
  /-- `StrictUnmarshal` of a signed bundle -/
  unmarshalBundle : Bytes → Option SignedBundle
  /-- The lines of `ParseSnapshot` -/
  unmarshalSnapshot : Bytes → Option (List Envelope)

namespace Suite

variable (C : Suite)

/-- SHA-256 over the canonical encoding. -/
def hash (d : Doc) : Bytes := C.sha256 (C.canonical d)

theorem hash_length (d : Doc) : (C.hash d).length = sha256Size := C.sha256_length _

theorem hash_ne_nil (d : Doc) : C.hash d ≠ [] := by
  intro h; have := C.hash_length d; rw [h] at this; simp [sha256Size] at this

/-- What is sealed opens and what is signed verifies, the nonce and the
    ciphertext are not empty, and neither is a signature. -/
structure Correct : Prop where
  open_seal : ∀ key nonce plaintext aad,
    C.openAEAD key nonce (C.sealAEAD key nonce plaintext aad) aad = some plaintext
  seal_ne_nil : ∀ key nonce plaintext aad, C.sealAEAD key nonce plaintext aad ≠ []
  verify_sign : ∀ seed r domain msg,
    C.verify (C.verifier seed) domain msg (C.sign seed r domain msg) = true
  sign_ne_nil : ∀ seed r domain msg, C.sign seed r domain msg ≠ []

/-- A signature verifies under at most one key. -/
def KeyBound : Prop :=
  ∀ k k' domain msg sig, C.verify k domain msg sig = true → C.verify k' domain msg sig = true →
    k = k'

/-- `VerifyKeyFromBytes`: a key is the bytes it was parsed from. -/
def verifyKeyFromBytes (b : Bytes) : Except Error Bytes :=
  if C.verifyKeyOK b then .ok b else .error (.new "parse verify key")

theorem verifyKeyFromBytes_eq_ok {b k : Bytes} :
    C.verifyKeyFromBytes b = .ok k ↔ C.verifyKeyOK b = true ∧ k = b := by
  unfold verifyKeyFromBytes; split_ifs with h <;> simp [h, eq_comm]

/-- `Verify`, as the error it returns. -/
def verifySignature (key : Bytes) (domain : String) (msg sig : Bytes) : Except Error Unit :=
  .require (C.verify key domain msg sig = true) (.new "signature does not verify")

@[simp] theorem verifySignature_eq_ok {key msg sig : Bytes} {domain : String} {u : Unit} :
    C.verifySignature key domain msg sig = .ok u ↔ C.verify key domain msg sig = true := by
  simp [verifySignature]

end Suite

variable (C : Suite)

/-! ## Digests and signing inputs -/

/-- `Context.AAD`. -/
def Context.aad (c : Context) : Bytes := C.canonical (.context c)

/-- `Envelope.SigningInput`. -/
def Envelope.signingInput (e : Envelope) : Bytes :=
  C.canonical (.signedView e.context e.nonce e.ciphertext)

/-- The bytes `Envelope.Digest` returns for a signed envelope. -/
def Envelope.digest (e : Envelope) : Bytes := C.hash (.envelope e.strip)

/-- `Envelope.Digest`. -/
def Envelope.digestE (e : Envelope) : Except Error Bytes := do
  .require (e.signature ≠ []) (.new "digest: envelope is unsigned")
  return e.digest C

@[simp] theorem Envelope.digest_strip (e : Envelope) : e.strip.digest C = e.digest C := rfl

@[simp] theorem Envelope.digest_with_seq (e : Envelope) (n : ℕ) :
    ({ e with seq := n } : Envelope).digest C = e.digest C := rfl

theorem Envelope.digest_of_strip {e e' : Envelope} (h : e.strip = e'.strip) :
    e.digest C = e'.digest C := congrArg (fun e => C.hash (.envelope e)) h

theorem Envelope.digest_ne_nil (e : Envelope) : e.digest C ≠ [] := C.hash_ne_nil _

theorem Envelope.digestE_eq_ok {e : Envelope} {d : Bytes} :
    e.digestE C = .ok d ↔ e.signature ≠ [] ∧ d = e.digest C := by
  simp only [digestE, Except.require_bind_eq_ok, Except.pure_eq_ok, Except.ok.injEq]
  exact and_congr_right fun _ => eq_comm

/-- `Genesis.Digest`. -/
def Genesis.digest (g : Genesis) : Bytes := C.hash (.genesis g)

/-- `SignedMembershipEvent.Digest`. -/
def SignedMembershipEvent.digest (s : SignedMembershipEvent) : Except Error Bytes := do
  .require (s.signature ≠ []) (.new "digest: membership event is unsigned")
  return C.hash (.signedMembershipEvent s)

theorem SignedMembershipEvent.digest_eq_ok {s : SignedMembershipEvent} {d : Bytes} :
    s.digest C = .ok d ↔ s.signature ≠ [] ∧ d = C.hash (.signedMembershipEvent s) := by
  simp only [digest, Except.require_bind_eq_ok, Except.pure_eq_ok, Except.ok.injEq]
  exact and_congr_right fun _ => eq_comm

/-- `PairingTranscript.Digest`. -/
def PairingTranscript.digest (t : PairingTranscript) : Bytes := C.hash (.pairingTranscript t)

/-- `ConflictIDDomain`. -/
def conflictIDDomain : String := "sshstate.conflict-id.v1"

/-- The id `ConflictID` computes: the first 16 bytes of the digest, in hex. -/
def conflictIDOf (vaultID sourceRecordID sourceMutationID : ID) : ID :=
  ID.hexEncode ((C.hash (.conflictID conflictIDDomain vaultID sourceRecordID sourceMutationID)).take
    ID.idBytes)

/-- `ConflictID`. -/
def conflictID (vaultID sourceRecordID sourceMutationID : ID) : Except Error ID := do
  ID.check vaultID "vault_id"
  ID.check sourceRecordID "source_record_id"
  ID.check sourceMutationID "source_mutation_id"
  return conflictIDOf C vaultID sourceRecordID sourceMutationID

theorem conflictID_eq_ok {v r m i : ID} :
    conflictID C v r m = .ok i ↔
      ID.valid v = true ∧ ID.valid r = true ∧ ID.valid m = true ∧ i = conflictIDOf C v r m := by
  simp only [conflictID, ID.check_bind_eq_ok, Except.pure_eq_ok, Except.ok.injEq]
  exact and_congr_right fun _ => and_congr_right fun _ => and_congr_right fun _ => eq_comm

end Sshstate
