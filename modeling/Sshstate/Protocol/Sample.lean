/-
  A small instance of the primitives, on which concrete runs are evaluated, and
  the vault of those runs.

  An encoding keeps the fields by which the objects of such a run differ, a
  digest pads it to 32 bytes, a signature is the key followed by the message,
  and sealing adds one byte.
-/
import Sshstate.Membership.Build

namespace Sshstate

namespace Sample

/-- The `n`-th id of a run, `n < 256`. -/
def id (n : ℕ) : ID := List.replicate 30 '0' ++ [ID.hexDigit (n / 16), ID.hexDigit (n % 16)]

/-- The last two characters of an id, by which the ids of a run differ. -/
def tag (id : ID) : Bytes := (id.drop (id.length - 2)).map fun c => c.toNat.toUInt8

def canonical : Doc → Bytes
  | .context c => 1 :: tag c.mutationID
  | .signedView c nonce ciphertext =>
    2 :: c.rev.toUInt8 :: tag c.recordID ++ tag c.mutationID ++ nonce ++ ciphertext
  | .envelope e => 3 :: e.context.rev.toUInt8 :: tag e.context.recordID ++ tag e.context.mutationID
  | .genesis g => 4 :: tag g.vaultID ++ tag g.firstDeviceID
  | .membershipEvent e => 5 :: e.chainSeq.toUInt8 :: tag e.deviceID ++ tag e.authorizedBy
  | .signedMembershipEvent s => 6 :: s.event.chainSeq.toUInt8 :: tag s.event.deviceID
  | .pairingOffer o => 7 :: tag o.joinerDeviceID
  | .pairingTranscript t => 8 :: tag t.approverDeviceID ++ tag t.joinerDeviceID
  | .pairingConfirmation c => 9 :: tag c.deviceID
  | .bundle b => 10 :: tag b.vaultID
  | .signedBundle b => 11 :: tag b.bundle.vaultID
  | .exportManifest m => 14 :: tag m.vaultID ++ tag m.exportedBy
  | .recoveryAdmission a => 15 :: tag a.vaultID ++ tag a.deviceID
  | .conflictID _ _ r m => 12 :: tag r ++ tag m
  | .conflictPayload p =>
    13 :: (if p.removal then 1 else 0) :: tag p.sourceMutationID ++ p.candidate.getD []

theorem nonce_ne_nil : ([9] : Bytes) ≠ [] := by decide

theorem payload_ne_nil : ([5] : Bytes) ≠ [] := by decide

/-- Pad or cut to 32 bytes. -/
def sha256 (b : Bytes) : Bytes := (b ++ List.replicate sha256Size 0).take sha256Size

theorem sha256_length (b : Bytes) : (sha256 b).length = sha256Size := by
  simp [sha256]

end Sample

/-- The sample primitives. -/
def sample : Suite where
  sha256 := Sample.sha256
  sha256_length := Sample.sha256_length
  canonical := Sample.canonical
  parseTime := fun s => if s = "t0" then some 0 else if s = "t1" then some (600 * 10 ^ 9) else none
  stamp := fun t => if t = 0 then "t0" else "t1"
  verifyKeyOK := fun b => b ≠ []
  verify := fun key _ msg sig => sig = 1 :: (key ++ msg)
  verifier := fun seed => seed
  sign := fun seed _ _ msg => 1 :: (seed ++ msg)
  sealAEAD := fun _ _ plaintext _ => 7 :: plaintext
  openAEAD := fun _ _ ciphertext _ => ciphertext.tail?
  parseRecipient := fun s => if s = "" then none else some s
  recipient := fun identity => String.ofList (identity.map fun b => Char.ofNat b.toNat)
  sealTo := fun plaintext _ _ => 8 :: plaintext
  openWith := fun _ ciphertext => ciphertext.tail?
  unmarshalBundle := fun _ => none
  unmarshalSnapshot := fun _ => some []

theorem sample_correct : sample.Correct where
  open_seal := fun _ _ _ _ => rfl
  seal_ne_nil := fun _ _ _ _ => by simp [sample]
  verify_sign := fun _ _ _ _ => by simp [sample]
  sign_ne_nil := fun _ _ _ _ => by simp [sample]

theorem sample_keyBound : sample.KeyBound := by
  intro k k' domain msg sig h h'
  simp only [sample, decide_eq_true_eq] at h h'
  have heq : k ++ msg = k' ++ msg := by simpa using h.symm.trans h'
  exact List.append_cancel_right heq

/-! ## The vault `01` -/

namespace Sample

/-- The vault as founded by the device `dev` with the verify key `k` and the recipient `r`. -/
def founded (dev : ID) (k : Bytes) (r : String) : Genesis :=
  { domain := genesisDomain, formatVersion := 1, suite := suiteID, vaultID := id 0x01,
    createdAt := "t0", firstDeviceID := dev, firstDeviceVerifyKey := k, firstDeviceRecipient := r,
    recoveryVerifyKey := [12], recoveryRecipient := "C" }

/-- Its root event. -/
def root (dev : ID) (k : Bytes) (r : String) : SignedMembershipEvent :=
  Membership.sign sample
    { domain := membershipDomain, formatVersion := 1, suite := suiteID, vaultID := id 0x01,
      eventID := [], chainSeq := 1, parentDigest := none, action := .enroll, deviceID := dev,
      deviceVerifyKey := some k, deviceRecipient := some r,
      transcriptDigest := some (List.replicate 32 0), authority := .device, authorizedBy := dev,
      createdAt := "t0" } k (id 0x07) []

/-- The genesis of the runs whose first device is `0a`. -/
def genesis : Genesis := founded (id 0x0a) [10] "A"

/-- Its chain of one event. -/
def firstChain : Membership.Chain :=
  (Membership.validate sample genesis [root (id 0x0a) [10] "A"]).get (by decide)

/-- `0a` enrols the device `0b`. -/
def enrolment : SignedMembershipEvent :=
  (firstChain.enroll sample { deviceID := id 0x0a, key := [10] }
    { id := id 0x0b, verifyKey := [11], recipient := "B" } (List.replicate 32 1) 0 (id 0x08) []).get
    (by decide)

/-- `0a` enrols the device `0c` in its place. -/
def otherEnrolment : SignedMembershipEvent :=
  (firstChain.enroll sample { deviceID := id 0x0a, key := [10] }
    { id := id 0x0c, verifyKey := [12], recipient := "C" } (List.replicate 32 1) 0 (id 0x08) []).get
    (by decide)

/-- The chain of both devices. -/
def pairChain : Membership.Chain := (firstChain.append sample enrolment).get (by decide)

/-- `0a` revokes the device `0b`. -/
def revocation : SignedMembershipEvent :=
  (pairChain.revoke sample { deviceID := id 0x0a, key := [10] } (id 0x0b) 0 (id 0x09) []).get
    (by decide)

/-- A version of the host record `r`, written by the mutation `m` of the device `dev`. -/
def version (dev : ID) (key : Bytes) (r m : ID) (rev : ℕ) (parent : Option Bytes) : Envelope :=
  let env : Envelope :=
    { context := { domain := recordDomain, formatVersion := recordFormatVersion,
                   vaultID := id 0x01, recordID := r, recordType := .host, keyEpoch := 1,
                   rev := rev, parentDigest := parent, mutationID := m, updatedBy := dev,
                   deleted := false },
      nonce := [9], ciphertext := [7, 5], signature := [], seq := 0 }
  { env with signature := sample.sign key [] recordSignatureDomain (env.signingInput sample) }

end Sample

end Sshstate
