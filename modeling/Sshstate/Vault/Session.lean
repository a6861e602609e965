/-
  Unlock sessions (`internal/vault`: `manager.go`, `manager_ops.go`).

  A session holds the keys of an unlocked vault until one of its two deadlines: the hard one
  is set when the vault is unlocked, and the idle one is moved by `Touch` and by every
  mutation that succeeds.  That a deadline has passed is noticed by the next call that asks
  for the session.  Times are nanoseconds, and every reading of the clock is an argument of
  the call that makes it.  `Chest` is what `Unlock` gets from the store and from the
  cryptographic library.
-/
import Sshstate.Vault.Record

namespace Sshstate.Vault

/-- `IdleTimeout`. -/
def idleTimeout : ℤ := 15 * 60 * 1000000000

/-- `HardTimeout`. -/
def hardTimeout : ℤ := 8 * 60 * 60 * 1000000000

/-- `ErrLocked`. -/
def errLocked : Error := .new "vault is locked"

/-- `ErrRecoveryUnconfirmed`. -/
def errRecoveryUnconfirmed : Error :=
  .new "recovery kit has not been confirmed; run: sshstate confirm-recovery --kit <path>"

structure Session where
  keys : Keys
  signing : Bytes
  encryption : Bytes
  hardDeadline : ℤ
  idleDeadline : ℤ
  deriving DecidableEq, Repr

/-- The fields of `Manager` that `Unlock` and the sessions use. -/
structure SessionManager where
  genesis : Genesis
  deviceID : ID
  current : Option Session

/-- What `Unlock` reads and computes with: the wrapped secrets of the store and the key epoch,
    and how secrets are unwrapped and keys are read. -/
structure Chest where
  wrapper : (purpose : String) → Except Error Bytes
  unwrap : (wrapped password : Bytes) → (purpose : String) → Except Error Bytes
  signingKeyFromSeed : Bytes → Except Error Bytes
  verifierBytes : (signing : Bytes) → Bytes
  parseEncryptionKey : Bytes → Except Error Bytes
  symmetricKeyFromBytes : Bytes → Except Error Bytes
  keyEpoch : Except Error (List Char)
  parseCounter : List Char → Except Error ℕ

namespace SessionManager

/-- `newSession`. -/
def newSession (keys : Keys) (signing encryption : Bytes) (now : ℤ) : Session where
  keys := keys
  signing := signing
  encryption := encryption
  hardDeadline := now + hardTimeout
  idleDeadline := now + idleTimeout

/-- The part of `Unlock` before the new session: the secrets are unwrapped one after the other. -/
def unlockKeys (m : SessionManager) (c : Chest) (password : Bytes) :
    Except Error (Keys × Bytes × Bytes) := do
  let get (purpose : String) : Except Error Bytes := do
    let w ← c.wrapper purpose
    c.unwrap w password purpose
  let signingSeed ← get "device-signing-key"
  let signing ← c.signingKeyFromSeed signingSeed
  .require (¬ (c.verifierBytes signing ≠ m.genesis.firstDeviceVerifyKey ∧
      m.deviceID = m.genesis.firstDeviceID))
    (.new "stored device signing key does not match the one pinned in genesis")
  let identity ← get "device-encryption-key"
  let encryption ← c.parseEncryptionKey identity
  let metadataRaw ← get "vault-metadata-key"
  let metadata ← c.symmetricKeyFromBytes metadataRaw
  let secretRaw ← get "vault-secret-key"
  let secret ← c.symmetricKeyFromBytes secretRaw
  let epoch ← c.keyEpoch
  let e ← (c.parseCounter epoch).mapError (.wrap "stored key epoch is malformed: %w" [])
  return ({ epoch := e, metadata, secret }, signing, encryption)

/-- `Manager.lockLocked`. -/
def lockLocked (m : SessionManager) : SessionManager := { m with current := none }

/-- `Manager.session`. -/
def session (m : SessionManager) (now : ℤ) : Except Error Session × SessionManager :=
  match m.current with
  | none => (.error errLocked, m)
  | some s =>
    if ¬ now < s.hardDeadline ∨ ¬ now < s.idleDeadline then (.error errLocked, m.lockLocked)
    else (.ok s, m)

/-- `m.current.idleDeadline = now.Add(IdleTimeout)`. -/
def extend (m : SessionManager) (now : ℤ) : SessionManager :=
  { m with current := m.current.map fun s => { s with idleDeadline := now + idleTimeout } }

end SessionManager

/-- A call of the manager, with the readings of the clock it makes.  The function that `read`
    or `mutate` is given returns an error or not; `later` is read after it. -/
inductive SessionCall where
  | unlock (c : Chest) (password : Bytes) (now : ℤ)
  | lock
  | touch (now later : ℤ)
  | expire (now : ℤ)
  | read (now : ℤ) (body : Session → Except Error Unit)
  | mutate (recoveryConfirmed : Bool) (now : ℤ) (body : Session → Except Error Unit) (later : ℤ)

/-- What a call did: the time at which it ran the function it was given, if it did, and its
    result.  `Touch` has the result of its check, and `Expire` returns whether it failed. -/
structure Report where
  ran : Option ℤ
  result : Except Error Unit

namespace SessionManager

/-- `Unlock`, `Lock`, `Touch`, `Expire`, `read` and `mutate`. -/
def step (m : SessionManager) : SessionCall → SessionManager × Report
  | .unlock c password now =>
    match m.unlockKeys c password with
    | .error e => (m, { ran := none, result := .error e })
    | .ok (keys, signing, encryption) =>
      ({ m with current := some (newSession keys signing encryption now) },
        { ran := none, result := .ok () })
  | .lock => (m.lockLocked, { ran := none, result := .ok () })
  | .touch now later =>
    match m.session now with
    | (.error e, m) => (m, { ran := none, result := .error e })
    | (.ok _, m) => (m.extend later, { ran := none, result := .ok () })
  | .expire now =>
    match m.session now with
    | (.error e, m) => (m, { ran := none, result := .error e })
    | (.ok _, m) => (m, { ran := none, result := .ok () })
  | .read now body =>
    match m.session now with
    | (.error e, m) => (m, { ran := none, result := .error e })
    | (.ok s, m) => (m, { ran := some now, result := body s })
  | .mutate recoveryConfirmed now body later =>
    if recoveryConfirmed = false then (m, { ran := none, result := .error errRecoveryUnconfirmed })
    else
      match m.session now with
      | (.error e, m) => (m, { ran := none, result := .error e })
      | (.ok s, m) =>
        match body s with
        | .error e => (m, { ran := some now, result := .error e })
        | .ok _ => (m.extend later, { ran := some now, result := .ok () })

/-- The manager after a sequence of calls. -/
def after (m : SessionManager) (calls : List SessionCall) : SessionManager :=
  calls.foldl (fun m c => (m.step c).1) m

end SessionManager

end Sshstate.Vault
