/-
  Recovery at the relay (`handleRecoveryChallenge` and `handleRecoveryComplete` in
  `internal/relay/handlers.go`, the recovery nonces of `internal/relay/envelopes.go`).

  A challenge is a row of `recovery_nonce`.  A completed recovery consumes it, with one
  `DELETE`, before anything else is checked; then come the admission, which the recovery
  key signs, and the event, which `AppendMembership` appends.

  The relay answers each request in a goroutine of its own: a `RecoveryTask` is a request
  between two of its statements.  `Ledger` keeps, next to the tables, the challenges that
  were issued, the requests whose nonce was consumed and those whose event was appended.
  The recovery envelope in the answer to a challenge is left out.
-/
import Sshstate.Relay.Concurrent
import Sshstate.Relay.Nonces
import Sshstate.Relay.Pairing

namespace Sshstate.Relay

open Httpsig (second)

variable (C : Suite)

/-- `RecoveryAdmitDomain`. -/
def recoveryAdmitDomain : String := "sshstate.recovery-admit.v1"

/-- `RecoveryChallengeTTL`. -/
def recoveryChallengeTTL : ℤ := 600 * second

/-- `RecoveryCompleteRequest`. -/
structure RecoveryCompleteRequest where
  admission : RecoveryAdmission
  signature : Bytes
  membershipEvent : SignedMembershipEvent
  deriving DecidableEq, Repr

/-- A row of `recovery_nonce`, whose key is the vault and the nonce. -/
structure RecoveryRow where
  vaultID : ID
  nonce : String
  expiresAt : ℤ
  deriving DecidableEq, Repr

/-- The transaction of `NewRecoveryChallenge`. -/
def insertChallenge (rows : List RecoveryRow) (now : ℤ) (row : RecoveryRow) :
    Except Error (List RecoveryRow) :=
  let kept := rows.filter fun r => unix now < r.expiresAt
  if kept.any fun r => r.vaultID = row.vaultID ∧ r.nonce = row.nonce then
    .error (.new "UNIQUE constraint failed: recovery_nonce.vault_id, recovery_nonce.nonce")
  else .ok (kept ++ [row])

/-- The rows that `ConsumeRecoveryChallenge` deletes. -/
def RecoveryRow.consumedBy (now : ℤ) (vaultID : ID) (nonce : String) (r : RecoveryRow) : Bool :=
  r.vaultID = vaultID ∧ r.nonce = nonce ∧ unix now < r.expiresAt

/-- `ConsumeRecoveryChallenge`, and the table after it. -/
def consumeRecoveryChallenge (rows : List RecoveryRow) (now : ℤ) (vaultID : ID) (nonce : String) :
    Except Error Unit × List RecoveryRow :=
  if nonce = "" then (.error (.protocol .invalidRequest "no recovery nonce" []), rows)
  else
    (.require (rows.countP (·.consumedBy now vaultID nonce) = 1) (.protocol .notAuthorized
      "this recovery challenge is unknown, expired, or already used" []),
     rows.filter fun r => !r.consumedBy now vaultID nonce)

/-- The checks of `handleRecoveryComplete` before the nonce is consumed. -/
def checkAdmission (vaultID : ID) (g : Genesis) (a : RecoveryAdmission) : Except Error Unit := do
  .require (a.domain = recoveryAdmitDomain ∧ a.formatVersion = 1)
    (.protocol .unsupportedVer "unrecognized recovery admission" [])
  .require (a.vaultID = vaultID) (.protocol .notFound "no such vault" [])
  .require (a.genesisDigest = g.digest C)
    (.protocol .notAuthorized "the admission pins a different genesis" [])

/-- Its checks after that. -/
def checkProof (g : Genesis) (req : RecoveryCompleteRequest) : Except Error Unit := do
  let key ← C.verifyKeyFromBytes g.recoveryVerifyKey
  .require (C.verify key recoveryAdmitDomain (C.canonical (.recoveryAdmission req.admission))
      req.signature = true)
    (.protocol .notAuthorized "the admission is not signed by the recovery key" [])
  .require (req.membershipEvent.event.deviceID = req.admission.deviceID)
    (.protocol .idMismatch "the enrolment names a different device than the admission" [])
  .require (req.membershipEvent.event.authority = .recovery)
    (.protocol .notAuthorized "a recovery enrolment must carry recovery authority" [])

/-! ## Requests at work -/

/-- A challenge, and when it was stored. -/
structure Issued where
  row : RecoveryRow
  time : ℤ
  deriving DecidableEq, Repr

/-- A request, and when its nonce was consumed. -/
structure Admitted where
  request : RecoveryCompleteRequest
  time : ℤ
  deriving DecidableEq, Repr

/-- A request between two of its statements. -/
inductive RecoveryTask where
  | challenge (vaultID : ID) (nonce : String)
  | challengeVault (vaultID : ID) (nonce : String)
  | challengeGenesis (vaultID : ID) (nonce : String)
  | challengeDrawn (row : RecoveryRow)
  | challengeDone (result : Except Error RecoveryRow)
  | complete (req : RecoveryCompleteRequest)
  | completeVault (req : RecoveryCompleteRequest) (vaultID : ID)
  | completeChecked (req : RecoveryCompleteRequest) (vaultID : ID) (g : Genesis)
  | appending (a : Admitted) (task : Task)
  | completeDone (result : Except Error Membership.Chain)
  deriving DecidableEq

/-- The tables, and what happened to them. -/
structure Ledger where
  store : Store
  nonces : List RecoveryRow
  issued : List Issued
  admitted : List Admitted
  appended : List Admitted

/-- The next statement of a request at the time `now`. -/
def RecoveryTask.next (now : ℤ) (L : Ledger) : RecoveryTask → Option (RecoveryTask × Ledger)
  | .challenge vaultID nonce =>
    match (do
      let id ← L.store.vaultID
      .require (vaultID = id) (.protocol .notFound "no such vault" []) : Except Error Unit) with
    | .error err => some (.challengeDone (.error err), L)
    | .ok _ => some (.challengeVault vaultID nonce, L)
  | .challengeVault vaultID nonce =>
    match L.store.genesis vaultID with
    | .error err => some (.challengeDone (.error err), L)
    | .ok _ => some (.challengeGenesis vaultID nonce, L)
  | .challengeGenesis vaultID nonce =>
    match L.store.genesis vaultID with
    | .error err => some (.challengeDone (.error err), L)
    | .ok _ => some (.challengeDrawn ⟨vaultID, nonce, unix (now + recoveryChallengeTTL)⟩, L)
  | .challengeDrawn row =>
    match insertChallenge L.nonces now row with
    | .error err => some (.challengeDone (.error err), L)
    | .ok rows => some (.challengeDone (.ok row),
        { L with nonces := rows, issued := L.issued ++ [⟨row, now⟩] })
  | .challengeDone _ => none
  | .complete req =>
    match L.store.vaultID with
    | .error err => some (.completeDone (.error err), L)
    | .ok id => some (.completeVault req id, L)
  | .completeVault req vaultID =>
    match (do
      let g ← L.store.genesis vaultID
      checkAdmission C vaultID g req.admission
      return g : Except Error Genesis) with
    | .error err => some (.completeDone (.error err), L)
    | .ok g => some (.completeChecked req vaultID g, L)
  | .completeChecked req vaultID g =>
    match consumeRecoveryChallenge L.nonces now vaultID req.admission.nonce with
    | (.error err, rows) => some (.completeDone (.error err), { L with nonces := rows })
    | (.ok _, rows) =>
      let L' := { L with nonces := rows, admitted := L.admitted ++ [⟨req, now⟩] }
      match checkProof C g req with
      | .error err => some (.completeDone (.error err), L')
      | .ok _ => some (.appending ⟨req, now⟩ (.append vaultID req.membershipEvent), L')
  | .appending a task =>
    match task.next C L.store with
    | none => none
    | some (.appendDone (.ok chain), st) =>
      some (.completeDone (.ok chain), { L with store := st, appended := L.appended ++ [a] })
    | some (.appendDone (.error err), st) => some (.completeDone (.error err), { L with store := st })
    | some (task', st) => some (.appending a task', { L with store := st })
  | .completeDone _ => none

/-- The relay with its recovery requests. -/
structure RecoveryDesk where
  ledger : Ledger
  clock : ℤ
  tasks : List RecoveryTask

/-- A relay to which no challenge was issued. -/
def RecoveryDesk.start (st : Store) (now : ℤ) : RecoveryDesk where
  ledger := { store := st, nonces := [], issued := [], admitted := [], appended := [] }
  clock := now
  tasks := []

/-- A new request, with the nonce that is drawn for a challenge, or the next statement of
    the `i`-th one at the time `now`. -/
inductive RecoveryTurn where
  | challenge (vaultID : ID) (nonce : String)
  | complete (req : RecoveryCompleteRequest)
  | advance (i : ℕ) (now : ℤ)
  deriving DecidableEq

/-- The clock does not run backwards. -/
def RecoveryDesk.step (D : RecoveryDesk) : RecoveryTurn → Option RecoveryDesk
  | .challenge vaultID nonce => some { D with tasks := D.tasks ++ [.challenge vaultID nonce] }
  | .complete req => some { D with tasks := D.tasks ++ [.complete req] }
  | .advance i now =>
    if D.clock ≤ now then do
      let task ← D.tasks[i]?
      let (task', L) ← task.next C now D.ledger
      some { ledger := L, clock := now, tasks := D.tasks.set i task' }
    else none

end Sshstate.Relay
