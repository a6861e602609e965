/-
  The nonces of signed requests at the relay (`Store.Use` in `internal/relay/auth.go`),
  and `Verify` with the relay as its nonce store.

  `use` is one transaction: it forgets the nonces whose time is up and inserts the new
  one unless the device has it.  `Guard` is a relay that verifies one request after
  another, with the results it returned.  The clock is read twice in a call, by
  `checkParams` and, later, by `Use`.
-/
import Sshstate.Httpsig.Verify

namespace Sshstate.Relay

open Httpsig

/-- `Time.Unix`. -/
def unix (t : ℤ) : ℤ := t / second

/-- A row of `request_nonce`, whose key is the device and the nonce. -/
structure NonceRow where
  deviceID : ID
  nonce : Bytes
  expiresAt : ℤ
  deriving DecidableEq, Repr

/-- `Store.Use`: whether the nonce is new, and the table after it. -/
def use (rows : List NonceRow) (now : ℤ) (deviceID : ID) (nonce : Bytes) (until_ : ℤ) :
    Except Error (Bool × List NonceRow) :=
  if nonce = [] then .error (.new "empty request nonce")
  else
    let kept := rows.filter fun row => unix now < row.expiresAt
    if kept.any fun row => row.deviceID = deviceID ∧ row.nonce = nonce then .ok (false, kept)
    else .ok (true, kept ++ [⟨deviceID, nonce, unix until_⟩])

variable (L : GoLib) (C : Suite)

/-- One call of `Verify`, and its two readings of the clock. -/
structure Verification where
  verifier : Verifier
  request : Httpsig.Request
  body : Bytes
  https : Bool
  checkedAt : ℤ
  usedAt : ℤ

/-- `Verify`, and the table after it. -/
def verify (rows : List NonceRow) (v : Verification) : Except Error Result × List NonceRow :=
  match v.verifier.check L C v.checkedAt v.request v.body v.https with
  | .error e => (.error e, rows)
  | .ok result =>
    match use rows v.usedAt result.deviceID result.nonce (result.expires + skewTolerance) with
    | .error e => (.error (.protocol .internal "record request nonce: %v" [e.text]), rows)
    | .ok (fresh, rows') =>
      if fresh then (.ok result, rows')
      else (.error (.protocol .signatureReplayed "this request has already been accepted" []), rows')

/-- A relay that verifies requests: its nonces, the last reading of its clock, and the
    results of the calls that succeeded. -/
structure Guard where
  nonces : List NonceRow
  clock : ℤ
  accepted : List Result

/-- The next call.  The clock does not run backwards; calls that overlap are taken in
    the order of their transactions. -/
def Guard.step (G : Guard) (v : Verification) : Option Guard :=
  if v.checkedAt ≤ v.usedAt ∧ G.clock ≤ v.usedAt then
    some { nonces := (verify L C G.nonces v).2
           clock := v.usedAt
           accepted := G.accepted ++ (verify L C G.nonces v).1.toOption.toList }
  else none

end Sshstate.Relay
