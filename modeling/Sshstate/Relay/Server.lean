/-
  How the relay answers the requests of a Sync (`internal/relay`: `handlers.go`,
  `server.go`).

  A request is signed by a device; `authenticate` looks the device up in the
  chain.  The signature of the request itself is not modelled: it verifies when
  the sender's key is the one of the chain.  The texts that the client wraps
  around an error (`asMember`) are left out; they keep its code.
-/
import Sshstate.Relay.Store

namespace Sshstate.Relay.Store

variable (C : Suite)

/-- Who sends a request: the vault, the device and its public key. -/
structure Sender where
  vaultID : ID
  deviceID : ID
  verifyKey : Bytes

/-- `ResolveVerifyKey` and the check of the request's signature. -/
def authenticate (st : Store) (s : Sender) : Except Error Unit := do
  let chain ← st.chain C s.vaultID
  match chain.device s.deviceID with
  | none => .error (.protocol .deviceUnknown "device %s is not in the membership chain"
      [ID.text s.deviceID])
  | some d => do
    .require (d.revoked = false)
      (.protocol .deviceRevoked "device %s was revoked" [ID.text s.deviceID])
    .require (d.verifyKey = s.verifyKey)
      (.protocol .signatureInvalid "request signature does not verify" [])

/-- `handleGetRecords`. -/
def records (st : Store) (since through limit : ℕ) : Except Error RecordsResponse := do
  let page ← st.changes C since through limit
  return { changes := page.changes, nextCursor := page.nextCursor,
           snapshotCursor := page.snapshotCursor, hasMore := page.hasMore, history := st.history,
           historyOrigin := st.historyOrigin }

/-- The client's reading of an outcome (`Client.PutRecord`). -/
def putResult (out : PutOutcome) : Except Error PutResult :=
  if out.accepted then .ok (.accepted out.seq out.digest)
  else match out.head with
    | none => .error (.protocol .internal
        "the relay rejected a write without returning the head it rejected it against" [])
    | some head => .ok (.rejected head)

/-- `handlePutRecord`: the client submits the envelope without its number. -/
def submitRecord (st : Store) (s : Sender) (env : Envelope) (now : String) :
    Except Error PutResult × Store :=
  match (do st.authenticate C s; st.putRecord C s.vaultID env.strip now) with
  | .error err => (.error err, st)
  | .ok (out, st') => (putResult out, st')

/-- The answer to a request, and the store afterwards. -/
def answer (st : Store) (s : Sender) (now : String) : Request → Reply × Store
  | .membership => (.membership (do st.authenticate C s; return st.membership), st)
  | .records since through limit =>
    (.records (do st.authenticate C s; st.records C since through limit), st)
  | .putRecord env =>
    let (r, st') := st.submitRecord C s env now
    (.putRecord r, st')

end Sshstate.Relay.Store
