/-
  The relay's store (`internal/relay`: `store.go`, `history.go`).

  A relay holds one vault.  Its tables are the fields of `Store`: `log` is
  `change_log` in the order of insertion, `heads` is `record_head`, `mutations`
  is `mutation`, `ancestors` is `record_ancestor` and `membership` is the chain
  in the order of `chain_seq`.  A table with a primary key is an `AList`.  The
  text of a stored envelope is the envelope it decodes to; reading it back sets
  `seq` to the column (`decodeEnvelope`).

  An operation returns `Except`; a failed one changes nothing (its transaction
  is rolled back), see `Store.call`.  Left out are the tables of pairing
  sessions, key envelopes, recovery and request nonces, and the bootstrap row.
-/
import Sshstate.Lib.KeyedLog
import Sshstate.Membership.Chain
import Sshstate.Protocol.Api

namespace Sshstate.Relay

variable (C : Suite)

/-! ## Tables -/

/-- A row of `vault`. -/
structure VaultRow where
  genesis : Genesis
  keyEpoch : ℕ
  deriving DecidableEq, Repr

/-- A row of `record_head`. -/
structure HeadRow where
  rev : ℕ
  digest : Bytes
  seq : ℕ
  deleted : Bool
  envelope : Envelope
  deriving DecidableEq, Repr

/-- A row of `change_log`. -/
structure LogRow where
  seq : ℕ
  recordID : ID
  envelope : Envelope
  deriving DecidableEq, Repr

/-- A row of `mutation`: the outcome of a submission, kept for its retries. -/
structure MutationRow where
  requestDigest : Bytes
  accepted : Bool
  code : Option Code
  seq : Option ℕ
  digest : Option Bytes
  recordID : ID
  createdAt : String
  deriving DecidableEq, Repr

/-- The relay's database. -/
structure Store where
  vault : Option VaultRow
  history : String
  historyOrigin : String
  membership : List SignedMembershipEvent
  log : List LogRow
  heads : AList fun _ : ID => HeadRow
  ancestors : List (ID × Bytes)
  mutations : AList fun _ : ID => MutationRow

namespace Store

/-- A relay that holds a vault and no record yet (`createVaultTx`). -/
def created (g : Genesis) (events : List SignedMembershipEvent) (history origin : String) : Store where
  vault := some { genesis := g, keyEpoch := 1 }
  history := history
  historyOrigin := origin
  membership := events
  log := []
  heads := ∅
  ancestors := []
  mutations := ∅

/-! ## Membership -/

/-- `Store.Genesis`. -/
def genesis (st : Store) (vaultID : ID) : Except Error Genesis :=
  match st.vault with
  | some v => if v.genesis.vaultID = vaultID then .ok v.genesis
    else .error (.protocol .notFound "no such vault" [])
  | none => .error (.protocol .notFound "no such vault" [])

/-- `Store.Chain`. -/
def chain (st : Store) (vaultID : ID) : Except Error Membership.Chain := do
  let g ← st.genesis vaultID
  (Membership.validate C g st.membership).mapError (.wrap "stored membership chain: %w" [])

/-- `Store.AppendMembership`. -/
def appendMembership (st : Store) (vaultID : ID) (ev : SignedMembershipEvent) :
    Except Error (Membership.Chain × Store) := do
  let chain ← st.chain C vaultID
  let next ← (chain.append C ev).mapError fun err => .protocol .chainMismatch "%v" [err.text]
  .require (ev.event.chainSeq ≤ maxInt64)
    (.protocol .invalidRequest "%s is too large to store" ["chain_seq"])
  return (next, { st with membership := st.membership ++ [ev] })

/-! ## Records -/

/-- `counterToInt`. -/
def counterToInt (c : ℕ) (field : String) : Except Error ℕ := do
  .require (c ≤ maxInt64) (.protocol .invalidRequest "%s is too large to store" [field])
  return c

/-- `SELECT coalesce(max(seq), 0) FROM change_log`. -/
def currentSeq (st : Store) : ℕ := (st.log.map LogRow.seq).foldr max 0

/-- `SELECT coalesce(max(seq), 0) + 1`; past the largest `int64` the sum is no
    longer an integer and the scan fails. -/
def nextSeq (st : Store) : Except Error ℕ := do
  .require (st.currentSeq + 1 ≤ maxInt64) (.new "sql: Scan error")
  return st.currentSeq + 1

/-- `decodeEnvelope`. -/
def decodeEnvelope (doc : Envelope) (seq : ℕ) : Envelope := { doc with seq := seq }

/-- `headTx`. -/
def head (st : Store) (recordID : ID) : Option Envelope :=
  (st.heads.lookup recordID).map fun row => decodeEnvelope row.envelope row.seq

/-- `rememberAncestorsTx`. -/
def rememberAncestors (st : Store) (recordID : ID) (digests : List Bytes) : Store :=
  let remember (acc : List (ID × Bytes)) (d : Bytes) := if d = [] then acc else acc.insert (recordID, d)
  { st with ancestors := digests.foldl remember st.ancestors }

/-- The rows a new version of a record writes to `change_log` and `record_head`. -/
def insertVersion (st : Store) (env : Envelope) (digest : Bytes) (seq rev : ℕ) : Store :=
  let entry : LogRow := { seq := seq, recordID := env.context.recordID, envelope := env }
  let row : HeadRow := { rev := rev, digest := digest, seq := seq,
                         deleted := env.context.deleted, envelope := env }
  { st with log := st.log ++ [entry], heads := st.heads.insert env.context.recordID row }

/-- `verifyRecordSignature`. -/
def verifyRecordSignature (st : Store) (vaultID : ID) (env : Envelope) : Except Error Unit := do
  let chain ← st.chain C vaultID
  match chain.device env.context.updatedBy with
  | none => .error (.protocol .deviceUnknown
      "record names writer %s, which is not in the membership chain" [ID.text env.context.updatedBy])
  | some d => do
    .require (d.revoked = false) (.protocol .deviceRevoked
      "record names writer %s, which was revoked" [ID.text env.context.updatedBy])
    .require (C.verify d.verifyKey recordSignatureDomain (env.signingInput C) env.signature = true)
      (.protocol .signatureInvalid "record signature does not verify" [])

/-- `parentMismatch`: why a submission does not follow the head, if it does not. -/
def parentMismatch (env : Envelope) (head : Option Envelope) : Option String :=
  match head with
  | none => if env.context.rev ≠ 1 then some "no such record" else none
  | some head =>
    if env.context.rev ≠ counterSucc head.context.rev then some "rev is not one past the head"
    else match head.digestE C with
      | .error _ => some "head is unreadable"
      | .ok headDigest =>
        if bytesEqual env.context.parentDigest (some headDigest) then none
        else some "parent_digest is not the head's digest"

/-- `PutOutcome`. -/
structure PutOutcome where
  accepted : Bool
  seq : ℕ
  digest : Option Bytes
  code : Option Code
  head : Option Envelope
  replayed : Bool
  deriving DecidableEq, Repr

/-- `replayOutcome`: the recorded outcome of an earlier submission of the same
    mutation. -/
def replayOutcome (st : Store) (env : Envelope) (requestDigest : Bytes) :
    Except Error (Option PutOutcome) :=
  match st.mutations.lookup env.context.mutationID with
  | none => .ok none
  | some row =>
    if row.requestDigest = requestDigest then
      .ok (some { accepted := row.accepted, seq := row.seq.getD 0, digest := row.digest,
                  code := row.code, head := none, replayed := true })
    else .error (.protocol .idempotencyMismat "mutation %s was already used for different content"
      [ID.text env.context.mutationID])

/-- `recordOutcome`. -/
def recordOutcome (st : Store) (env : Envelope) (requestDigest : Bytes) (out : PutOutcome)
    (now : String) : Except Error Store := do
  let seq ← if out.accepted then some <$> counterToInt out.seq "seq" else pure none
  let row : MutationRow :=
    { requestDigest := requestDigest, accepted := out.accepted, code := out.code, seq := seq,
      digest := out.digest, recordID := env.context.recordID, createdAt := now }
  return { st with mutations := st.mutations.insert env.context.mutationID row }

/-- The checks `PutRecord` makes before its transaction. -/
def checkSubmission (st : Store) (vaultID : ID) (env : Envelope) : Except Error Bytes := do
  env.validate.mapError fun err => .protocol .invalidRequest "%v" [err.text]
  .require (env.context.vaultID = vaultID)
    (.protocol .idMismatch "envelope names another vault" [])
  .require ((C.canonical (.envelope env)).length ≤ maxObjectBytes)
    (.protocol .bodyTooLarge "record envelope is %d bytes, the limit is %d"
      [toString (C.canonical (.envelope env)).length, toString maxObjectBytes])
  let digest ← env.digestE C
  st.verifyRecordSignature C vaultID env
  return digest

/-- The epoch check: a missing vault, or a record sealed at another epoch. -/
def checkEpoch (st : Store) (vaultID : ID) (env : Envelope) : Except Error Unit :=
  match st.vault with
  | some v =>
    if v.genesis.vaultID = vaultID then
      .require (env.context.keyEpoch = v.keyEpoch)
        (.protocol .epochMismatch "record is at epoch %s, the vault is at epoch %d"
          [toString env.context.keyEpoch, toString v.keyEpoch])
    else .error (.protocol .notFound "no such vault" [])
  | none => .error (.protocol .notFound "no such vault" [])

/-- The transaction of a submission that was not seen before. -/
def submit (st : Store) (vaultID : ID) (env : Envelope) (digest : Bytes) (now : String) :
    Except Error (PutOutcome × Store) := do
  st.checkEpoch vaultID env
  let head := st.head env.context.recordID
  match parentMismatch C env head with
  | some _ =>
    let out : PutOutcome := { accepted := false, seq := 0, digest := none,
                              code := some .parentMismatch, head := head, replayed := false }
    let st ← st.recordOutcome env digest out now
    return (out, st)
  | none =>
    let seq ← st.nextSeq
    let rev ← counterToInt env.context.rev "rev"
    let st := st.insertVersion env digest seq rev
    let st := st.rememberAncestors env.context.recordID
      [digest, env.context.parentDigest.getD []]
    let out : PutOutcome := { accepted := true, seq := seq, digest := some digest, code := none,
                              head := none, replayed := false }
    let st ← st.recordOutcome env digest out now
    return (out, st)

/-- The transaction of `PutRecord`. -/
def transact (st : Store) (vaultID : ID) (env : Envelope) (digest : Bytes) (now : String) :
    Except Error (PutOutcome × Store) := do
  match ← st.replayOutcome env digest with
  | some out =>
    if out.head = none ∧ out.accepted = false then
      return ({ out with head := st.head env.context.recordID }, st)
    else return (out, st)
  | none => st.submit C vaultID env digest now

/-- `PutRecord`. -/
def putRecord (st : Store) (vaultID : ID) (env : Envelope) (now : String) :
    Except Error (PutOutcome × Store) := do
  let digest ← st.checkSubmission C vaultID env
  match ← st.replayOutcome env digest with
  | some out =>
    if out.head = none ∧ out.accepted = false then
      return ({ out with head := st.head env.context.recordID }, st)
    else return (out, st)
  | none => st.submit C vaultID env digest now

/-! ## Reading the log -/

/-- `MaxPageBytes`, `DefaultPageLimit`, `MaxPageLimit`. -/
def maxPageBytes : ℕ := 4 * 2 ^ 20
def defaultPageLimit : ℕ := 200
def maxPageLimit : ℕ := 500

/-- `Page`. -/
structure Page where
  changes : List Envelope
  nextCursor : ℕ
  snapshotCursor : ℕ
  hasMore : Bool
  deriving DecidableEq, Repr

/-- The loop of `Changes` over the selected rows: `bytesSoFar` bytes are on the
    page already. -/
def fillPage (limit : ℕ) : List LogRow → (bytesSoFar : ℕ) → Page → Page
  | [], _, page => page
  | row :: rows, bytesSoFar, page =>
    let size := (C.canonical (.envelope row.envelope)).length
    if page.changes.length = limit then { page with hasMore := true }
    else if bytesSoFar + size > maxPageBytes ∧ page.changes ≠ [] then { page with hasMore := true }
    else fillPage limit rows (bytesSoFar + size)
      { page with changes := page.changes ++ [decodeEnvelope row.envelope row.seq],
                  nextCursor := row.seq }

/-- `Changes`. -/
def changes (st : Store) (since through : ℕ) (limit : ℤ) : Except Error Page := do
  let current := st.currentSeq
  let through := if through = 0 then current else through
  .require (through ≤ current) (.protocol .invalidRequest "through=%s is past the current head %s"
    [toString through, toString current])
  .require (since ≤ through) (.protocol .invalidRequest "since=%s is past through=%s"
    [toString since, toString through])
  let limit := if limit ≤ 0 ∨ limit > maxPageLimit then defaultPageLimit else limit.toNat
  let since ← counterToInt since "since"
  let through ← counterToInt through "through"
  let rows := (st.log.filter fun row => since < row.seq ∧ row.seq ≤ through).take (limit + 1)
  return fillPage C limit rows 0
    { changes := [], nextCursor := since, snapshotCursor := through, hasMore := false }

end Store

end Sshstate.Relay
