/-
  Importing records into a relay that has lost history (`internal/relay/history.go`).

  A client that rejoins sends the heads it holds, each with the digests of the
  versions it was built on.  A head replaces the relay's if the relay's head is
  among those digests (`importOne`); the whole batch is one transaction.
-/
import Sshstate.Relay.Store

namespace Sshstate.Relay

variable (C : Suite)

/-- `ImportRecord`. -/
structure ImportRecord where
  envelope : Envelope
  ancestors : List Bytes
  deriving DecidableEq, Repr

/-- `ImportRequest`. -/
structure ImportRequest where
  history : String
  records : List ImportRecord
  deriving DecidableEq, Repr

/-- The outcomes of an import. -/
inductive ImportStatus where
  | imported | current | behind | diverged
  deriving DecidableEq, Repr

/-- `ImportOutcome`. -/
structure ImportOutcome where
  recordID : ID
  outcome : ImportStatus
  seq : ℕ
  head : Option Envelope
  deriving DecidableEq, Repr

/-- `ancestorsOf`. -/
def ImportRecord.ancestorsOf (item : ImportRecord) (digest : Bytes) : List Bytes :=
  digest :: item.envelope.context.parentDigest.getD [] :: item.ancestors

/-- `claimsAncestor`. -/
def ImportRecord.claimsAncestor (item : ImportRecord) (digest : Bytes) : Bool :=
  bytesEqual item.envelope.context.parentDigest (some digest) || item.ancestors.contains digest

/-- `verifyWrittenByMember`: unlike a submission, an import may carry what a
    device wrote before it was revoked. -/
def verifyWrittenByMember (chain : Membership.Chain) (env : Envelope) : Except Error Unit :=
  match chain.device env.context.updatedBy with
  | none => .error (.protocol .deviceUnknown
      "record names writer %s, which is not in the membership chain" [ID.text env.context.updatedBy])
  | some d =>
    .require (C.verify d.verifyKey recordSignatureDomain (env.signingInput C) env.signature = true)
      (.protocol .signatureInvalid "record signature does not verify" [])

namespace Store

/-- The checks `importOne` makes on an item. -/
def checkImport (chain : Membership.Chain) (vaultID : ID) (epoch : ℕ) (env : Envelope) :
    Except Error Bytes := do
  .require (env.seq = 0) (.protocol .invalidRequest "a submitted envelope must not carry a seq" [])
  env.validate.mapError fun err => .protocol .invalidRequest "%v" [err.text]
  .require (env.context.vaultID = vaultID)
    (.protocol .idMismatch "envelope names another vault" [])
  .require (env.context.keyEpoch = epoch)
    (.protocol .epochMismatch "record is at epoch %s, the vault is at epoch %s"
      [toString env.context.keyEpoch, toString epoch])
  .require ((C.canonical (.envelope env)).length ≤ maxObjectBytes)
    (.protocol .bodyTooLarge "record envelope is %d bytes, the limit is %d"
      [toString (C.canonical (.envelope env)).length, toString maxObjectBytes])
  verifyWrittenByMember C chain env
  env.digestE C

/-- The insertion of an imported head: the log, the head row, the ancestors it
    claims and the outcome of its mutation unless one is recorded. -/
def insertImported (st : Store) (item : ImportRecord) (digest : Bytes) (now : String) :
    Except Error (ImportOutcome × Store) := do
  let env := item.envelope
  let seq ← st.nextSeq
  let rev ← counterToInt env.context.rev "rev"
  let st := st.insertVersion env digest seq rev
  let st := st.rememberAncestors env.context.recordID (item.ancestorsOf digest)
  let row : MutationRow :=
    { requestDigest := digest, accepted := true, code := none, seq := some seq,
      digest := some digest, recordID := env.context.recordID, createdAt := now }
  let mutations := if env.context.mutationID ∈ st.mutations then st.mutations
    else st.mutations.insert env.context.mutationID row
  return ({ recordID := env.context.recordID, outcome := .imported, seq := seq, head := none },
    { st with mutations := mutations })

/-- `importOne`. -/
def importOne (st : Store) (chain : Membership.Chain) (vaultID : ID) (epoch : ℕ)
    (item : ImportRecord) (now : String) : Except Error (ImportOutcome × Store) := do
  let env := item.envelope
  let digest ← checkImport C chain vaultID epoch env
  match st.head env.context.recordID with
  | none => st.insertImported item digest now
  | some head =>
    let headDigest ← head.digestE C
    if headDigest = digest then
      return ({ recordID := env.context.recordID, outcome := .current, seq := head.seq, head := none },
        st.rememberAncestors env.context.recordID (item.ancestorsOf digest))
    else if item.claimsAncestor headDigest then st.insertImported item digest now
    else if (env.context.recordID, digest) ∈ st.ancestors then
      return ({ recordID := env.context.recordID, outcome := .behind, seq := 0, head := none }, st)
    else
      return ({ recordID := env.context.recordID, outcome := .diverged, seq := 0,
                head := some head }, st)

/-- The loop of `ImportRecords`, with the outcomes so far; `seen` is the records
    of the outcomes. -/
def importItem (chain : Membership.Chain) (vaultID : ID) (epoch : ℕ) (now : String)
    (acc : List ImportOutcome × Store) (item : ImportRecord) :
    Except Error (List ImportOutcome × Store) := do
  let recordID := item.envelope.context.recordID
  .require (recordID ∉ acc.1.map (·.recordID))
    (.protocol .invalidRequest "record %s appears twice" [ID.text recordID])
  let (outcome, st) ← (acc.2.importOne C chain vaultID epoch item now).mapError
    (.wrap "record %s: %w" [ID.text recordID])
  return (acc.1 ++ [outcome], st)

/-- `ImportRecords`; `freshID` is the id `startHistoryTx` draws. -/
def importRecords (st : Store) (vaultID : ID) (req : ImportRequest) (now freshID : String) :
    Except Error (List ImportOutcome × Store) := do
  let chain ← st.chain C vaultID
  match st.vault with
  | none => .error (.protocol .notFound "no such vault" [])
  | some v =>
    let (outcomes, st') ← req.records.foldlM (importItem C chain vaultID v.keyEpoch now) ([], st)
    if outcomes.any (·.outcome = .imported) ∧ req.history = st.history then
      return (outcomes, { st' with history := freshID, historyOrigin := historyRestarted })
    else return (outcomes, st')

/-- The transaction of `ImportRecords`, with the chain that was read before it. -/
def importTransaction (st : Store) (chain : Membership.Chain) (vaultID : ID) (req : ImportRequest)
    (now freshID : String) : Except Error (List ImportOutcome × Store) :=
  match st.vault with
  | none => .error (.protocol .notFound "no such vault" [])
  | some v => do
    let (outcomes, st') ← req.records.foldlM (importItem C chain vaultID v.keyEpoch now) ([], st)
    if outcomes.any (·.outcome = .imported) ∧ req.history = st.history then
      return (outcomes, { st' with history := freshID, historyOrigin := historyRestarted })
    else return (outcomes, st')

end Store

/-- The calls that write records. -/
inductive Call where
  | put (vaultID : ID) (env : Envelope) (now : String)
  | importBatch (vaultID : ID) (req : ImportRequest) (now freshID : String)

/-- The store after a call: a failed transaction is rolled back. -/
def Store.call (st : Store) : Call → Store
  | .put vaultID env now =>
    match st.putRecord C vaultID env now with
    | .ok (_, st') => st'
    | .error _ => st
  | .importBatch vaultID req now freshID =>
    match st.importRecords C vaultID req now freshID with
    | .ok (_, st') => st'
    | .error _ => st

/-- The calls that write records or membership events. -/
inductive Operation where
  | record (c : Call)
  | append (vaultID : ID) (ev : SignedMembershipEvent)

/-- The store after an operation. -/
def Store.operate (st : Store) : Operation → Store
  | .record c => st.call C c
  | .append vaultID ev =>
    match st.appendMembership C vaultID ev with
    | .ok (_, st') => st'
    | .error _ => st

end Sshstate.Relay
