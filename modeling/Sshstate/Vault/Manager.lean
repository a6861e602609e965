/-
  What a manager reads from its store, and the edits of hosts and keys (`internal/vault`:
  `manager_ops.go`, `manager_remove.go`; `store_records.go`).

  An edit checks the arguments against the hosts and keys in the vault, seals the new version
  of one record and writes it in a transaction; an edit that fails leaves the store as it was.
  A row that is too long to be decoded is only noticed when it is read.  Where the source
  sorts with a comparison of one field, the order of equal values is not determined, and here
  it is that of the rows.  Random values are arguments, and the manager is an unlocked one.
-/
import Sshstate.Vault.Hosts
import Sshstate.Vault.Payload
import Sshstate.Vault.Tables

namespace Sshstate

/-- The text of an envelope in the tables of a store. -/
def Envelope.body (e : Envelope) : Bytes := utf8 e.text

namespace Vault

variable (C : Suite) (J : Coding)

/-! ## Reading -/

namespace Store

/-- `decodeEnvelope` of a row. -/
def decodeRow (env : Envelope) : Except Error Envelope := do
  .require (env.body.length ≤ maxObjectBytes)
    (.wrap "stored envelope is malformed: %w" [] (.errorf "object is %d bytes, limit is %d"
      [toString env.body.length, toString maxObjectBytes]))
  return env

/-- `Store.Head`. -/
def headRow (st : Store) (id : ID) : Except Error (Envelope × Bytes) :=
  match st.head id with
  | none => .error (.wrap "record %s: %w" [ID.text id] errNotFound)
  | some env => do
    let env ← decodeRow env
    return (env, env.digest C)

/-- `Store.LiveRecords`. -/
def liveRecords (st : Store) (t : RecordType) : Except Error (List Envelope) :=
  (st.heads.filter fun e => e.context.recordType = t ∧ e.context.deleted = false).mapM decodeRow

end Store

/-- `Reader.Open` into a payload that is `zero` before. -/
def Reader.openInto {α : Type} (r : Reader) (read : Bytes → Except Error α) (zero : α)
    (env : Envelope) : Except Error α := do
  match ← r.openRecord C env with
  | none => return zero
  | some plaintext => (read plaintext).mapError (.wrap "open: payload: %w" [])

/-- The view of a host. -/
def HostPayload.view (p : HostPayload) (recordID : ID) : HostView :=
  { recordID := recordID, hostAlias := p.hostAlias, hostName := p.hostName, user := p.user,
    port := p.port.toNat, proxyJump := p.proxyJump, keyIDs := p.keyIDs }

/-- The view of a key. -/
def KeyPayload.view (p : KeyPayload) (recordID : ID) : KeyView :=
  { recordID := recordID, fingerprint := p.fingerprint, algorithm := p.algorithm,
    comment := p.comment, publicKey := p.publicKey }

namespace Manager

/-- A turn of the loops that read the records of one type: open, and then validate. -/
def readRecord {α : Type} (m : Manager) (st : Store) (f : Form α) (validate : α → Except Error Unit)
    (wrap : String) (env : Envelope) : Except Error (ID × α) := do
  let p ← ((m.readerFor C st).openInto C f.read f.zero env).mapError
    (.wrap wrap [ID.text env.context.recordID])
  (validate p).mapError (.wrap wrap [ID.text env.context.recordID])
  return (env.context.recordID, p)

/-- The order of two texts. -/
def textNotAfter (a b : List Char) : Prop := ¬ utf8 b < utf8 a

instance : DecidableRel textNotAfter := fun _ _ => by unfold textNotAfter; infer_instance

/-- `hostsLocked`. -/
def hostsLocked (m : Manager) (st : Store) : Except Error (List HostView) := do
  let envs ← st.liveRecords .host
  let out ← envs.mapM (m.readRecord C st J.host HostPayload.validate "host record %s: %w")
  return (out.map fun (id, p) => p.view id).insertionSort fun a b =>
    textNotAfter a.hostAlias b.hostAlias

/-- `keysLocked`. -/
def keysLocked (m : Manager) (st : Store) : Except Error (List KeyView) := do
  let envs ← st.liveRecords .key
  let out ← envs.mapM (m.readRecord C st J.key KeyPayload.validate "key record %s: %w")
  return (out.map fun (id, p) => p.view id).insertionSort fun a b =>
    textNotAfter a.fingerprint b.fingerprint

/-! ## Keys -/

/-- What an edit draws: the id of its mutation, and the randomness of the sealing. -/
structure Draw where
  mutationID : NewID
  entropy : Entropy

/-- `sshkeys.Key`. -/
structure Key where
  privateKey : List Char
  publicKey : List Char
  fingerprint : List Char
  algorithm : List Char
  comment : List Char
  deriving DecidableEq, Repr

/-- The payload of a key. -/
def Key.payload (k : Key) : KeyPayload :=
  { formatVersion := payloadFormatVersion, privateKey := k.privateKey, publicKey := k.publicKey,
    fingerprint := k.fingerprint, algorithm := k.algorithm, comment := k.comment }

/-- The first version of a record. -/
def createRecord (m : Manager) (recordID : NewID) (t : RecordType) (payload : Bytes) (d : Draw) :
    Except Error Envelope :=
  m.writerFor.sealRecord C
    { recordID := recordID.id, recordType := t, rev := 1, parentDigest := none,
      mutationID := d.mutationID.id, deleted := false } (some payload) d.entropy

/-- The next version of a record. -/
def reviseRecord (m : Manager) (recordID : ID) (head : Envelope) (headDigest : Bytes)
    (payload : Option Bytes) (d : Draw) : Except Error Envelope :=
  m.writerFor.sealRecord C
    { recordID := recordID, recordType := head.context.recordType,
      rev := counterSucc head.context.rev, parentDigest := some headDigest,
      mutationID := d.mutationID.id, deleted := payload.isNone } payload d.entropy

/-- `AddKey`. -/
def addKey (m : Manager) (st : Store) (k : Key) (recordID : NewID) (d : Draw) :
    Except Error (Store × ID) := do
  let existing ← m.keysLocked C J st
  .require (∀ e ∈ existing, e.fingerprint ≠ k.fingerprint)
    (.errorf "key %s is already in the vault as record %s" [String.ofList k.fingerprint,
      ID.text (((existing.find? (·.fingerprint = k.fingerprint)).map KeyView.recordID).getD [])])
  k.payload.validate
  let env ← m.createRecord C recordID .key (J.key.canonical k.payload) d
  let st ← st.applyLocalBatch C [env]
  return (st, recordID.id)

/-! ## Hosts -/

/-- `HostSpec`. -/
structure HostSpec where
  hostAlias : List Char
  hostName : List Char
  user : List Char
  port : ℤ
  proxyJump : Option (List Char)
  keyIDs : List ID
  deriving DecidableEq, Repr

/-- The payload of a host. -/
def HostSpec.payload (s : HostSpec) : HostPayload :=
  { formatVersion := payloadFormatVersion, hostAlias := s.hostAlias, hostName := s.hostName,
    user := s.user, port := if s.port = 0 then defaultPort else s.port, proxyJump := s.proxyJump,
    keyIDs := s.keyIDs }

/-- The check of the keys of a host. -/
def checkKeys (hostAlias : List Char) (keys : List KeyView) (keyIDs : List ID) : Except Error Unit :=
  .require (∀ id ∈ keyIDs, id ∈ keys.map KeyView.recordID)
    (.errorf "host %q references key %s, which is not in the vault" [String.ofList hostAlias,
      ID.text ((keyIDs.find? (· ∉ keys.map KeyView.recordID)).getD [])])

/-- The check of a jump host; `self` is the host that jumps, if it is in the vault. -/
def checkJump (hosts : List HostView) (self : ID) (hostAlias : List Char) :
    Option (List Char) → Except Error Unit
  | none => .ok ()
  | some jump => do
    .require (jump ∈ (hosts.filter fun h => h.recordID ≠ self).map HostView.hostAlias)
      (.errorf "ProxyJump %q is not a host in this vault" [String.ofList jump])
    .require (jumpReturns hostAlias jump self hosts = false)
      (.errorf "ProxyJump %q would make a loop back to %q" [String.ofList jump,
        String.ofList hostAlias])

/-- `AddHost`. -/
def addHost (m : Manager) (st : Store) (spec : HostSpec) (recordID : NewID) (d : Draw) :
    Except Error (Store × ID) := do
  let hosts ← m.hostsLocked C J st
  .require (∀ h ∈ hosts, h.hostAlias ≠ spec.hostAlias)
    (.errorf "host %q already exists as record %s" [String.ofList spec.hostAlias,
      ID.text (((hosts.find? (·.hostAlias = spec.hostAlias)).map HostView.recordID).getD [])])
  let keys ← m.keysLocked C J st
  checkKeys spec.hostAlias keys spec.keyIDs
  spec.payload.validate
  -- no record has the empty id
  checkJump hosts [] spec.hostAlias spec.proxyJump
  let env ← m.createRecord C recordID .host (J.host.canonical spec.payload) d
  let st ← st.applyLocalBatch C [env]
  return (st, recordID.id)

/-- `HostEdit`. -/
structure HostEdit where
  hostAlias : Option (List Char)
  hostName : Option (List Char)
  user : Option (List Char)
  port : Option ℤ
  proxyJump : Option (List Char)
  keyIDs : Option (List ID)
  deriving DecidableEq, Repr

/-- The edited payload; an empty jump host removes it. -/
def HostEdit.apply (e : HostEdit) (p : HostPayload) : HostPayload :=
  { p with
    hostAlias := e.hostAlias.getD p.hostAlias
    hostName := e.hostName.getD p.hostName
    user := e.user.getD p.user
    port := e.port.getD p.port
    proxyJump := match e.proxyJump with
      | none => p.proxyJump
      | some jump => if jump = [] then none else some jump
    keyIDs := e.keyIDs.getD p.keyIDs }

/-- `EditHost`. -/
def editHost (m : Manager) (st : Store) (recordID : ID) (edit : HostEdit) (d : Draw) :
    Except Error Store := do
  let (head, headDigest) ← (st.headRow C recordID).mapError
    (.wrap "no such host %s: %w" [ID.text recordID])
  .require (head.context.recordType = .host) (.errorf "record %s is not a host" [ID.text recordID])
  .require (head.context.deleted = false) (.errorf "host %s was deleted" [ID.text recordID])
  let old ← (m.readerFor C st).openInto C J.host.read J.host.zero head
  let payload := edit.apply old
  payload.validate
  let hosts ← m.hostsLocked C J st
  let others := hosts.filter fun h => h.recordID ≠ recordID
  .require (payload.hostAlias = old.hostAlias ∨ ∀ h ∈ others, h.proxyJump ≠ some old.hostAlias)
    (.errorf "host %q is the ProxyJump for %q; change that first" [String.ofList old.hostAlias,
      String.ofList (((others.find? (·.proxyJump = some old.hostAlias)).map
        HostView.hostAlias).getD [])])
  .require (payload.hostAlias = old.hostAlias ∨ payload.hostAlias ∉ others.map HostView.hostAlias)
    (.errorf "host %q already exists" [String.ofList payload.hostAlias])
  checkJump hosts recordID payload.hostAlias (if edit.proxyJump.isSome then payload.proxyJump else none)
  let keys ← m.keysLocked C J st
  checkKeys payload.hostAlias keys (if edit.keyIDs.isSome then payload.keyIDs else [])
  let env ← m.reviseRecord C recordID head headDigest (some (J.host.canonical payload)) d
  st.applyLocalBatch C [env]

/-! ## Removals -/

/-- The noun of a type of records that can be removed. -/
def removable : RecordType → Option String
  | .host => some "host"
  | .key => some "key"
  | _ => none

/-- `plural`. -/
def plural (n : ℕ) (one many : String) : String := if n = 1 then one else many

/-- `strings.Join(·, ", ")`. -/
def joined (texts : List (List Char)) : String := String.ofList (", ".toList.intercalate texts)

/-- The hosts that jump through a host. -/
def jumpers (hosts : List HostView) (recordID : ID) (hostAlias : List Char) : List HostView :=
  hosts.filter fun h => h.recordID ≠ recordID ∧ h.proxyJump = some hostAlias

/-- The hosts that offer a key. -/
def users (hosts : List HostView) (recordID : ID) : List HostView :=
  hosts.filter fun h => recordID ∈ h.keyIDs

/-- The `switch` of `removal`: a host that others jump through and a key that is offered are
    kept. -/
def checkUnused (m : Manager) (st : Store) (hosts : List HostView) (recordID : ID)
    (head : Envelope) : RecordType → Except Error Unit
  | .host => do
    let payload ← (m.readerFor C st).openInto C J.host.read J.host.zero head
    let found := jumpers hosts recordID payload.hostAlias
    .require (found = []) (.errorf "host %q is the ProxyJump for %s; change or remove %s first"
      [String.ofList payload.hostAlias, joined (found.map HostView.hostAlias),
        plural found.length "that host" "those hosts"])
  | .key => do
    let found := users hosts recordID
    .require (found = []) (.errorf "key %s is offered by %s; edit %s to remove that key first"
      [ID.text recordID, joined (found.map HostView.hostAlias),
        plural found.length "that host" "those hosts"])
  | _ => .ok ()

/-- `removal`: the tombstone, or nothing if the record is deleted. -/
def removal (m : Manager) (st : Store) (recordID : ID) (want : RecordType) (d : Draw) :
    Except Error (Option Envelope) :=
  match removable want with
  | none => .error (.errorf "%s records are not removed this way" [want.text])
  | some noun => do
    let (head, headDigest) ← (st.headRow C recordID).mapError
      (.wrap "no such %s %s: %w" [noun, ID.text recordID])
    .require (head.context.recordType = want)
      (.errorf "record %s is not a %s" [ID.text recordID, noun])
    if head.context.deleted then return none
    else do
      let hosts ← m.hostsLocked C J st
      m.checkUnused C J st hosts recordID head want
      let env ← m.reviseRecord C recordID head headDigest none d
      return some env

/-- `remove`. -/
def remove (m : Manager) (st : Store) (recordID : ID) (want : RecordType) (d : Draw) :
    Except Error Store := do
  match ← m.removal C J st recordID want d with
  | none => return st
  | some env => st.applyLocalBatch C [env]

/-- `RemoveHost`. -/
def removeHost (m : Manager) (st : Store) (recordID : ID) (d : Draw) : Except Error Store :=
  m.remove C J st recordID .host d

/-- `RemoveKey`. -/
def removeKey (m : Manager) (st : Store) (recordID : ID) (d : Draw) : Except Error Store :=
  m.remove C J st recordID .key d

end Manager

end Vault

end Sshstate
