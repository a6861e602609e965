/-
  Devices that share a vault and one honest relay.

  A `Node` is a device: its store, the Sync it runs, if any, and the submissions
  it has sent.  The relay answers as its code does (`Relay.Store.answer`); an
  answer may be lost, and a submission that was sent may reach the relay again at
  any later time (`serve`).  A Sync may end at any point (`stop`), and local edits
  happen at any time.  New devices are made from copies of a device's heads:
  `join` after a pairing, `restore` from an archive.

  `ids`, `sealed` and `committed` record the ids drawn so far, the envelopes sealed
  so far, and those that were ever in an outbox; no step reads them.
-/
import Sshstate.Lib.Run
import Sshstate.Membership.Build
import Sshstate.Protocol.Sample
import Sshstate.Relay.Server
import Sshstate.Sync.Engine
import Sshstate.Vault.Install

namespace Sshstate.Sync

open Vault (Store Manager Copy)

variable (C : Suite)

/-- What the devices of a vault have in common. -/
structure Setup where
  genesis : Genesis
  keys : Vault.Keys
  url : String

structure Node where
  signing : Bytes
  store : Store
  sync : Option Phase
  sent : List Envelope

structure Fleet where
  relay : Relay.Store
  nodes : ID → Option Node
  copies : List Copy
  ids : List ID
  sealed : List Envelope
  committed : List Envelope

variable (V : Setup)

namespace Node

def manager (d : ID) (n : Node) : Manager :=
  { genesis := V.genesis, deviceID := d, signing := n.signing, keys := V.keys }

def engine (d : ID) (n : Node) : Engine := { manager := n.manager V d, url := V.url }

def sender (d : ID) (n : Node) : Relay.Store.Sender :=
  { vaultID := V.genesis.vaultID, deviceID := d, verifyKey := C.verifier n.signing }

/-- The submission a phase sends. -/
def inFlight (p : Phase) : List Envelope :=
  match p.request with
  | some (.putRecord c) => [c]
  | _ => []

/-- The node with its Sync at the phase `p`. -/
def enter (n : Node) (p : Phase) : Node := { n with sync := some p, sent := inFlight p ++ n.sent }

end Node

/-- A device that was just set up. -/
def newNode (signing : Bytes) (st : Store) : Node :=
  { signing := signing, store := st, sync := none, sent := [] }

/-- What `Restore` draws for the new device, and the recovery key it uses. -/
structure Replacement where
  signing : Bytes
  recipient : String
  recovery : Bytes
  now : ℤ
  eventID : ID
  entropy : Bytes

inductive Label where
  | edit (d : ID) (edits : List Manager.Edit)
  | start (d : ID)
  /-- An access of a Sync to its store. -/
  | work (d : ID) (draw : Draw)
  /-- A request of a Sync, with its answer. -/
  | call (d : ID) (now : String)
  /-- A submission that reaches the relay, with its answer lost. -/
  | serve (d : ID) (env : Envelope) (now : String)
  | stop (d : ID)
  | append (ev : SignedMembershipEvent)
  | snapshot (d : ID)
  | archive (d : ID)
  /-- The next query of a copy. -/
  | read (i : ℕ)
  | join (d : ID) (i : ℕ) (signing : Bytes) (k : ℕ)
  | restore (d : ID) (i : ℕ) (r : Replacement) (membership : List SignedMembershipEvent)

namespace Fleet

/-- The fleet after a node changed. -/
def setNode (F : Fleet) (d : ID) (n : Node) : Fleet :=
  { F with nodes := Function.update F.nodes d (some n),
           committed := n.store.outbox ++ F.committed }

/-- The fleet after ids were drawn and envelopes sealed with them. -/
def draw (F : Fleet) (ids : List ID) (sealed : List Envelope) : Fleet :=
  { F with ids := ids ++ F.ids, sealed := sealed ++ F.sealed }

/-- A local edit: its envelopes are sealed on the stored heads and applied in one batch. -/
def edit (F : Fleet) (d : ID) (n : Node) (edits : List Manager.Edit) : Option Fleet := do
  let envs ← (edits.mapM ((n.manager V d).sealEdit C n.store)).toOption
  let st ← (n.store.applyLocalBatch C envs).toOption
  some ((F.draw (edits.flatMap Manager.Edit.draws) envs).setNode d { n with store := st })

/-- The envelope a step seals. -/
def sealedBy : (before after : Phase) → List Envelope
  | .preserve _ _ _ _, .resolve _ _ conflict _ _ => [conflict]
  | _, _ => []

def work (F : Fleet) (d : ID) (n : Node) (draw : Draw) : Option Fleet := do
  let p ← n.sync
  let (st, p') ← Sync.work C (n.engine V d) draw n.store p
  some ((F.draw (p.draws draw) (sealedBy p p')).setNode d ({ n with store := st }.enter p'))

def call (F : Fleet) (d : ID) (n : Node) (now : String) : Option Fleet := do
  let p ← n.sync
  let req ← p.request
  let (reply, relay) := F.relay.answer C (n.sender C V d) now req
  let p' ← p.receive reply
  some ({ F with relay := relay }.setNode d (n.enter p'))

/-- A new device. -/
def add (F : Fleet) (d : ID) (signing : Bytes) (chain : Membership.Chain) (c : Copy) : Option Fleet :=
  if F.nodes d = none ∧ c.complete = true then do
    let st ← (Vault.install C chain c.heads (c.cursor.getD 0)).toOption
    some (F.setNode d (newNode signing st))
  else none

/-- A joining device has read the first `k` events of the relay's membership, which
    enrol it already. -/
def join (F : Fleet) (d : ID) (signing : Bytes) (k : ℕ) (c : Copy) : Option Fleet :=
  let relay := { F.relay with membership := F.relay.membership.take k }
  match relay.authenticate C
      { vaultID := V.genesis.vaultID, deviceID := d, verifyKey := C.verifier signing },
    Membership.validate C V.genesis relay.membership with
  | .ok (), .ok chain => if c.acceptedOnly then F.add C d signing chain c else none
  | _, _ => none

/-- A restored device extends the chain of its archive by its own enrolment. -/
def restore (F : Fleet) (d : ID) (r : Replacement) (membership : List SignedMembershipEvent)
    (c : Copy) : Option Fleet := do
  let chain ← (Membership.validate C V.genesis membership).toOption
  let keys : Membership.DeviceKeys := ⟨d, C.verifier r.signing, r.recipient⟩
  let enrol := chain.recoveryEnroll C r.recovery keys r.now r.eventID r.entropy
  let chain ← (chain.append C enrol).toOption
  if c.acceptedOnly then none else F.add C d r.signing chain c

def step (F : Fleet) : Label → Option Fleet
  | .edit d edits => do F.edit C V d (← F.nodes d) edits
  | .start d => do
    let n ← F.nodes d
    if n.sync.isSome then none else some (F.setNode d (n.enter .start))
  | .work d draw => do F.work C V d (← F.nodes d) draw
  | .call d now => do F.call C V d (← F.nodes d) now
  | .serve d env now => do
    let n ← F.nodes d
    if env ∈ n.sent then some { F with relay := (F.relay.submitRecord C (n.sender C V d) env now).2 }
    else none
  | .stop d => do
    let n ← F.nodes d
    some (F.setNode d { n with sync := none })
  | .append ev => do
    let (_, relay) ← (F.relay.appendMembership C V.genesis.vaultID ev).toOption
    some { F with relay := relay }
  | .snapshot d => do
    let n ← F.nodes d
    some { F with copies := F.copies ++ [.snapshot d n.store] }
  | .archive d => do
    let _ ← F.nodes d
    some { F with copies := F.copies ++ [.archive d] }
  | .read i => do
    let c ← F.copies[i]?
    let n ← F.nodes c.device
    let c' ← c.read n.store
    some { F with copies := F.copies.set i c' }
  | .join d i signing k => do F.join C V d signing k (← F.copies[i]?)
  | .restore d i r membership => do F.restore C V d r membership (← F.copies[i]?)

end Fleet

/-- A vault that was just set up: its first device, and a relay without records. -/
structure Founding where
  setup : Setup
  root : SignedMembershipEvent
  signing : Bytes
  history : String
  store : Store
  store_eq : Vault.initStore C setup.genesis root = .ok store

def Founding.fleet (A : Founding C) : Fleet :=
  { relay := .created A.setup.genesis [A.root] A.history historyCreated,
    nodes := fun d => if d = A.setup.genesis.firstDeviceID then some (newNode A.signing A.store)
      else none,
    copies := [], ids := [], sealed := [], committed := [] }

/-! ## The fleet of the sample vault -/

namespace Vault01

def setup : Setup :=
  { genesis := Sample.genesis, keys := { epoch := 1, metadata := [1], secret := [2] },
    url := "https://relay" }

def founding : Founding sample where
  setup := setup
  root := Sample.root (Sample.id 0x0a) [10] "A"
  signing := [10]
  history := "h"
  store := (Vault.initStore sample Sample.genesis (Sample.root (Sample.id 0x0a) [10] "A")).get
    (by decide)
  store_eq := Except.eq_ok_get _

instance neZero_byte : NeZero 256 := ⟨by decide⟩

theorem valid_id (n : Fin 256) : ID.valid (Sample.id n) = true := by decide +kernel +revert

def newID (n : Fin 256) : Vault.NewID := { id := Sample.id n, valid := valid_id n }

def entropy : Vault.Entropy := { nonce := [9], nonce_ne_nil := Sample.nonce_ne_nil, signature := [] }

/-- The creation of the host record `r` by the mutation `m`. -/
def create (r m : Fin 256) : Manager.Edit :=
  { kind := .create (newID r) .host RecordType.isConflict_host
      { bytes := [5], bytes_ne_nil := Sample.payload_ne_nil },
    mutationID := newID m, entropy := entropy }

/-- An edit of the record `r` by the mutation `m`. -/
def revise (r m : Fin 256) : Manager.Edit :=
  { kind := .revise (Sample.id r) (some { bytes := [6], bytes_ne_nil := by decide }),
    mutationID := newID m, entropy := entropy }

def draw (m : Fin 256) : Draw := { now := "t0", mutationID := newID m, entropy := entropy }

/-- The steps of a Sync of `0a` up to its outbox, alone in its vault; `first` says that the
    history of the relay is not stored yet. -/
def untilOutbox (first : Bool) : List Label :=
  let w : Label := .work (Sample.id 0x0a) (draw 0xff)
  let c : Label := .call (Sample.id 0x0a) "t0"
  [.start (Sample.id 0x0a), w, c, w, w, w, w, c, w] ++ (if first then [w] else []) ++ [w]

/-- A run of the fleet, each of its steps within `ok`. -/
def run (ok : Fleet → Label → Prop) [∀ F l, Decidable (ok F l)] (ls : List Label) : Option Fleet :=
  Run.replay (Fleet.step sample setup) ok founding.fleet ls

end Vault01

end Sshstate.Sync
