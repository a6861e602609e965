/-
  Bootstrapping a relay (`internal/relay`: `auth.go`, `history.go`, `store.go`).

  The table `bootstrap` has at most one row: the digest of the one-time secret, and when
  it was used.  `bootstrapHistory` checks the genesis, the chain and the secret, stores
  the vault with its membership events and marks the secret as used, in one transaction.

  `Register` is a relay to which secrets are issued and vaults are bootstrapped, one call
  after another, with what it has answered.
-/
import Sshstate.Relay.Store

namespace Sshstate.Relay

variable (C : Suite)

/-- The row of `bootstrap`. -/
structure BootstrapRow where
  secretHash : Bytes
  consumedAt : Option String
  deriving DecidableEq, Repr

/-- The relay's database, with the bootstrap row. -/
structure Site where
  store : Store
  bootstrap : Option BootstrapRow

/-- `createVaultTx`.  Without a vault there is no membership row an insert could run into;
    the digest column, for which the prefixes are validated, is left out. -/
def Store.createVault (st : Store) (g : Genesis) (events : List SignedMembershipEvent)
    (origin freshID : String) : Except Error Store := do
  .require (st.vault.isNone = true)
    (.protocol .bootstrapConsumed "this relay already holds a vault" [])
  let _ ← events.inits.tail.mapM fun prefixEvents => Membership.validate C g prefixEvents
  return { st with
    vault := some { genesis := g, keyEpoch := 1 }
    membership := st.membership ++ events
    history := freshID
    historyOrigin := origin }

namespace Site

/-- `SetBootstrapSecret`. -/
def setBootstrapSecret (S : Site) (secret : Bytes) : Except Error Site := do
  .require (secret ≠ []) (.new "the bootstrap secret is empty")
  match S.bootstrap with
  | none => return { S with bootstrap := some ⟨C.sha256 secret, none⟩ }
  | some row =>
    if row.secretHash = C.sha256 secret then return S
    else do
      .require (row.consumedAt = none) (.protocol .bootstrapConsumed
        "bootstrap was already used; a new secret does not reopen registration" [])
      return { S with bootstrap := some { row with secretHash := C.sha256 secret } }

/-- The checks of the secret in `BootstrapHistory`. -/
def checkSecret (S : Site) (secret : Bytes) : Except Error BootstrapRow :=
  match S.bootstrap with
  | none => .error (.protocol .notAuthorized "this relay has no bootstrap secret configured" [])
  | some row => do
    .require (row.consumedAt = none)
      (.protocol .bootstrapConsumed "bootstrap was already used" [])
    .require (row.secretHash = C.sha256 secret)
      (.protocol .notAuthorized "the bootstrap secret does not match" [])
    return row

/-- `BootstrapHistory`; `freshID` is the id `startHistoryTx` draws. -/
def bootstrapHistory (S : Site) (secret : Bytes) (g : Genesis)
    (events : List SignedMembershipEvent) (seeded : Bool) (freshID : String) :
    Except Error Site := do
  (g.validate C suiteID).mapError fun err => .protocol .invalidRequest "%v" [err.text]
  let chain ← (Membership.validate C g events).mapError fun err =>
    .protocol .invalidRequest "membership chain: %v" [err.text]
  .require (chain.authorizedCount ≠ 0)
    (.protocol .invalidRequest "membership chain authorizes no device" [])
  let row ← S.checkSecret C secret
  let origin := if seeded then historySeeded else historyCreated
  let st ← S.store.createVault C g chain.events origin freshID
  return { store := st, bootstrap := some { row with consumedAt := some g.createdAt } }

end Site

/-! ## Sequences of calls -/

/-- The arguments of a call of `BootstrapHistory`. -/
structure Founding where
  secret : Bytes
  genesis : Genesis
  events : List SignedMembershipEvent
  seeded : Bool
  freshID : String
  deriving DecidableEq, Repr

def Site.bootstrapWith (S : Site) (f : Founding) : Except Error Site :=
  S.bootstrapHistory C f.secret f.genesis f.events f.seeded f.freshID

inductive BootstrapCall where
  | setSecret (secret : Bytes)
  | bootstrap (f : Founding)
  deriving DecidableEq, Repr

def BootstrapCall.secret : BootstrapCall → Bytes
  | .setSecret secret => secret
  | .bootstrap f => f.secret

/-- A relay, the secret that was stored last, and the calls of `BootstrapHistory` that
    succeeded. -/
structure Register where
  site : Site
  stored : Option Bytes
  succeeded : List Founding

/-- The register after a call: a failed transaction is rolled back. -/
def Register.call (R : Register) : BootstrapCall → Register
  | .setSecret secret =>
    match R.site.setBootstrapSecret C secret with
    | .ok S => { R with site := S, stored := some secret }
    | .error _ => R
  | .bootstrap f =>
    match R.site.bootstrapWith C f with
    | .ok S => { R with site := S, succeeded := R.succeeded ++ [f] }
    | .error _ => R

/-- An empty relay, which has its history id from when it was opened. -/
def Register.empty (history origin : String) : Register where
  site :=
    { store := { vault := none, history := history, historyOrigin := origin, membership := [],
                 log := [], heads := ∅, ancestors := [], mutations := ∅ }
      bootstrap := none }
  stored := none
  succeeded := []

/-- An empty relay after a sequence of calls. -/
def Register.after (history origin : String) (calls : List BootstrapCall) : Register :=
  calls.foldl (Register.call C) (Register.empty history origin)

end Sshstate.Relay
