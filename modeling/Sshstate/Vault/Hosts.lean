/-
  Hosts as the manager shows them, and loops of jump hosts (`internal/vault`:
  `manager_ops.go`).

  A map is the list of its entries, the newest first.  The loop of `jumpCycle` is given a
  bound on its turns, and a loop that reaches the bound has no result.
-/
import Sshstate.Protocol.Basic

namespace Sshstate.Vault

/-- `HostView`. -/
structure HostView where
  recordID : ID
  hostAlias : List Char
  hostName : List Char
  user : List Char
  port : ℕ
  proxyJump : Option (List Char)
  keyIDs : List ID
  deriving DecidableEq, Repr

/-- `KeyView`. -/
structure KeyView where
  recordID : ID
  fingerprint : List Char
  algorithm : List Char
  comment : List Char
  publicKey : List Char
  deriving DecidableEq, Repr

/-- A map from aliases to the aliases of their jump hosts. -/
abbrev JumpMap := List (List Char × Option (List Char))

/-- The loop of `jumpCycle`; `here` is the variable `at`. -/
def jumpCycleFrom (start : List Char) (jumps : JumpMap) :
    (turns : ℕ) → (seen : List (List Char)) → (here : List Char) → Option Bool
  | 0, _, _ => none
  | turns + 1, seen, here =>
    match jumps.lookup here with
    | none | some none => some false
    | some (some next) =>
      if next = start then some true
      else if seen.contains next then some false
      else jumpCycleFrom start jumps turns (here :: seen) next

/-- `jumpCycle`. -/
def jumpCycle (start : List Char) (jumps : JumpMap) : Bool :=
  (jumpCycleFrom start jumps (jumps.length + 1) [] start).getD false

/-- The map of the jump hosts of a list of hosts. -/
def jumpsOf (hosts : List HostView) : JumpMap :=
  hosts.foldl (fun jumps h => (h.hostAlias, h.proxyJump) :: jumps) []

/-- `jumpReturns`. -/
def jumpReturns (hostAlias jump : List Char) (self : ID) (hosts : List HostView) : Bool :=
  jumpCycle hostAlias ((hostAlias, some jump) :: jumpsOf (hosts.filter fun h => h.recordID ≠ self))

end Sshstate.Vault
