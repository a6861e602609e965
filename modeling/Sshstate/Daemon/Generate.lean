/-
  The hosts of the generated configuration (`internal/daemon`: `generate.go`).

  `planHosts` goes over the hosts once and then, as long as something changes, again: a host
  whose jump host cannot be written is left out, and with it those that jump through it.  A
  map is the list of its entries, the newest first, and a set the list of its elements.  The
  loop is given a bound on its turns, and a loop that reaches the bound has no result.
-/
import Sshstate.Sshconfig.Generate
import Sshstate.Vault.Hosts

namespace Sshstate.Daemon

open Vault (HostView KeyView)

/-- A map from aliases to hosts, the newest entry first. -/
abbrev HostMap := List (List Char × HostView)

/-- The loop of `jumpLoops`; `here` is the variable `at`. -/
def jumpLoopsFrom (start : HostView) (unique : HostMap) :
    (turns : ℕ) → (seen : List ID) → (here : HostView) → Option Bool
  | 0, _, _ => none
  | turns + 1, seen, here =>
    match here.proxyJump with
    | none => some false
    | some jump =>
      match unique.lookup jump with
      | none => some false
      | some next =>
        if next.recordID = start.recordID then some true
        else if seen.contains next.recordID then some false
        else jumpLoopsFrom start unique turns (next.recordID :: seen) next

/-- `jumpLoops`. -/
def jumpLoops (start : HostView) (unique : HostMap) : Bool :=
  (jumpLoopsFrom start unique (unique.length + 1) [start.recordID] start).getD false

/-- The map of a list of hosts with different aliases. -/
def uniqueOf (hosts : List HostView) : HostMap :=
  hosts.foldl (fun unique h => (h.hostAlias, h) :: unique) []

/-! ## `planHosts` -/

/-- `control.HostIssue`. -/
structure HostIssue where
  recordID : ID
  hostAlias : List Char
  problem : List Char
  remedy : List Char
  omitted : Bool
  deriving DecidableEq, Repr

/-- `fmt.Sprintf`, with texts as arguments. -/
def format (f : String) (args : List (List Char)) : List Char :=
  sprintf f.toList (args.map String.ofList)

/-- The map `byID`. -/
def byIDOf (keys : List KeyView) : List (ID × KeyView) :=
  keys.foldl (fun byID k => (k.recordID, k) :: byID) []

/-- An entry of the map `aliasCount`. -/
def aliasCount (hosts : List HostView) (hostAlias : List Char) : ℕ :=
  (hosts.map HostView.hostAlias).count hostAlias

/-- `subject`. -/
def subject (hosts : List HostView) (h : HostView) : List Char :=
  if 1 < aliasCount hosts h.hostAlias then h.recordID else h.hostAlias

/-- The variables of `planHosts`; `changed` is that of the loop. -/
structure Plan where
  generated : List Sshconfig.Host
  omitted : List ID
  unique : HostMap
  issues : List HostIssue
  changed : Bool
  deriving DecidableEq, Repr

/-- `report`. -/
def Plan.report (p : Plan) (h : HostView) (omitted : Bool) (problem remedy : List Char) : Plan :=
  { p with issues := p.issues ++ [{ recordID := h.recordID, hostAlias := h.hostAlias,
                                    problem := problem, remedy := remedy, omitted := omitted }] }

/-- A turn of the loop over the keys of a host. -/
def offerKey (publicKeyDigest : List Char → Except Error (List Char)) (hosts : List HostView)
    (byID : List (ID × KeyView)) (h : HostView) (s : Plan × List Sshconfig.Identity) (id : ID) :
    Except Error (Plan × List Sshconfig.Identity) :=
  match byID.lookup id with
  | none =>
    .ok (s.1.report h false (format "offers key %s, which is no longer in the vault" [id])
      (format "choose its keys again: sshstate edit %s --key <key>" [subject hosts h]), s.2)
  | some k => do
    let digest ← (publicKeyDigest k.publicKey).mapError
      (.wrap "host %q key %s: %w" [String.ofList h.hostAlias, ID.text id])
    return (s.1, s.2 ++ [{ slot := s.2.length + 1, digest := digest, publicKey := k.publicKey }])

/-- A turn of the first loop over the hosts. -/
def planHost (publicKeyDigest : List Char → Except Error (List Char)) (hosts : List HostView)
    (byID : List (ID × KeyView)) (p : Plan) (h : HostView) : Except Error Plan := do
  let (p, identities) ← h.keyIDs.foldlM (offerKey publicKeyDigest hosts byID h) (p, [])
  let gen : Sshconfig.Host :=
    { hostAlias := h.hostAlias, hostName := h.hostName, user := h.user, port := h.port,
      proxyJump := h.proxyJump, identities := identities }
  let p := { p with generated := p.generated ++ [gen] }
  if 1 < aliasCount hosts h.hostAlias then
    return { p with omitted := h.recordID :: p.omitted }.report h true
      (format "shares the alias %q with another host, so ssh cannot tell them apart" [h.hostAlias])
      (format "rename one of them: sshstate edit %s --alias <new-alias>" [h.recordID])
  else return { p with unique := (h.hostAlias, h) :: p.unique }

/-- The `switch`: why a host with this jump host is left out. -/
def jumpProblem (hosts : List HostView) (p : Plan) (h : HostView) (jump : List Char) :
    Option (List Char) :=
  if 1 < aliasCount hosts jump then
    some (format "jumps through %q, which more than one host is named" [jump])
  else
    match p.unique.lookup jump with
    | none => some (format "jumps through %q, which is not a host in this vault" [jump])
    | some target =>
      if jumpLoops h p.unique then some (format "is part of a ProxyJump loop" [])
      else if target.recordID ∈ p.omitted then
        some (format "jumps through %q, which is itself left out of the SSH config" [jump])
      else none

/-- A turn of the second loop over the hosts. -/
def jumpTurn (hosts : List HostView) (p : Plan) (h : HostView) : Plan :=
  if h.recordID ∈ p.omitted then p
  else
    match h.proxyJump with
    | none => p
    | some jump =>
      match jumpProblem hosts p h jump with
      | none => p
      | some problem =>
        { p with omitted := h.recordID :: p.omitted, changed := true }.report h true problem
          (format "choose its jump host again: sshstate edit %s --jump <alias|none>"
            [subject hosts h])

/-- The loop `for changed`. -/
def jumpLoop (hosts : List HostView) : (turns : ℕ) → Plan → Option Plan
  | 0, _ => none
  | turns + 1, p =>
    let p := hosts.foldl (jumpTurn hosts) { p with changed := false }
    if p.changed then jumpLoop hosts turns p else some p

/-- The hosts that are not left out. -/
def Plan.out (p : Plan) (hosts : List HostView) : List Sshconfig.Host :=
  (hosts.zip p.generated).filterMap fun (h, gen) => if h.recordID ∈ p.omitted then none else some gen

/-- `planHosts`, with a bound on the turns of its loop; there is no result if the bound is
    reached. -/
def planHostsFrom (publicKeyDigest : List Char → Except Error (List Char)) (turns : ℕ)
    (hosts : List HostView) (keys : List KeyView) :
    Except Error (Option (List Sshconfig.Host × List HostIssue)) := do
  let p ← hosts.foldlM (planHost publicKeyDigest hosts (byIDOf keys))
    { generated := [], omitted := [], unique := [], issues := [], changed := true }
  return (jumpLoop hosts turns p).map fun p => (p.out hosts, p.issues)

/-- `planHosts`: the rendered hosts and the issues. -/
def planHosts (publicKeyDigest : List Char → Except Error (List Char)) (hosts : List HostView)
    (keys : List KeyView) : Except Error (List Sshconfig.Host × List HostIssue) := do
  let planned ← planHostsFrom publicKeyDigest (hosts.length + 1) hosts keys
  return planned.getD ([], [])

end Sshstate.Daemon
