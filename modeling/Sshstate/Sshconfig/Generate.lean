/-
  The generated configuration (`internal/sshconfig`: `generate.go`; `internal/paths`:
  `paths.go`).

  `render` writes the hosts, in the order of their aliases, as the text of the file that the
  user's configuration includes.  The texts of a host are lists of characters and are written
  as UTF-8.  The source checks three fields in the order of a map, which is not determined;
  here they are in the order of the text.
-/
import Sshstate.Sshconfig.Parse

namespace Sshstate.Sshconfig

/-- `Identity`. -/
structure Identity where
  slot : ℕ
  digest : List Char
  publicKey : List Char
  deriving DecidableEq, Repr

/-- `Host`. -/
structure Host where
  hostAlias : List Char
  hostName : List Char
  user : List Char
  port : ℕ
  proxyJump : Option (List Char)
  identities : List Identity
  deriving DecidableEq, Repr

/-- `Header`. -/
def header : Bytes :=
  text "# Generated by sshstate. Do not edit: this file is rewritten from the vault.\n# Managed hosts, options, and trust come from `sshstate` commands.\n"

/-- `Layout.PublicDir`. -/
def Layout.publicDir (l : Layout) : Bytes := join [l.ssh, text "public"]

/-- `Layout.KnownHosts`. -/
def Layout.knownHosts (l : Layout) : Bytes := join [l.ssh, text "known_hosts"]

/-- `Layout.CaptureFile`. -/
def Layout.captureFile (l : Layout) : Bytes := join [l.ssh, text "known_hosts.capture"]

/-- `Layout.AgentSocket`. -/
def Layout.agentSocket (l : Layout) : Bytes := join [l.runtime, text "agent.sock"]

/-- `fmt.Sprintf("%d", n)`. -/
def decimal (n : ℕ) : Bytes := text (toString n)

/-- `fmt.Sprintf("%02d", n)`. -/
def decimal2 (n : ℕ) : Bytes := if n < 10 then text "0" ++ decimal n else decimal n

/-- `Host.PublicFileName`. -/
def Host.publicFileName (h : Host) (id : Identity) : Bytes :=
  utf8 h.hostAlias ++ text "-" ++ decimal2 id.slot ++ text "-" ++ utf8 id.digest ++ text ".pub"

/-! ## The check of a host -/

/-- The check of one text of a host. -/
def checkField (h : Host) (field : String) (value : List Char) : Except Err Unit := do
  .require (value ≠ []) (.errorf "host %q has no %s" [.str (utf8 h.hostAlias), .str (text field)])
  .require (containsAny (utf8 value) (text "\n\r \t") = false)
    (.errorf "host %q has whitespace in %s" [.str (utf8 h.hostAlias), .str (text field)])

/-- The loop over the identities, with the slots seen. -/
def checkIdentities (h : Host) : (seen : List ℕ) → List Identity → Except Err Unit
  | _, [] => .ok ()
  | seen, id :: ids => do
    .require (1 ≤ id.slot)
      (.errorf "host %q has an identity in slot %d" [.str (utf8 h.hostAlias), .num id.slot])
    .require (id.slot ∉ seen)
      (.errorf "host %q has two identities in slot %d" [.str (utf8 h.hostAlias), .num id.slot])
    .require ((utf8 id.digest).length = 64)
      (.errorf "host %q identity %d has a %d-character digest, want 64 hex"
        [.str (utf8 h.hostAlias), .num id.slot, .num (utf8 id.digest).length])
    checkIdentities h (id.slot :: seen) ids

/-- `checkRenderable`. -/
def checkRenderable (h : Host) : Except Err Unit := do
  checkField h "alias" h.hostAlias
  checkField h "hostname" h.hostName
  checkField h "user" h.user
  .require (1 ≤ h.port ∧ h.port ≤ 65535)
    (.errorf "host %q has port %d" [.str (utf8 h.hostAlias), .num h.port])
  .require (∀ jump ∈ h.proxyJump, containsAny (utf8 jump) (text "\n\r \t") = false)
    (.errorf "host %q has whitespace in ProxyJump" [.str (utf8 h.hostAlias)])
  checkIdentities h [] h.identities

/-! ## The text -/

/-- A line with a keyword and its arguments, indented below a `Host`. -/
def optionLine (keyword : String) (value : Bytes) : Bytes :=
  text "    " ++ text keyword ++ text " " ++ value ++ text "\n"

/-- The text of a host. -/
def renderHost (l : Layout) (h : Host) : Bytes :=
  text "\nHost " ++ utf8 h.hostAlias ++ text "\n" ++
    optionLine "HostName" (utf8 h.hostName) ++
    optionLine "User" (utf8 h.user) ++
    optionLine "Port" (decimal h.port) ++
    (match h.proxyJump with
    | some jump => optionLine "ProxyJump" (utf8 jump)
    | none => text "    ProxyJump none\n") ++
    optionLine "IdentityAgent" l.agentSocket ++
    h.identities.flatMap (fun id =>
      optionLine "IdentityFile" (join [l.publicDir, h.publicFileName id])) ++
    text "    IdentitiesOnly yes\n" ++
    text "    ForwardAgent no\n" ++
    text "    StrictHostKeyChecking ask\n" ++
    text "    UpdateHostKeys no\n" ++
    optionLine "UserKnownHostsFile" (l.captureFile ++ text " " ++ l.knownHosts)

/-- The order of the aliases. -/
def Host.notAfter (a b : Host) : Prop := ¬ utf8 b.hostAlias < utf8 a.hostAlias

instance : DecidableRel Host.notAfter := fun _ _ => by unfold Host.notAfter; infer_instance

/-- `Render`. -/
def render (hosts : List Host) (l : Layout) : Except Err Bytes :=
  (hosts.insertionSort Host.notAfter).foldlM
    (fun written h => do
      checkRenderable h
      return written ++ renderHost l h) header

end Sshstate.Sshconfig
