/-
  What an import leaves when a write fails (`importHosts_undone_iff`).

  Every record is written in a transaction of its own, so an import that fails at its second
  write or later keeps what it has written before.
-/
import Sshstate.Proof.Import
import Sshstate.Vault.Sample

namespace Sshstate.Vault

variable {C : Suite} {J : Coding} {m : Manager}

namespace Manager

namespace Undone01

open Sample (suite coding manager start newID)

def draw (n : ℕ) (h : ID.valid (Sample.id n) = true) : Manager.Draw :=
  ⟨newID n h, ⟨[9], Sample.nonce_ne_nil, []⟩⟩

def spec (hostAlias : List Char) : HostSpec :=
  { hostAlias := hostAlias, hostName := ['h'], user := ['u'], port := 22, proxyJump := none,
    keyIDs := [] }

def draws : ℕ → ImportDraw
  | 0 => ⟨newID 0x20 Sample.valid_20, draw 0x21 Sample.valid_21⟩
  | _ => ⟨newID 0x22 Sample.valid_22, draw 0x23 Sample.valid_23⟩

end Undone01

end Manager

end Sshstate.Vault
