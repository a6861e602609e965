/-
  Taking hosts out of the user's ssh configuration and putting them back
  (`internal/sshconfig/comment.go`).

  `CommentOutBlocks` turns the lines of the given hosts into comments and puts a marker line
  before each run of them.  `ReactivateBlocks` drops the markers and, after each, uncomments
  the lines that read as commented directives.
-/
import Sshstate.Sshconfig.Parse

namespace Sshstate.Sshconfig

open Search

/-- `CommentResult`. -/
structure CommentResult where
  backupPath : Bytes := []
  aliases : List Bytes := []
  lines : ℕ := 0
  deriving DecidableEq, Repr

/-- `supersededMarker`. -/
def supersededMarker : Bytes := text "# superseded by sshstate: "

/-- `strings.Join` with newlines. -/
def joinLines (lines : List Bytes) : Bytes := [newline].intercalate lines

/-! ## Commenting out -/

/-- The line of the marker. -/
def supersededLine : Bytes := supersededMarker ++ text "the vault defines this host"

/-- The set `commented`. -/
def commented (blocks : List ImportedHost) (n : ℕ) : Bool :=
  blocks.any fun b => b.line ≤ n && n ≤ b.endLine

/-- `sort.SliceStable` by `Line`. -/
def sortBlocks (blocks : List ImportedHost) : List ImportedHost :=
  blocks.insertionSort fun a b => a.line ≤ b.line

/-- The check of the blocks against a file of `count` lines; the aliases. -/
def checkBlocks (path : Bytes) (count : ℕ) : List ImportedHost → Except Err (List Bytes)
  | [] => return []
  | b :: blocks => do
    if b.line < 1 ∨ b.endLine > count ∨ b.endLine < b.line then
      throw (.errorf "host %q spans lines %d-%d, which %s does not have"
        [.str b.hostAlias, .num b.line, .num b.endLine, .str path])
    return b.hostAlias :: (← checkBlocks path count blocks)

/-- The new lines, from the `n`-th on. -/
def commentFrom (blocks : List ImportedHost) (n : ℕ) : List Bytes → List Bytes
  | [] => []
  | line :: lines =>
    if commented blocks n = false then line :: commentFrom blocks (n + 1) lines
    else if commented blocks (n - 1) = false then
      supersededLine :: (text "# " ++ line) :: commentFrom blocks (n + 1) lines
    else (text "# " ++ line) :: commentFrom blocks (n + 1) lines

/-- The text `CommentOutBlocks` writes. -/
def commentText (blocks : List ImportedHost) (body : Bytes) : Bytes :=
  joinLines (commentFrom blocks 1 (linesOf body))

/-- The number of lines that become comments. -/
def commentCount (blocks : List ImportedHost) (body : Bytes) : ℕ :=
  ((List.range (linesOf body).length).filter fun i => commented blocks (i + 1)).length

/-- The last step of `CommentOutBlocks`, if its calls succeed: nobody else may read the file. -/
def tighten (ok : Bool) : Command Unit := do
  let d ← get
  match d.user.node with
  | .file body perm =>
    if ok ∧ perm &&& 0o077 ≠ 0 then
      set { d with user := { d.user with node := .file body (perm &&& ~~~0o077) } }
  | _ => return ()

/-- `CommentOutBlocks`. -/
def commentOutBlocks (sha256 : Bytes → Bytes) (l : Layout) (blocks : List ImportedHost) (c : Calls)
    (chmod : Bool) : Command CommentResult := do
  if blocks = [] then return {}
  refuseSymlink l.userSSHConfig
  let (body, existed) ← readUserConfig c.first l.userSSHConfig
  if existed = false then throw (.errorf "%s does not exist" [.str l.userSSHConfig])
  match checkBlocks l.userSSHConfig (linesOf body).length (sortBlocks blocks) with
  | .error err => throw err
  | .ok aliases =>
    let backupPath ← backupUserConfig c l.userSSHConfig body
    replaceUserConfig sha256 c l.userSSHConfig body (commentText blocks body) existed
    tighten chmod
    return { backupPath, aliases, lines := commentCount blocks body }

/-! ## Reactivating -/

/-- `commentedBlockLine`. -/
def commentedBlockLine (lib : Library) (line : Bytes) : Bool :=
  if line = [hash] then true
  else if ¬ text "# " <+: line then false
  else
    let original := Utf8.trimSpace (trimPrefix (text "# ") line)
    if original = [] ∨ [hash] <+: original then true
    else
      match splitDirective original with
      | .error _ => false
      | .ok (keyword, _) =>
        lib.toLower keyword = text "host" || supportedInHost.contains (lib.toLower keyword)

/-- A line without the comment. -/
def uncomment (line : Bytes) : Bytes := trimPrefix [32] (trimPrefix [hash] line)

/-- The new lines, and which of them were uncommented; `inside` is the inner loop. -/
def reactivateFrom (lib : Library) (inside : Bool) : List Bytes → List (Bytes × Bool)
  | [] => []
  | line :: lines =>
    if inside ∧ commentedBlockLine lib line then
      (uncomment line, true) :: reactivateFrom lib true lines
    else if supersededMarker <+: line then reactivateFrom lib true lines
    else (line, false) :: reactivateFrom lib false lines

/-- The alias of a line that is a `Host` line again. -/
def reactivatedAlias (lib : Library) (line : Bytes) : Option Bytes :=
  match splitDirective line with
  | .ok (keyword, arg :: _) => if lib.equalFold keyword (text "host") then some arg else none
  | _ => none

/-- The lines of a text after `ReactivateBlocks`. -/
def reactivated (lib : Library) (body : Bytes) : List (Bytes × Bool) :=
  reactivateFrom lib false (linesOf body)

/-- `ReactivateBlocks`. -/
def reactivateBlocks (lib : Library) (sha256 : Bytes → Bytes) (l : Layout) (c : Calls) :
    Command CommentResult := do
  let (body, existed) ← readUserConfig c.first l.userSSHConfig
  if existed = false then return {}
  if index supersededMarker body = none then return {}
  refuseSymlink l.userSSHConfig
  let out := reactivated lib body
  let back := (out.filter Prod.snd).map Prod.fst
  if back.length = 0 then return {}
  let backupPath ← backupUserConfig c l.userSSHConfig body
  replaceUserConfig sha256 c l.userSSHConfig body (joinLines (out.map Prod.fst)) true
  return { backupPath, aliases := back.filterMap (reactivatedAlias lib), lines := back.length }

end Sshstate.Sshconfig
