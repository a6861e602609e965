/-
  The include in the user's ssh configuration (`internal/sshconfig`: `install.go`,
  `atomic.go`; `internal/paths`: `paths.go`).

  `Install` puts a block with two marker lines in front of `~/.ssh/config`, and
  `Uninstall` cuts it out again.  Texts and paths are byte strings.  A command is a
  computation on the `Disk`: the user's file and the backups beside it.  `Calls` says how
  the calls to the system end in one run and what other programs do to the file between
  the first reading and the second.  An error keeps the format and the arguments of the
  source.  A command that fails returns its error alone: no caller reads the result that
  the source returns with it.
-/
import Sshstate.Lib.Search
import Sshstate.Protocol.Codec

namespace Sshstate.Sshconfig

open Search

/-! ## Texts -/

/-- A constant of the source. -/
def text (s : String) : Bytes := utf8 s.toList

/-- `'\n'`. -/
def newline : UInt8 := 10

/-- `'/'`. -/
def slash : UInt8 := 47

/-- An argument of a format. -/
inductive Arg where
  | str (s : Bytes)
  | num (n : ℕ)
  deriving DecidableEq, Repr

/-- An error: one built from a format, one wrapped by a format, the answer of a system call,
    or a `SymlinkError`. -/
inductive Err where
  | errorf (format : String) (args : List Arg)
  | wrap (format : String) (args : List Arg) (err : Err)
  | system (answer : Bytes)
  | symlink (path target : Bytes)
  deriving DecidableEq, Repr

/-- `ErrConcurrentChange`. -/
def errConcurrentChange : Err := .errorf "~/.ssh/config changed while sshstate was editing it" []

/-! ## Paths -/

/-- One component of a path in `filepath.Clean`; the components before it are given from the
    last to the first. -/
def cleanPart (rooted : Bool) (parts : List Bytes) (part : Bytes) : List Bytes :=
  if part = [] ∨ part = text "." then parts
  else if part = text ".." then
    match parts with
    | [] => if rooted then [] else [part]
    | last :: rest => if last = text ".." then part :: parts else rest
  else part :: parts

/-- `filepath.Clean`. -/
def clean (path : Bytes) : Bytes :=
  let rooted := path.head? = some slash
  let parts := ((path.splitOn slash).foldl (cleanPart rooted) []).reverse
  let cleaned := (if rooted then [slash] else []) ++ [slash].intercalate parts
  if cleaned = [] then text "." else cleaned

/-- `filepath.Join`. -/
def join (elems : List Bytes) : Bytes :=
  match elems.dropWhile (· = []) with
  | [] => []
  | elems => clean ([slash].intercalate elems)

/-- `filepath.Base`. -/
def base (path : Bytes) : Bytes :=
  match ((path.splitOn slash).filter (· ≠ [])).getLast? with
  | some part => part
  | none => if path = [] then text "." else [slash]

/-- `paths.Layout`. -/
structure Layout where
  data : Bytes
  ssh : Bytes
  runtime : Bytes
  userSSHConfig : Bytes
  deriving DecidableEq, Repr

/-- `Layout.Config`. -/
def Layout.config (l : Layout) : Bytes := join [l.ssh, text "config"]

/-! ## Files -/

/-- What stands at the end of a path; a file has its permission bits. -/
inductive Node where
  | missing
  | irregular
  | file (body : Bytes) (perm : BitVec 9)
  deriving DecidableEq, Repr

/-- The user's file: the target of its path, if the path is a symlink, and what is found there. -/
structure UserFile where
  link : Option Bytes
  node : Node
  deriving DecidableEq, Repr

/-- The text of the user's file. -/
def UserFile.body (f : UserFile) : Bytes :=
  match f.node with
  | .file body _ => body
  | _ => []

/-- The user's file and the backups by their paths. -/
structure Disk where
  user : UserFile
  backups : List (Bytes × Bytes)
  deriving DecidableEq, Repr

/-- How `writeThrough` ends: the data is in place, it is not, or it is and the directory
    could not be synced. -/
inductive Placing where
  | placed
  | failed (answer : Bytes)
  | unsynced (answer : Bytes)
  deriving DecidableEq, Repr

/-- The answers of `os.Stat` and `os.ReadFile`, if they fail. -/
structure Reading where
  stat : Option Bytes
  read : Option Bytes
  deriving DecidableEq, Repr

/-- How the calls of one run end.  `stamp` is the time in the names of the backups, `others`
    is what other programs do to the user's file before it is read again, and `perm` says
    that the permissions could not be read. -/
structure Calls where
  first : Reading
  stamp : Bytes
  backup : Placing
  others : UserFile → UserFile
  again : Reading
  perm : Option Bytes
  write : Placing

/-- A command on the disk. -/
abbrev Command (α : Type) := EStateM Err Disk α

/-- `readUserConfig`: the text, and whether there is a file. -/
def readUserConfig (r : Reading) (path : Bytes) : Command (Bytes × Bool) := do
  let d ← get
  match r.stat with
  | some answer => throw (.wrap "inspect %s: %w" [.str path] (.system answer))
  | none =>
    match d.user.node with
    | .missing => return ([], false)
    | .irregular => throw (.errorf "%s is not a regular file" [.str path])
    | .file body _ =>
      match r.read with
      | some answer => throw (.wrap "read %s: %w" [.str path] (.system answer))
      | none => return (body, true)

/-- `refuseSymlink`. -/
def refuseSymlink (path : Bytes) : Command Unit := do
  let d ← get
  match d.user.link with
  | some target => throw (.symlink path target)
  | none => return ()

/-- `maxBackupsPerSecond`. -/
def maxBackupsPerSecond : ℕ := 100

/-- The name of the `n`-th backup of a second. -/
def backupName (path stamp : Bytes) (n : ℕ) : Bytes :=
  path ++ text ".sshstate-backup-" ++ stamp ++
    if n = 1 then [] else text "-" ++ utf8 (Nat.toDigits 10 n)

/-- The loop of `backupUserConfig`: the next `tries` names, from the `n`-th on. -/
def backupFrom (c : Calls) (path body : Bytes) : (tries n : ℕ) → Command Bytes
  | 0, n => throw (.wrap "write backup %s: %w" [.str (base (backupName path c.stamp (n - 1)))]
      (.system (text "file exists")))
  | tries + 1, n => do
    let d ← get
    let name := backupName path c.stamp n
    let failure (answer : Bytes) : Err :=
      .wrap "write backup %s: %w" [.str (base name)] (.system answer)
    match c.backup with
    | .failed answer => throw (failure answer)
    | .placed =>
      if (d.backups.lookup name).isSome then backupFrom c path body tries (n + 1)
      else
        set { d with backups := (name, body) :: d.backups }
        return name
    | .unsynced answer =>
      if (d.backups.lookup name).isSome then backupFrom c path body tries (n + 1)
      else
        set { d with backups := (name, body) :: d.backups }
        throw (failure answer)

/-- `backupUserConfig`. -/
def backupUserConfig (c : Calls) (path body : Bytes) : Command Bytes :=
  backupFrom c path body maxBackupsPerSecond 1

/-- `atomicWrite` on the user's file: the new file takes the place of what the path names. -/
def atomicWrite (p : Placing) (data : Bytes) (perm : BitVec 9) : Command Unit := do
  let d ← get
  match p with
  | .failed answer => throw (.system answer)
  | .placed => set { d with user := { link := none, node := .file data perm } }
  | .unsynced answer =>
    set { d with user := { link := none, node := .file data perm } }
    throw (.system answer)

/-- The permissions of the new file. -/
def newPerm (c : Calls) (existed : Bool) (node : Node) : BitVec 9 :=
  if existed then
    match c.perm, node with
    | none, .file _ perm => perm
    | _, _ => 0o600
  else 0o600

/-- `replaceUserConfig`; other programs run before the file is read again. -/
def replaceUserConfig (sha256 : Bytes → Bytes) (c : Calls) (path original next : Bytes)
    (existed : Bool) : Command Unit := do
  modify fun d => { d with user := c.others d.user }
  if existed then
    let (current, stillThere) ← readUserConfig c.again path
    if stillThere = false ∨ sha256 current ≠ sha256 original then throw errConcurrentChange
  let d ← get
  atomicWrite c.write next (newPerm c existed d.user.node)

/-! ## The managed block -/

/-- `MarkerBegin`. -/
def markerBegin : Bytes := text "# BEGIN sshstate managed include - do not edit this block"

/-- `MarkerEnd`. -/
def markerEnd : Bytes := text "# END sshstate managed include"

/-- `managedBlock`. -/
def managedBlock (l : Layout) : Bytes :=
  markerBegin ++ newline :: (text "Include " ++ l.config ++ newline :: (markerEnd ++ [newline]))

/-- `findBlock`: where the block begins and ends. -/
def findBlock (body : Bytes) : Option (ℕ × ℕ) :=
  match index markerBegin body with
  | none => none
  | some start =>
    match index markerEnd (body.drop start) with
    | none => none
    | some closer =>
      let stop := start + closer + markerEnd.length
      some (start, if body[stop]? = some newline then stop + 1 else stop)

/-- `InstallResult`. -/
structure InstallResult where
  changed : Bool := false
  backupPath : Bytes := []
  created : Bool := false
  deriving DecidableEq, Repr

/-- `bytes.TrimPrefix` and `strings.TrimPrefix`. -/
def trimPrefix (front s : Bytes) : Bytes := if front <+: s then s.drop front.length else s

/-- The text `Install` writes. -/
def installText (l : Layout) (original : Bytes) : Bytes :=
  managedBlock l ++ if original.length > 0 then newline :: original else []

/-- `Install`. -/
def install (sha256 : Bytes → Bytes) (l : Layout) (c : Calls) : Command InstallResult := do
  let (original, existed) ← readUserConfig c.first l.userSSHConfig
  if (findBlock original).isSome then return {}
  refuseSymlink l.userSSHConfig
  let backupPath ← if existed then backupUserConfig c l.userSSHConfig original else pure []
  replaceUserConfig sha256 c l.userSSHConfig original (installText l original) existed
  return { changed := true, backupPath, created := !existed }

/-- The text `Uninstall` writes, for a block from `start` to `stop`. -/
def uninstallText (original : Bytes) (start stop : ℕ) : Bytes :=
  original.take start ++ trimPrefix [newline] (original.drop stop)

/-- `Uninstall`. -/
def uninstall (sha256 : Bytes → Bytes) (l : Layout) (c : Calls) : Command InstallResult := do
  let (original, existed) ← readUserConfig c.first l.userSSHConfig
  if existed = false then return {}
  match findBlock original with
  | none => return {}
  | some (start, stop) =>
    refuseSymlink l.userSSHConfig
    let backupPath ← backupUserConfig c l.userSSHConfig original
    replaceUserConfig sha256 c l.userSSHConfig original (uninstallText original start stop) true
    return { changed := true, backupPath }

/-- `IsInstalled`. -/
def isInstalled (l : Layout) (c : Calls) : Command Bool := do
  let (body, existed) ← readUserConfig c.first l.userSSHConfig
  return existed && (findBlock body).isSome

end Sshstate.Sshconfig
