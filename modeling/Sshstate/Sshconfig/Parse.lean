/-
  Reading hosts from an ssh configuration (`internal/sshconfig/parse.go`).

  A line is cut into tokens (`tokenize`) and read as a directive (`splitDirective`).
  `ParseImport` goes over the lines with a `Parser`: the hosts it has closed, the one it is in,
  the problems, and the last line that said something about a host.  Lines between the two
  markers are passed over.  Every problem keeps the format and the arguments of the source.
-/
import Sshstate.Lib.Utf8
import Sshstate.Sshconfig.Install

namespace Sshstate.Sshconfig

/-- Functions of the libraries. -/
structure Library where
  /-- `unicode.ToLower`. -/
  lower : Char → Char
  /-- Two characters that `unicode.SimpleFold` leads to each other. -/
  folds : Char → Char → Bool

/-- `strings.ToLower`. -/
def Library.toLower (lib : Library) (s : Bytes) : Bytes := Utf8.toLower lib.lower s

/-- `strings.EqualFold`. -/
def Library.equalFold (lib : Library) (s t : Bytes) : Bool :=
  (Utf8.runes s).length = (Utf8.runes t).length &&
    ((Utf8.runes s).zip (Utf8.runes t)).all fun (a, b) => a = b || lib.folds a b

/-- `ImportedHost`; the port is 0 if it is not set. -/
structure ImportedHost where
  line : ℕ
  endLine : ℕ
  hostAlias : Bytes
  hostName : Bytes := []
  user : Bytes := []
  port : ℤ := 0
  proxyJump : Option Bytes := none
  identityFiles : List Bytes := []
  deriving DecidableEq, Repr

/-- `ImportProblem`. -/
structure ImportProblem where
  line : ℕ
  text : Err
  deriving DecidableEq, Repr

/-! ## Directives -/

/-- `'"'`. -/
def quote : UInt8 := 34

/-- `'#'`. -/
def hash : UInt8 := 35

/-- `'='`. -/
def equals : UInt8 := 61

/-- `' '`, `'\t'` and `'\r'`. -/
def separates (c : UInt8) : Bool := c = 32 || c = 9 || c = 13

/-- The tokens, with the one that has begun. -/
def finish (tokens : List Bytes) (cur : Bytes) (started : Bool) : List Bytes :=
  if started then tokens ++ [cur] else tokens

/-- The loop of `tokenize`. -/
def tokenizeFrom (tokens : List Bytes) (cur : Bytes) (quoted started : Bool) :
    Bytes → Except Err (List Bytes)
  | [] => if quoted then .error (.errorf "unbalanced quote" []) else .ok (finish tokens cur started)
  | c :: raw =>
    if c = quote then tokenizeFrom tokens cur (!quoted) true raw
    else if c = hash ∧ quoted = false then .ok (finish tokens cur started)
    else if separates c ∧ quoted = false then
      tokenizeFrom (finish tokens cur started) [] false false raw
    else tokenizeFrom tokens (cur ++ [c]) quoted true raw

/-- `tokenize`. -/
def tokenize (raw : Bytes) : Except Err (List Bytes) := tokenizeFrom [] [] false false raw

/-- The keyword and the arguments of a line that has tokens. -/
def directiveOf (token : Bytes) (args : List Bytes) : Bytes × List Bytes :=
  match token.idxOf? equals with
  | some i =>
    let rest := token.drop (i + 1)
    (token.take i, if rest ≠ [] then rest :: args else args)
  | none =>
    match args with
    | [] => (token, [])
    | arg :: more =>
      if arg = [equals] then (token, more)
      else (token, trimPrefix [equals] arg :: more)

/-- `splitDirective`. -/
def splitDirective (raw : Bytes) : Except Err (Bytes × List Bytes) := do
  match ← tokenize raw with
  | [] => return ([], [])
  | token :: args =>
    let (keyword, args) := directiveOf token args
    if keyword = [] then throw (.errorf "directive begins with %q" [.str [equals]])
    return (keyword, args)

/-- `strings.ContainsAny`, for a set of ASCII characters. -/
def containsAny (s chars : Bytes) : Bool := s.any chars.contains

/-- `hostPattern`. -/
def hostPattern (args : List Bytes) : Except Err Bytes :=
  match args with
  | [] => .error (.errorf "Host names no alias" [])
  | [name] =>
    if name = [] then .error (.errorf "Host names an empty alias" [])
    else if containsAny name (text "*?") then
      .error (.errorf "Host %q is a wildcard pattern; the v1 subset is one literal alias" [.str name])
    else if text "!" <+: name then
      .error (.errorf "Host %q is a negated pattern; the v1 subset is one literal alias" [.str name])
    else .ok name
  | _ => .error (.errorf
      "Host %s declares %d patterns; the v1 subset is one literal alias per block"
      [.str (List.intercalate [32] args), .num args.length])

/-- `proxyJump`. -/
def proxyJump (lib : Library) (args : List Bytes) : Except Err (Option Bytes) :=
  match args with
  | [value] =>
    if lib.equalFold value (text "none") then .ok none
    else if containsAny value (text ",") then .error (.errorf
      "ProxyJump %q chains several hosts; the v1 subset is one alias" [.str value])
    else if containsAny value (text "@:") then .error (.errorf
      "ProxyJump %q carries a user or port; name a managed alias instead" [.str value])
    else if containsAny value (text "*?!") then .error (.errorf
      "ProxyJump %q is a pattern; name one managed alias" [.str value])
    else .ok (some value)
  | _ => .error (.errorf "ProxyJump takes one alias, got %d" [.num args.length])

/-- The digits of `strconv.Atoi`. -/
def digits (s : Bytes) : Option ℕ :=
  if s ≠ [] ∧ s.all (fun c => 48 ≤ c && c ≤ 57) then
    some (s.foldl (fun n c => 10 * n + (c.toNat - 48)) 0)
  else none

/-- `strconv.Atoi`, if it succeeds. -/
def atoi (s : Bytes) : Option ℤ :=
  match s with
  | [] => none
  | c :: rest =>
    if c = 45 then (digits rest).bind fun n => if n ≤ maxInt64 + 1 then some (-n) else none
    else (digits (if c = 43 then rest else s)).bind fun n => if n ≤ maxInt64 then some n else none

/-! ## The parser -/

/-- `supportedInHost`. -/
def supportedInHost : List Bytes :=
  [text "hostname", text "user", text "port", text "proxyjump", text "identityfile"]

/-- `executableDirectives`, with what they do. -/
def executableDirectives : List (Bytes × String) :=
  [(text "proxycommand", "runs a command"), (text "localcommand", "runs a command"),
   (text "permitlocalcommand", "enables running commands"), (text "remotecommand", "runs a command"),
   (text "knownhostscommand", "runs a command"),
   (text "match", "can run commands through \x60match exec\x60")]

/-- `certificateDirectives`. -/
def certificateDirectives : List Bytes :=
  [text "certificatefile", text "hostcertificate", text "hostbasedkeytypes"]

/-- The variables of `ParseImport`; `set` are the lines of the directives of the host. -/
structure Parser where
  hosts : List ImportedHost := []
  problems : List ImportProblem := []
  current : Option ImportedHost := none
  seenAlias : List (Bytes × ℕ) := []
  set : List (Bytes × ℕ) := []
  lastContent : ℕ := 0
  managed : Bool := false
  deriving DecidableEq, Repr

namespace Parser

/-- `fail`. -/
def fail (p : Parser) (line : ℕ) (err : Err) : Parser :=
  { p with problems := p.problems ++ [{ line := line, text := err }] }

/-- `closeBlock`. -/
def closeBlock (p : Parser) : Parser :=
  match p.current with
  | none => p
  | some h => { p with hosts := p.hosts ++ [{ h with endLine := p.lastContent }], current := none }

/-- A `Host` line. -/
def host (lib : Library) (p : Parser) (line : ℕ) (args : List Bytes) : Parser :=
  let p := { p.closeBlock with set := [] }
  match hostPattern args with
  | .error err => p.fail line err
  | .ok name =>
    match p.seenAlias.lookup (lib.toLower name) with
    | some first => p.fail line
        (.errorf "host %q is already defined on line %d" [.str name, .num first])
    | none =>
      { p with seenAlias := (lib.toLower name, line) :: p.seenAlias
               current := some { line := line, endLine := line, hostAlias := name } }

/-- The value of a directive of the host `h`. -/
def value (lib : Library) (h : ImportedHost) (lowered : Bytes) (args : List Bytes) :
    Except Err ImportedHost :=
  match args with
  | [arg] =>
    if lowered = text "hostname" then
      if containsAny arg (text "%") then .error (.errorf
        "HostName %s uses an OpenSSH %% token; write the host name instead" [.str arg])
      else .ok { h with hostName := arg }
    else if lowered = text "user" then .ok { h with user := arg }
    else if lowered = text "port" then
      match atoi arg with
      | some port =>
        if port < 1 ∨ port > 65535 then
          .error (.errorf "Port %q is not a number between 1 and 65535" [.str arg])
        else .ok { h with port := port }
      | none => .error (.errorf "Port %q is not a number between 1 and 65535" [.str arg])
    else if lowered = text "proxyjump" then do
      return { h with proxyJump := ← proxyJump lib args }
    else
      if containsAny arg (text "%") then .error (.errorf
        "IdentityFile %s uses an OpenSSH %% token; write the full path instead" [.str arg])
      else .ok { h with identityFiles := h.identityFiles ++ [arg] }
  | _ => .error (.errorf "IdentityFile takes one path, got %d" [.num args.length])

/-- The value of a directive, in the parser. -/
def assign (lib : Library) (p : Parser) (line : ℕ) (h : ImportedHost) (lowered : Bytes)
    (args : List Bytes) : Parser :=
  match value lib h lowered args with
  | .error err => p.fail line err
  | .ok h => { p with current := some h }

/-- A directive of the supported ones, in the host `h`. -/
def supported (lib : Library) (p : Parser) (line : ℕ) (h : ImportedHost) (keyword lowered : Bytes)
    (args : List Bytes) : Parser :=
  let p := { p with lastContent := line }
  if lowered = text "identityfile" then p.assign lib line h lowered args
  else
    match p.set.lookup lowered with
    | some first => p.fail line
        (.errorf "%s is set twice for host %q; it was already set on line %d"
          [.str keyword, .str h.hostAlias, .num first])
    | none =>
      let p := { p with set := (lowered, line) :: p.set }
      if args.length ≠ 1 then
        p.fail line (.errorf "%s takes one value, got %d" [.str keyword, .num args.length])
      else p.assign lib line h lowered args

/-- A line that is no `Host` line. -/
def directive (lib : Library) (p : Parser) (line : ℕ) (keyword : Bytes) (args : List Bytes) : Parser :=
  let lowered := lib.toLower keyword
  match executableDirectives.lookup lowered with
  | some why => p.fail line
      (.errorf "%s is not imported because it %s" [.str keyword, .str (text why)])
  | none =>
    if certificateDirectives.contains lowered then p.fail line
      (.errorf "%s is not imported; certificates are not in the v1 subset" [.str keyword])
    else if lowered = text "include" then p.fail line (.errorf
      "Include is not imported; prepare a single file with the hosts you want" [])
    else if supportedInHost.contains lowered = false then p.fail line
      (.errorf "%s is not in the v1 import subset" [.str keyword])
    else
      match p.current with
      | none => p.fail line (.errorf "%s appears before any Host block" [.str keyword])
      | some h => p.supported lib line h keyword lowered args

/-- One turn of the loop over the lines. -/
def step (lib : Library) (p : Parser) (raw : Bytes) (line : ℕ) : Parser :=
  if Utf8.trimSpace raw = markerBegin then { p with managed := true }
  else if Utf8.trimSpace raw = markerEnd then { p with managed := false }
  else if p.managed then p
  else
    match splitDirective raw with
    | .error err => p.fail line err
    | .ok (keyword, args) =>
      if keyword = [] then p
      else if lib.toLower keyword = text "host" then p.host lib line args
      else p.directive lib line keyword args

/-- The loop over the lines. -/
def after (lib : Library) (lines : List Bytes) : Parser :=
  (lines.zipIdx 1).foldl (fun p (raw, line) => p.step lib raw line) {}

end Parser

/-- The lines of a text. -/
def linesOf (body : Bytes) : List Bytes := body.splitOn newline

/-- The host name is the alias if there is none. -/
def withHostName (h : ImportedHost) : ImportedHost :=
  if h.hostName = [] then { h with hostName := h.hostAlias } else h

/-- `ParseImport`. -/
def parseImport (lib : Library) (body : Bytes) : List ImportedHost × List ImportProblem :=
  let p := (Parser.after lib (linesOf body)).closeBlock
  if p.problems.length > 0 then ([], p.problems) else (p.hosts.map withHostName, [])

end Sshstate.Sshconfig
