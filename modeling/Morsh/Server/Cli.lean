import Mathlib.Algebra.Group.Nat.Defs
import Mathlib.Data.List.Basic

/-!
# The server's command line

The hand-rolled parser of `morsh-server`. Its warnings about what it ignores go
to stderr and change nothing, so they are left out; its errors are results.
-/

namespace Morsh

/-- The settings of a parsed command line. The ports are `u16`s, where 0 stands
for any. -/
structure CliOptions where
  portLow : Nat
  portHigh : Nat
  bindAddr : Option String
  useSshConnection : Bool
  noDaemonize : Bool
  logFile : Option String
  localeVars : List (String × String)
  commandArgs : List String
  colors : Nat
  verbose : Nat
  deriving DecidableEq, Repr

/-- `CliOptions::default()`. -/
instance : Inhabited CliOptions := ⟨⟨0, 0, none, false, false, none, [], [], 0, 0⟩⟩

inductive ParseOutcome where
  | run (opts : CliOptions)
  | help
  | version
  | error (message : String)
  deriving DecidableEq, Repr

namespace Cli

/-- What stands before and after the first `a`. -/
def splitFirst {α : Type} [DecidableEq α] (a : α) : List α → Option (List α × List α)
  | [] => none
  | x :: xs => if x = a then some ([], xs) else (splitFirst a xs).map fun p => (x :: p.1, p.2)

/-- `split_once` on a character. -/
def splitOnce (c : Char) (s : String) : Option (String × String) :=
  (splitFirst c s.toList).map fun p => (String.ofList p.1, String.ofList p.2)

/-- `starts_with('-')`. -/
def startsWithDash (s : String) : Bool := s.toList.head? = some '-'

/-- `strip_prefix("--")`. -/
def stripDashes (s : String) : Option String :=
  match s.toList with
  | '-' :: '-' :: rest => some (String.ofList rest)
  | _ => none

/-- `parse::<u32>()`: a `+` is allowed, an overflow is not. -/
def parseU32 (s : String) : Option Nat :=
  let digits := match s.toList with
    | '+' :: rest => rest
    | chars => chars
  if digits.isEmpty then none
  else
    digits.foldlM (fun acc c =>
      if c.isDigit then
        let n := acc * 10 + (c.toNat - '0'.toNat)
        if n < 2 ^ 32 then some n else none
      else none) 0

/-- Parse `LOW` or `LOW:HIGH`. -/
def parsePortrange (s : String) : Except String (Nat × Nat) :=
  let bad := .error s!"Bad UDP port range ({s})"
  let (lowStr, highStr) := (splitOnce ':' s).getD (s, s)
  match parseU32 lowStr with
  | none => bad
  | some low =>
      match parseU32 highStr with
      | none => bad
      | some high =>
          if ¬(1 ≤ low ∧ low ≤ 65535) ∨ ¬(1 ≤ high ∧ high ≤ 65535) ∨ low > high then bad
          else .ok (low, high)

/-- Options that take a value when written in short form. -/
def shortTakesValue (c : Char) : Bool := c = '@' || c = 'i' || c = 'p' || c = 'c' || c = 'l'

/-- One short option with its value, if it takes one. -/
def applyShort (opts : CliOptions) (c : Char) (value : Option String) :
    Except String CliOptions :=
  match c with
  -- exists only to eat its argument
  | '@' => .ok opts
  | 'i' => .ok { opts with bindAddr := value, useSshConnection := false }
  | 's' => .ok { opts with useSshConnection := true, bindAddr := none }
  | 'p' =>
      match parsePortrange (value.getD "") with
      | .ok (low, high) => .ok { opts with portLow := low, portHigh := high }
      | .error e => .error e
  | 'c' =>
      let raw := value.getD ""
      match parseU32 raw with
      | some v => .ok { opts with colors := v }
      | none => .error s!"Bad number of colors ({raw})"
  | 'l' =>
      let raw := value.getD ""
      match splitOnce '=' raw with
      | some p => .ok { opts with localeVars := opts.localeVars ++ [p] }
      | none => .error s!"-l argument must be NAME=VALUE, got '{raw}'"
  | 'v' => .ok { opts with verbose := opts.verbose + 1 }
  | 'D' => .ok { opts with noDaemonize := true }
  | _ => .ok opts

/-- A cluster of short options. `next` is the argument after it; the result
says whether an option took that for its value. -/
def shortOptions (next : Option String) : CliOptions → List Char →
    Except String (CliOptions × Bool)
  | opts, [] => .ok (opts, false)
  | opts, c :: cs =>
      if shortTakesValue c then
        -- the rest of the cluster is the value, if there is any
        if cs ≠ [] then
          (applyShort opts c (some (String.ofList cs))).map fun opts => (opts, false)
        else
          match next with
          | none => .error s!"option -{c} requires an argument"
          | some v => (applyShort opts c (some v)).map fun opts => (opts, true)
      else
        match applyShort opts c none with
        | .error e => .error e
        | .ok opts => shortOptions next opts cs

/-- A long option, without its dashes. -/
def longOption (next : Option String) (opts : CliOptions) (rest : String) :
    Except String (CliOptions × Bool) :=
  let (name, inlined) := match splitOnce '=' rest with
    | some (n, v) => (n, some v)
    | none => (rest, none)
  if name = "no-daemonize" then .ok ({ opts with noDaemonize := true }, false)
  else if name = "log-file" then
    match inlined with
    | some v => .ok ({ opts with logFile := some v }, false)
    | none =>
        match next with
        | some v => .ok ({ opts with logFile := some v }, true)
        | none => .error "--log-file requires a FILE argument"
  else .ok (opts, false)

/-- One round of the option loop. -/
def oneOption (next : Option String) (opts : CliOptions) (arg : String) :
    Except String (CliOptions × Bool) :=
  match stripDashes arg with
  | some rest => longOption next opts rest
  | none =>
      -- a stray positional is passed over
      if arg = "-" ∨ !startsWithDash arg then .ok (opts, false)
      else shortOptions next opts (arg.toList.drop 1)

def parseOptions : CliOptions → List String → ParseOutcome
  | opts, [] => .run opts
  | opts, [arg] =>
      match oneOption none opts arg with
      | .error e => .error e
      | .ok (opts, _) => .run opts
  | opts, arg :: next :: rest =>
      match oneOption (some next) opts arg with
      | .error e => .error e
      | .ok (opts, true) => parseOptions opts rest
      | .ok (opts, false) => parseOptions opts (next :: rest)

/-- The scan for flags that end the parse, up to the first `--`. -/
def prescan : List String → Option ParseOutcome
  | [] => none
  | a :: rest =>
      if a = "-h" ∨ a = "--help" then some .help
      else if a = "--version" then some .version
      else if a = "--" then none
      else prescan rest

/-- The positional syntax of very old client wrappers: an address and a port. -/
def parseLegacy (opts : CliOptions) : List String → ParseOutcome
  | [] => .run opts
  | [addr] =>
      if startsWithDash addr then .error s!"unexpected argument '{addr}'"
      else .run { opts with bindAddr := some addr }
  | [addr, port] =>
      if startsWithDash addr || startsWithDash port then .error "unexpected argument"
      else
        match parsePortrange port with
        | .ok (low, high) =>
            .run { opts with bindAddr := some addr, portLow := low, portHigh := high }
        | .error e => .error e
  | _ => .error "too many arguments"

/-- Parse the argument list, without the program's name. -/
def parseArgs (args : List String) : ParseOutcome :=
  match prescan args with
  | some outcome => outcome
  | none =>
      let (head, command) := (splitFirst "--" args).getD (args, [])
      let opts := { (default : CliOptions) with commandArgs := command }
      if head.head? = some "new" then parseOptions opts (head.drop 1)
      else parseLegacy opts head

end Cli

end Morsh
