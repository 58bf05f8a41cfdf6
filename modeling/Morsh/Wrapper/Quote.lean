/-!
# Quoting for the remote shell

What the wrapper runs every argument through before it hands the command to
ssh, for each of the shells there may be at the other end.
-/

namespace Morsh

/-- `str::replace` of a character. -/
def replaceChar (old : Char) (new : String) (s : String) : String :=
  .ofList (s.toList.flatMap fun c => if c = old then new.toList else [c])

/-- What `shell_quote` leaves bare: an ASCII letter or digit, or one of a few
others. No byte of any other character qualifies. -/
def isBare (c : Char) : Bool := c.isAlphanum || "@%+=:,./-_".toList.contains c

/-- Quote an argument for a Posix shell. Single quotes protect everything except
a single quote itself, which is spliced in. -/
def shellQuote (s : String) : String :=
  if s ≠ "" ∧ s.toList.all isBare then s
  else "'" ++ replaceChar '\'' "'\\''" s ++ "'"

def shellQuoteAll (parts : List String) : String := " ".intercalate (parts.map shellQuote)

/-- Quote an argument for cmd.exe, with double quotes only when needed. -/
def cmdQuote (s : String) : String :=
  if s.toList.contains ' ' || s.toList.contains '\t' then "\"" ++ replaceChar '"' "\"\"" s ++ "\""
  else s

def cmdQuoteAll (parts : List String) : String := " ".intercalate (parts.map cmdQuote)

/-- Quote an argument for PowerShell. -/
def pwshQuote (s : String) : String := "'" ++ replaceChar '\'' "''" s ++ "'"

def pwshQuoteAll (parts : List String) : String := " ".intercalate (parts.map pwshQuote)

inductive RemoteShell where
  | posix | cmd | powerShell
  deriving DecidableEq, Repr

/-- The full remote launch command: `first` is always run, `second` where it
fails. The locale variables are exported on Posix remotes. -/
def renderRemoteCommand (shell : RemoteShell) (first : List String) (second : Option (List String))
    (rustLog : Option String) (localeVars : List (String × String)) : String :=
  match shell with
  | .posix =>
      let localeExport :=
        if localeVars = [] then "export LC_ALL=C.UTF-8"
        else "export " ++ " ".intercalate ((localeVars.filter (·.2 ≠ "")).map fun v =>
          v.1 ++ "=" ++ shellQuote v.2)
      let first := match rustLog with
        | some v => "env RUST_LOG=" ++ shellQuote v ++ " " ++ shellQuoteAll first
        | none => shellQuoteAll first
      localeExport ++ "; " ++ match second with
        | some second => "(" ++ first ++ " 2>/dev/null) || " ++ shellQuoteAll second
        | none => first
  | .cmd =>
      let run := match second with
        | some second => "(" ++ cmdQuoteAll first ++ " 2>nul) || " ++ cmdQuoteAll second
        | none => cmdQuoteAll first
      match rustLog with
      | some v => "set \"RUST_LOG=" ++ v ++ "\" && (" ++ run ++ ")"
      | none => run
  | .powerShell =>
      let run := match second with
        | some second =>
            "& " ++ pwshQuoteAll first ++ " 2>$null; if ($LASTEXITCODE -ne 0) \x7b & "
              ++ pwshQuoteAll second ++ " \x7d"
        | none => "& " ++ pwshQuoteAll first
      match rustLog with
      | some v => "$env:RUST_LOG='" ++ replaceChar '\'' "''" v ++ "'; " ++ run
      | none => run

end Morsh
