import Morsh.Crypto.Base64Key
import Morsh.Lib.BufRead
import Morsh.Ssh.HostKeys

/-!
# Learning where the server is

What the wrapper makes of the output of the ssh command it runs: the port and
the key from stdout, and the address that the fake proxy announces on stderr.
-/

namespace Morsh

open Crypto

/-- `str::trim_end`. -/
def trimEnd (text : Text) : Text := (text.reverse.dropWhile isWhitespace).reverse

/-- `str::strip_prefix`. -/
def stripPrefix (before text : Text) : Option Text :=
  if before.isPrefixOf text then some (text.drop before.length) else none

/-- Pick the address out of a `MOSH IP` line. -/
def parseIpLine (line : Text) : Option Text :=
  (stripPrefix "MOSH IP ".toList (trimEnd line)).map trim

/-- What the thread that reads ssh's stderr has: the address it handed over, and
the rest. -/
structure StderrReader where
  ip : Option Text
  rest : Text
  deriving DecidableEq, Repr

namespace StderrReader

def onLine (s : StderrReader) (line : Text) : StderrReader :=
  match parseIpLine line, s.ip with
  | some addr, none => { s with ip := some addr }
  | _, _ => { s with rest := s.rest ++ line ++ ['\n'] }

/-- Up to the first line that is an error. -/
def onLines : StderrReader → List (Option Text) → StderrReader
  | s, some line :: lines => (s.onLine line).onLines lines
  | s, _ => s

/-- What it makes of the stderr read so far. -/
def read (stderr : List UInt8) : StderrReader := onLines ⟨none, []⟩ (BufRead.lines stderr)

end StderrReader

/-- The loop over stdout: `none` where a line is an error, else what the first
line to connect by says. -/
def readConnect : List (Option Text) → Option (Option ConnectInfo)
  | [] => some none
  | none :: _ => none
  | some line :: lines =>
      match onLine none line with
      | some info => some (some info)
      | none => readConnect lines

/-- What `try_launch_server` makes of ssh's output: the result, and what it
shows of stderr. Of that, `heard` had been read once stdout was done. -/
def tryLaunchServer (stdout heard stderr : List UInt8) : Option ConnectInfo × Text :=
  match readConnect (BufRead.lines stdout) with
  | none => (none, [])
  | some (some info) => (some { info with ip := (StderrReader.read heard).ip }, [])
  | some none =>
      let err := (StderrReader.read stderr).rest
      (none, if trim err = [] then [] else err)

/-- The client's key, from its environment. -/
def clientKey [Base64Engine] (morshKey : Option Text) : Except String Base64Key :=
  match morshKey with
  | none => .error "MORSH_KEY environment variable not set. Run via morsh wrapper."
  | some keyStr =>
      match Base64Key.fromPrintable keyStr with
      | .ok key => .ok key
      | .error e => .error s!"Invalid MORSH_KEY: {e}"

end Morsh
