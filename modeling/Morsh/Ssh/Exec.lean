import Morsh.Lib.Lines
import Morsh.Lib.Utf8
import Morsh.Server.Cli
import Morsh.Terminal.Snapshot

/-!
# Commands over SSH

`exec_with_handler` as a fold over the messages of the channel until it closes,
with the handler's own state in it, and the handler that waits for the server's
MOSH CONNECT line.
-/

namespace Morsh

/-- A message of the channel. -/
inductive ChannelMsg where
  | data (data : List UInt8)
  | extendedData (data : List UInt8)
  | exitStatus (exitStatus : Nat)
  | other
  deriving DecidableEq, Repr

/-- What the loop of `exec_with_handler` carries: the handler's state, what was
written to stderr, and the exit code. -/
structure Exec (σ : Type) where
  handler : σ
  stderr : List UInt8
  code : Option Nat
  deriving DecidableEq, Repr

section

variable {σ : Type}

def Exec.onMessage (handler : σ → Text → σ) (e : Exec σ) : ChannelMsg → Exec σ
  | .data data => { e with handler := (Lines.lines (Utf8.lossy data)).foldl handler e.handler }
  | .extendedData data => { e with stderr := e.stderr ++ data }
  | .exitStatus code => { e with code := some code }
  | .other => e

/-- Execute a command, passing each line of what it writes to the handler. The
code is `none` where the source panics. -/
def execWithHandler (handler : σ → Text → σ) (start : σ) (msgs : List ChannelMsg) : Exec σ :=
  msgs.foldl (Exec.onMessage handler) ⟨start, [], none⟩

end

/-- The Data messages. -/
def stdoutChunks (msgs : List ChannelMsg) : List (List UInt8) :=
  msgs.filterMap fun
    | .data data => some data
    | _ => none

/-- Everything the command writes to stdout. -/
def stdout (msgs : List ChannelMsg) : List UInt8 := (stdoutChunks msgs).flatten

/-- The lines of what a command writes. -/
def linesOf (bytes : List UInt8) : List Text := Lines.lines (Utf8.lossy bytes)

/-- Every chunk that is not empty ends in a line feed, but for the last. -/
def LineWise (chunks : List (List UInt8)) : Prop :=
  ∀ chunk ∈ (chunks.filter (· ≠ [])).dropLast, chunk.getLast? = some 10

instance (chunks : List (List UInt8)) : Decidable (LineWise chunks) :=
  inferInstanceAs (Decidable (∀ _ ∈ _, _))

/-- The parsed MOSH CONNECT line. -/
structure ConnectInfo where
  port : Nat
  key : Text
  ip : Option Text
  deriving DecidableEq, Repr

/-- `char::is_whitespace`. -/
def isWhitespace (c : Char) : Bool :=
  let n := c.toNat
  (0x9 ≤ n ∧ n ≤ 0xd) ∨ n = 0x20 ∨ n = 0x85 ∨ n = 0xa0 ∨ n = 0x1680 ∨ (0x2000 ≤ n ∧ n ≤ 0x200a) ∨
    n = 0x2028 ∨ n = 0x2029 ∨ n = 0x202f ∨ n = 0x205f ∨ n = 0x3000

/-- The words of a text that goes on from `acc`. -/
def wordsFrom (acc : Text) : Text → List Text
  | [] => if acc = [] then [] else [acc]
  | c :: rest =>
      if isWhitespace c then
        if acc = [] then wordsFrom [] rest else acc :: wordsFrom [] rest
      else wordsFrom (acc ++ [c]) rest

def splitWhitespace (text : Text) : List Text := wordsFrom [] text

/-- `parse::<u16>()`. -/
def parseU16 (text : Text) : Option Nat :=
  (Cli.parseU32 (String.ofList text)).filter (· < 2 ^ 16)

/-- The handler of `try_launch_russh`. -/
def onLine (info : Option ConnectInfo) (line : Text) : Option ConnectInfo :=
  if "MOSH CONNECT".toList.isPrefixOf line then
    match splitWhitespace line with
    | _ :: _ :: port :: key :: _ =>
        match parseU16 port with
        | some port => some ⟨port, key, none⟩
        | none => info
    | _ => info
  else info

/-- What `try_launch_russh` makes of the command's messages; `peer` is the address
of the connection. Without an exit status the source panics, and this is
`none`. -/
def connectInfo (peer : Text) (msgs : List ChannelMsg) : Option (Option ConnectInfo) :=
  let exec := execWithHandler onLine none msgs
  exec.code.map fun _ => exec.handler.map fun info => { info with ip := some peer }

end Morsh
