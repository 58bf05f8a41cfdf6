import Morsh.Statesync.UserStream
import Morsh.Terminal.Display
import Morsh.Terminal.Emulator

/-!
# The complete terminal state

`Complete`: a screen, the emulator behind it where there is one, the echo ack
and the input frames it is computed from.
-/

namespace Morsh

def ECHO_TIMEOUT_MS : Nat := 50

structure HostBytes where
  hoststring : Option Bytes
  deriving DecidableEq, Repr

structure EchoAck where
  echoAckNum : Option Nat
  deriving DecidableEq, Repr

structure HostInstruction where
  hostbytes : Option HostBytes
  resize : Option ResizeMessage
  echoack : Option EchoAck
  deriving DecidableEq, Repr

structure HostMessage where
  instruction : List HostInstruction
  deriving DecidableEq, Repr, Inhabited

/-- `clamp(1, u16::MAX as i32) as u16`. -/
def clampSize (v : Int32) : Nat := (max 1 (min v.toInt 65535)).toNat

structure Complete (T : Type) where
  /-- `none` on a state that has only ever been diffed against. -/
  terminal : Option (MoshTerminal T)
  screen : ScreenSnapshot
  echoAck : Nat
  /-- Input frames and when they arrived, oldest first. -/
  inputHistory : List (Nat × Nat)

namespace Complete

variable {T : Type} [Emulator T]

def new (cols rows : Nat) : Except String (Complete T) :=
  (MoshTerminal.new cols rows).bind fun terminal =>
    terminal.snapshot.map fun screen => ⟨some terminal, screen, 0, []⟩

/-- The characters of a text as bytes. -/
def utf8 (text : Text) : Bytes := (String.ofList text).toUTF8.toList

/-- The emulator, rebuilt from the screen where there is none. -/
def terminalMut (c : Complete T) : Except String (MoshTerminal T) :=
  match c.terminal with
  | some terminal => .ok terminal
  | none =>
      (MoshTerminal.new c.screen.cols c.screen.rowsCount).map fun terminal =>
        terminal.write (utf8 (DisplayDiff.fullRedraw c.screen))

/-- Install an emulator and take its screen, if it has one to give. -/
def refresh (c : Complete T) (terminal : MoshTerminal T) : Complete T :=
  { c with
    terminal := some terminal
    screen := match terminal.snapshot with
      | .ok screen => screen
      | .error _ => c.screen }

/-- Feed raw host output into the terminal; an error leaves it as it was. -/
def act (c : Complete T) (bytes : Bytes) : Complete T × Except String Unit :=
  match c.terminalMut with
  | .ok terminal => (c.refresh (terminal.write bytes), .ok ())
  | .error e => (c, .error e)

def resize (c : Complete T) (cols rows : Nat) : Complete T × Except String Unit :=
  match c.terminalMut with
  | .error e => (c, .error e)
  | .ok terminal =>
      match terminal.resize cols rows with
      | (terminal, .ok ()) => (c.refresh terminal, .ok ())
      | (terminal, .error e) => ({ c with terminal := some terminal }, .error e)

def registerInputFrame (c : Complete T) (n now : Nat) : Complete T :=
  { c with inputHistory := c.inputHistory ++ [(n, now)] }

/-- The newest input frame that has been in the terminal long enough. -/
def newestEchoAck (history : List (Nat × Nat)) (now : Nat) : Nat :=
  history.foldl (fun newest p => if now - p.2 ≥ ms ECHO_TIMEOUT_MS then p.1 else newest) 0

def setEchoAck (c : Complete T) (now : Nat) : Complete T × Bool :=
  let newest := newestEchoAck c.inputHistory now
  ({ c with
      inputHistory := c.inputHistory.filter fun p => p.1 ≥ newest
      echoAck := newest },
    c.echoAck ≠ newest)

/-- Milliseconds until `setEchoAck` could next change, or `none` if nothing is
pending. -/
def waitTimeMs (c : Complete T) (now : Nat) : Option Nat :=
  c.inputHistory[1]?.map fun p => (p.2 + ms ECHO_TIMEOUT_MS - now) / ms 1

def dimensions (c : Complete T) : Nat × Nat := (c.screen.cols, c.screen.rowsCount)

/-- The message `diff_from` builds, in mosh's order. -/
def diffMessage (c existing : Complete T) : HostMessage :=
  ⟨(if existing.echoAck ≠ c.echoAck then [⟨none, none, some ⟨some c.echoAck⟩⟩] else []) ++
    if existing.screen ≠ c.screen then
      (if existing.screen.cols ≠ c.screen.cols ∨ existing.screen.rowsCount ≠ c.screen.rowsCount
        then [⟨none, some ⟨some (Int32.ofNat c.screen.cols),
          some (Int32.ofNat c.screen.rowsCount)⟩, none⟩]
        else []) ++
      if DisplayDiff.diff existing.screen c.screen ≠ [] then
        [⟨some ⟨some (utf8 (DisplayDiff.diff existing.screen c.screen))⟩, none, none⟩]
      else []
    else []⟩

/-- One instruction of a received message. -/
def applyInstruction (c : Complete T) (inst : HostInstruction) : Except String (Complete T) :=
  match inst.hostbytes with
  | some hb =>
      match hb.hoststring with
      | some bytes =>
          match c.act bytes with
          | (c, .ok ()) => .ok c
          | (_, .error e) => .error e
      | none => .ok c
  | none =>
      match inst.resize with
      | some resize =>
          match c.resize (clampSize (resize.width.getD 80)) (clampSize (resize.height.getD 24)) with
          | (c, .ok ()) => .ok c
          | (_, .error e) => .error e
      | none =>
          match inst.echoack.bind (·.echoAckNum) with
          -- a stale value is ignored
          | some num => .ok { c with echoAck := max c.echoAck num }
          | none => .ok c

variable [ProstMessage HostMessage]

/-- `apply_string`. The state it is called on is dropped when it fails. -/
def decodeAndApply (c : Complete T) (diff : Bytes) : Except String (Complete T) :=
  match ProstMessage.decode (M := HostMessage) diff with
  | .error e => .error s!"Malformed HostMessage from peer: {e}"
  | .ok msg => msg.instruction.foldlM applyInstruction c

/-- Clones the state, not the emulator. -/
def cloneState (c : Complete T) : Complete T := { c with terminal := none }

/-- Move the live emulator across rather than rebuild one. -/
def adopt (c source : Complete T) : Complete T × Complete T :=
  if c.terminal.isNone ∧ source.screen = c.screen then
    ({ c with terminal := source.terminal }, { source with terminal := none })
  else (c, source)

instance : State (Complete T) where
  hasPrefix := false
  clone := cloneState
  diffFrom c existing := ProstMessage.encode (diffMessage c existing)
  applyString := decodeAndApply
  subtract c _ := c
  stateEqual c other := c.echoAck = other.echoAck ∧ c.screen = other.screen
  adoptFrom := adopt

end Complete

end Morsh
