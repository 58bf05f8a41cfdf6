import Morsh.Network.Session
import Morsh.Prediction.Engine
import Morsh.Statesync.Complete

/-!
# The client's input

`handle_term_event`: what a typed chunk, a resize or the quit key does to the
transport and the predictor. What it tells the notification bar is left out. A
missing result is a panic of the predictor.
-/

namespace Morsh

/-- Bulk input this long is treated as a paste and not predicted. -/
def PASTE_THRESHOLD : Nat := 100

inductive TermEvent where
  | input (bytes : Bytes)
  | resize (w h : Int32)
  | escapeHelp (shown : Bool)
  | quit
  deriving DecidableEq

/-- The first character a screen shows at a position, a blank where there is
none. -/
def ScreenSnapshot.charAt (s : ScreenSnapshot) (row col : Nat) : Char :=
  ((s.cell col row).bind (·.text.head?)).getD ' '

/-- The client's main loop between two events. -/
structure Client (T : Type) where
  endpoint : Endpoint UserStream (Complete T) UserEvent
  prediction : PredictionEngine
  /-- What we believe is on the user's screen. -/
  localFramebuffer : ScreenSnapshot

namespace Client

variable {T : Type} [Emulator T] [ProstMessage HostMessage] [ProstMessage UserMessage]

def shutdownInProgress (c : Client T) : Bool := c.endpoint.transport.sender.shutdownInProgress

/-- Predict the byte, unless it is part of a paste. -/
def predictByte (c : Client T) (paste : Bool) (now : Nat) (byte : UInt8) : Option (Client T) :=
  if paste then some c
  else
    let screen := c.localFramebuffer
    let (curRow, curCol) := c.prediction.cursorPos.getD (screen.cursorY, screen.cursorX)
    (c.prediction.newUserByte (Char.ofNat byte.toNat) curRow curCol screen.cols screen.rowsCount
      now screen.charAt).map fun prediction => { c with prediction := prediction }

def typeByte (c : Client T) (paste : Bool) (now : Nat) (byte : UInt8) : Option (Client T) :=
  (c.predictByte paste now byte).map fun c =>
    { c with endpoint := c.endpoint.edit UserStream.push (.userByte byte) }

/-- The loop over the bytes of a chunk; `clock i` is read at the `i`-th. -/
def typeBytes (paste : Bool) : (clock : Nat → Nat) → Client T → Bytes → Option (Client T)
  | _, c, [] => some c
  | clock, c, byte :: rest =>
      (c.typeByte paste (clock 0) byte).bind fun c =>
        typeBytes paste (fun i => clock (i + 1)) c rest

/-- What is done once for a chunk. -/
def startInput (c : Client T) (bytes : Bytes) : Client T :=
  let prediction := if bytes.length > PASTE_THRESHOLD then c.prediction.reset else c.prediction
  { c with
    prediction := prediction.setLocalFrameSent c.endpoint.transport.sender.sentStateLast }

/-- Apply one event, and whether the client should exit at once. -/
def handleTermEvent (c : Client T) (clock : Nat → Nat) (event : TermEvent) :
    Option (Client T × Bool) :=
  if c.shutdownInProgress then some (c, false)
  else
    match event with
    | .input bytes =>
        (typeBytes (bytes.length > PASTE_THRESHOLD) clock (c.startInput bytes) bytes).map
          fun c => (c, false)
    | .escapeHelp _ => some (c, false)
    | .resize w h =>
        some ({ c with
          endpoint := c.endpoint.edit UserStream.push (.resize w h)
          prediction := c.prediction.reset }, false)
    | .quit =>
        if c.endpoint.transport.connection.hasRemoteAddr then
          some ({ c with endpoint := c.endpoint.startShutdown (clock 0) }, false)
        else some (c, true)

end Client

end Morsh
