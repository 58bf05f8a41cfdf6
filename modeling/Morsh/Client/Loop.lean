import Morsh.Client.Frame
import Morsh.Server.World

/-!
# The client's main loop

A turn of the loop paints, waits for a terminal event, a datagram or the clock,
acts on it, and then leaves the loop or lets the transport send. What only
reaches the notification bar is left out, and so is the hop to another port. A
missing result is a panic of the predictor.
-/

namespace Morsh

/-- Give up if the server never answers at all. -/
def CONNECT_TIMEOUT_MS : Nat := 15000

/-- What the transport reads when it looks at the time. -/
structure Timing where
  now : Nat
  timeout : Nat
  srttMs : Nat

/-- The branches of the `select!`. -/
inductive Wake where
  /-- An event, and the clock while it is applied. -/
  | term (clock : Nat → Nat) (event : TermEvent)
  /-- A datagram, with what the connection made of it. -/
  | datagram (now srttMs : Nat) (fresh : Bool) (incoming : Except String (Option Instruction))
  | timeout

structure Turn where
  waitAt : Timing
  wake : Wake
  /-- When the loop looks whether to go on. -/
  checkAt : Nat
  tickAt : Timing
  chaff : Bytes

/-- `Transport::send_interval_ms`. -/
def sendIntervalMs (srttMs : Nat) : Nat := sendInterval srttMs / ms 1

namespace Client

variable {T : Type} [Emulator T] [ProstMessage HostMessage] [ProstMessage UserMessage]

/-- Judge the predictions by the server's latest state. -/
def judge (c : Client T) (now srttMs : Nat) : Client T :=
  let transport := c.endpoint.transport
  let remote := transport.receiver.receivedStates.last.state
  let prediction :=
    ((c.prediction.setLocalFrameAcked transport.sender.sentStateAcked).setSendInterval
      (sendIntervalMs srttMs)).setLocalFrameLateAcked remote.echoAck
  let screen := remote.screen
  { c with
    prediction := prediction.validatePredictions now screen.charAt screen.cursorY screen.cursorX }

def receive (c : Client T) (now srttMs : Nat) (fresh : Bool)
    (incoming : Except String (Option Instruction)) : Client T :=
  let received := { c with endpoint := c.endpoint.recv now fresh incoming }
  match (c.endpoint.transport.processDatagram now fresh incoming).2 with
  | .ok _ => received.judge now srttMs
  | .error _ => received

/-- Act on what the loop was woken by, and whether to exit at once. -/
def wake (c : Client T) : Wake → Option (Client T × Bool)
  | .term clock event => c.handleTermEvent clock event
  | .datagram now srttMs fresh incoming => some (c.receive now srttMs fresh incoming, false)
  | .timeout => some (c, false)

end Client

/-- The loop between two turns. -/
structure MainLoop (T : Type) where
  client : Client T
  started : Nat
  /-- The loop has been left. -/
  left : Bool

namespace MainLoop

variable {T : Type} [Emulator T] [ProstMessage HostMessage] [ProstMessage UserMessage]

/-- Where `main` enters the loop, on a terminal of that size; `screen` is the
blank state of that size. -/
def start (now cols rows srttMs : Nat) (screen : Complete T) (pref : DisplayPreference) :
    MainLoop T where
  client :=
    { endpoint := .start now ⟨true, now, 0⟩ (World.firstStream cols rows) screen
      prediction := ((PredictionEngine.new now).setDisplayPreference pref).setSendInterval
        (sendIntervalMs srttMs)
      localFramebuffer := screen.screen }
  started := now
  left := false

/-- Whether a turn ends the loop: our shutdown is over, the server has shut
down, or it never answered. -/
def leaves (s : MainLoop T) (now : Nat) : Bool :=
  let transport := s.client.endpoint.transport
  let sender := transport.sender
  (sender.shutdownInProgress && (sender.shutdownAcknowledged || sender.shutdownAckTimedOut now)) ||
    transport.counterpartyShutdownAckSent ||
    (transport.getRemoteStateNum == 0 && now - s.started > ms CONNECT_TIMEOUT_MS &&
      !sender.shutdownInProgress)

/-- The client once it has painted and begun to wait. -/
def waiting (s : MainLoop T) (at_ : Timing) : Client T :=
  let c := s.client.outputNewFrame.1
  { c with endpoint := c.endpoint.waitTime at_.now at_.timeout at_.srttMs }

def turn (s : MainLoop T) (t : Turn) : Option (MainLoop T) :=
  if s.left then some s
  else
    ((s.waiting t.waitAt).wake t.wake).map fun (c, exit) =>
      let s := { s with client := c }
      if exit || s.leaves t.checkAt then { s with left := true }
      else
        let endpoint := c.endpoint.tick t.tickAt.now t.tickAt.timeout t.tickAt.srttMs t.chaff
        { s with client := { c with endpoint := endpoint } }

end MainLoop

end Morsh
