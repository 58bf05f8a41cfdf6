import Morsh.Network.Session
import Morsh.Server.Pty

/-!
# The server

`wait_for_client`, then the serve loop of `Handler`. One iteration of the loop
is four steps here (one branch of the `select!`, then `handle_client_input`,
`housekeeping` and the tick), so that the child, the reader thread and the
network can move in between. Writes to the pty are taken to succeed.
-/

namespace Morsh

/-- What the server does to the terminal it synchronizes. -/
inductive HostEdit where
  | act (data : Bytes)
  | resize (size : PtySize)
  | registerInputFrame (n now : Nat)
  | setEchoAck (now : Nat)
  deriving DecidableEq

/-- A failed call is logged and leaves what it leaves. -/
def HostEdit.apply {T : Type} [Emulator T] (c : Complete T) : HostEdit → Complete T
  | .act data => (c.act data).1
  | .resize size => (c.resize size.cols size.rows).1
  | .registerInputFrame n now => c.registerInputFrame n now
  | .setEchoAck now => (c.setEchoAck now).1

/-- Where the server is. -/
inductive Phase where
  | waiting
  | select
  | input
  | housekeeping
  | tick
  | stopped
  deriving DecidableEq, Repr

structure Server (T : Type) where
  phase : Phase
  endpoint : Endpoint (Complete T) UserStream HostEdit
  pty : Pty
  /-- Newest remote state already fed to the terminal. -/
  lastRemoteNum : Nat
  /-- What `wait_for_client` returned. -/
  ptySize : Option PtySize
  /-- The output of the child applied to the terminal so far. -/
  applied : Bytes

/-- The branch of the `select!` taken. -/
inductive Branch where
  | ptyEvent
  | recv (fresh : Bool) (incoming : Except String (Option Instruction))
  | sleep

inductive ServerOp where
  | pty (op : PtyOp)
  /-- A datagram while waiting for the client. -/
  | await (now : Nat) (fresh : Bool) (incoming : Except String (Option Instruction))
  | giveUp
  /-- The client's first state has arrived. -/
  | connect
  | select (now : Reading) (timeout srttMs : Nat) (branch : Branch)
  | input (now : Nat)
  | housekeeping (now : Nat)
  | tick (now : Reading) (timeout srttMs : Nat) (chaff : Bytes)

namespace Server

variable {T : Type} [Emulator T] [ProstMessage HostMessage] [ProstMessage UserMessage]

/-- `bind_transport`, with the terminal it creates. -/
def start (now : Nat) (connection : Connection) (terminal : Complete T) : Server T where
  phase := .waiting
  endpoint := .start now connection terminal .new
  pty := .spawn
  lastRemoteNum := 0
  ptySize := none
  applied := []

/-- A mutation through `get_current_state_mut`. -/
def edit (s : Server T) (e : HostEdit) : Server T :=
  { s with endpoint := s.endpoint.edit HostEdit.apply e }

def shutdownInProgress (s : Server T) : Bool :=
  s.endpoint.transport.sender.shutdownInProgress

/-- The window size a run of events asks for, from a size to start with. -/
def sizeAfter (size : PtySize) : List UserEvent → PtySize
  | [] => size
  | .userByte _ :: rest => sizeAfter size rest
  | .resize width height :: rest => sizeAfter (.ofResize width height) rest

/-- The end of `wait_for_client` and the set-up after it. A malformed first
state counts as no events. -/
def connect (s : Server T) : Server T :=
  let (endpoint, diff) := s.endpoint.getRemoteDiff
  let size := match UserStream.eventsOf diff with
    | .ok events => sizeAfter .initial events
    | .error _ => .initial
  let resized := endpoint.transport.sender.currentState.resize size.cols size.rows
  let s := { s with endpoint := endpoint, ptySize := some size }
  match resized.2 with
  | .error _ => { s with phase := .stopped }
  | .ok () =>
      { s.edit (.resize size) with
        phase := .select
        lastRemoteNum := endpoint.transport.getRemoteStateNum }

def handlePtyEvent (s : Server T) (now : Nat) : PtyEvent → Server T
  | .output data =>
      if s.shutdownInProgress then s
      else
        { s.edit (.act data) with
          applied := match (s.endpoint.transport.sender.currentState.act data).2 with
            | .ok () => s.applied ++ data
            | .error _ => s.applied }
  -- the final screen goes out with the shutdown packet
  | .exited _ => { s with endpoint := s.endpoint.startShutdown now }

/-- Write and drain pending keystrokes as a single pty write. -/
def writeKeys (s : Server T) (keys : Bytes) : Server T :=
  if keys = [] then s
  else { s with pty := { s.pty with actions := s.pty.actions ++ [.write keys] } }

def applyResize (s : Server T) (width height : Int32) : Server T :=
  let size := PtySize.ofResize width height
  let s := { s with pty := { s.pty with actions := s.pty.actions ++ [.resize size] } }
  if s.shutdownInProgress then s else s.edit (.resize size)

/-- The loop over the events of one diff, with the keystrokes pending. -/
def feedEvents (s : Server T) (keys : Bytes) : List UserEvent → Server T × Bytes
  | [] => (s, keys)
  | .userByte byte :: rest => feedEvents s (keys ++ [byte]) rest
  | .resize width height :: rest =>
      match rest with
      -- only the last of a run of resizes
      | .resize _ _ :: _ => feedEvents s keys rest
      | _ => feedEvents ((s.writeKeys keys).applyResize width height) [] rest

/-- Feed any newly received user input to the terminal and the child. -/
def handleClientInput (s : Server T) (now : Nat) : Server T :=
  let remoteNum := s.endpoint.transport.getRemoteStateNum
  if remoteNum = s.lastRemoteNum then s
  else
    let (endpoint, diff) := s.endpoint.getRemoteDiff
    let s := { s with endpoint := endpoint, lastRemoteNum := remoteNum }
    match UserStream.eventsOf diff with
    | .error _ => s
    | .ok events =>
        let (s, keys) := s.feedEvents [] events
        let s := s.writeKeys keys
        if !events.isEmpty && !s.shutdownInProgress then
          s.edit (.registerInputFrame remoteNum now)
        else s

/-- Where `housekeeping` asks the child whether it has exited. -/
def tryWait (s : Server T) (now : Nat) : Server T :=
  if s.pty.exited then { s with endpoint := s.endpoint.startShutdown now } else s

/-- `housekeeping`, and whether it ends the loop. -/
def housekeep (s : Server T) (now : Nat) : Server T × Bool :=
  let s := s.tryWait now
  if s.shutdownInProgress then
    (s, s.endpoint.transport.sender.shutdownAcknowledged
      || s.endpoint.transport.sender.shutdownAckTimedOut now
      || s.endpoint.transport.counterpartyShutdownAckSent)
  else
    let s := s.edit (.setEchoAck now)
    (s, s.endpoint.transport.counterpartyShutdownAckSent)

/-- One branch of the `select!`; the pty's is only taken while the channel
holds an event. -/
def takeBranch (s : Server T) (now : Nat) : Branch → Option (Server T)
  | .ptyEvent =>
      match s.pty.rx with
      | [] => none
      | event :: rest => some ({ s with pty := { s.pty with rx := rest } }.handlePtyEvent now event)
  | .recv fresh incoming => some { s with endpoint := s.endpoint.recv now fresh incoming }
  | .sleep => some s

/-- One step of the server, of its child or of the reader thread. -/
def step (s : Server T) : ServerOp → Option (Server T)
  | .pty op =>
      if s.phase = .waiting then none
      else (s.pty.step op).map fun pty => { s with pty := pty }
  | .await now fresh incoming =>
      if s.phase = .waiting ∧ s.endpoint.transport.getRemoteStateNum = 0 then
        some { s with endpoint := s.endpoint.recv now fresh incoming }
      else none
  | .giveUp => if s.phase = .waiting then some { s with phase := .stopped } else none
  | .connect =>
      if s.phase = .waiting ∧ s.endpoint.transport.getRemoteStateNum ≠ 0 then some s.connect
      else none
  | .select now timeout srttMs branch =>
      if s.phase = .select ∧ s.endpoint.clock ≤ now.val then
        let s := { s with endpoint := s.endpoint.waitTime now.val timeout srttMs }
        (s.takeBranch now.val branch).map fun s => { s with phase := Phase.input }
      else none
  | .input now =>
      if s.phase = .input then some { s.handleClientInput now with phase := .housekeeping }
      else none
  | .housekeeping now =>
      if s.phase = .housekeeping then
        let (s, stop) := s.housekeep now
        some { s with phase := if stop then .stopped else .tick }
      else none
  | .tick now timeout srttMs chaff =>
      if s.phase = .tick ∧ s.endpoint.clock ≤ now.val then
        some { s with endpoint := s.endpoint.tick now.val timeout srttMs chaff, phase := .select }
      else none

/-- The instruction an operation brings in. -/
def incoming : ServerOp → Option Instruction
  | .await _ _ (.ok inst) => inst
  | .select _ _ _ (.recv _ (.ok inst)) => inst
  | _ => none

end Server

end Morsh
