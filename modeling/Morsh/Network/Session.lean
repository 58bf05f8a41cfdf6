import Morsh.Network.Channel

/-!
# Two transports

An `Endpoint` is a `Transport` with the record of what its sender put on the
network, what it processed and what it handed out. A `Session` is two of them,
each reading what the other has sent; as in a channel, an instruction stays on
the network for good and arrives when, as often and in whatever order the
schedule says, or never.
-/

namespace Morsh

structure Endpoint (M R E : Type) where
  /-- The last reading of this side's clock. -/
  clock : Nat
  transport : Transport M R
  /-- Every instruction sent, oldest first. -/
  sent : List Instruction
  edits : List E
  uses : List (Use E M)
  /-- Every instruction processed, oldest first. -/
  processed : List Instruction
  /-- The results of `get_remote_diff`, oldest first. -/
  handed : List Bytes

inductive EndpointOp (E : Type) where
  | edit (e : E)
  | tick (now : Reading) (timeout srttMs : Nat) (chaff : Bytes)
  | waitTime (now : Reading) (timeout srttMs : Nat)
  | startShutdown (now : Nat)
  /-- A datagram: fresh or not, and the instruction it completes, if any. -/
  | datagram (now : Nat) (fresh : Bool) (index : Option Nat)
  | getRemoteDiff

namespace Endpoint

variable {M R E : Type} [State M] [State R]

def start (now : Nat) (connection : Connection) (init : M) (remoteInit : R) :
    Endpoint M R E where
  clock := now
  transport := .new connection now init remoteInit
  sent := []
  edits := []
  uses := [⟨0, [], init⟩]
  processed := []
  handed := []

/-- A mutation through `get_current_state_mut`. -/
def edit (act : M → E → M) (x : Endpoint M R E) (e : E) : Endpoint M R E :=
  { x with
    transport := { x.transport with
      sender := x.transport.sender.setCurrentState (act x.transport.sender.currentState e) }
    edits := x.edits ++ [e] }

def tick (x : Endpoint M R E) (now timeout srttMs : Nat) (chaff : Bytes) : Endpoint M R E :=
  let ticked := x.transport.tick now timeout srttMs chaff
  { x with
    clock := now
    transport := ticked.1
    sent := x.sent ++ ticked.2.toList
    uses := noteSent x.uses x.edits (ticked.1.sender, ticked.2) }

def waitTime (x : Endpoint M R E) (now timeout srttMs : Nat) : Endpoint M R E :=
  { x with clock := now, transport := (x.transport.waitTimeMs now timeout srttMs).1 }

def startShutdown (x : Endpoint M R E) (now : Nat) : Endpoint M R E :=
  { x with
    transport := { x.transport with sender := x.transport.sender.startShutdown now } }

/-- `recv`, with what the connection made of the datagram. -/
def recv (x : Endpoint M R E) (now : Nat) (fresh : Bool)
    (incoming : Except String (Option Instruction)) : Endpoint M R E :=
  { x with
    transport := (x.transport.processDatagram now fresh incoming).1
    processed := match incoming with
      | .ok (some inst) => x.processed ++ [inst]
      | _ => x.processed }

def getRemoteDiff (x : Endpoint M R E) : Endpoint M R E × Bytes :=
  let (transport, diff) := x.transport.getRemoteDiff
  ({ x with transport := transport, handed := x.handed ++ [diff] }, diff)

/-- One operation; `incoming` is what the peer has sent. `none` where the
operation is not allowed: an edit once shutdown has begun, a clock that runs
backwards, an instruction that was never sent. -/
def step (act : M → E → M) (incoming : List Instruction) (x : Endpoint M R E) :
    EndpointOp E → Option (Endpoint M R E)
  | .edit e => if x.transport.sender.shutdownInProgress then none else some (x.edit act e)
  | .tick now timeout srttMs chaff =>
      if now.val < x.clock then none else some (x.tick now.val timeout srttMs chaff)
  | .waitTime now timeout srttMs =>
      if now.val < x.clock then none else some (x.waitTime now.val timeout srttMs)
  | .startShutdown now => some (x.startShutdown now)
  | .datagram now fresh none => some (x.recv now fresh (.ok none))
  | .datagram now fresh (some index) =>
      match incoming[index]? with
      | none => none
      | some inst => some (x.recv now fresh (.ok (some inst)))
  | .getRemoteDiff => some x.getRemoteDiff.1

end Endpoint

structure Session (M R E F : Type) where
  left : Endpoint M R E
  right : Endpoint R M F

inductive SessionOp (E F : Type) where
  | left (op : EndpointOp E)
  | right (op : EndpointOp F)

namespace Session

variable {M R E F : Type} [State M] [State R]

def step (actLeft : M → E → M) (actRight : R → F → R) (s : Session M R E F) :
    SessionOp E F → Option (Session M R E F)
  | .left op => (s.left.step actLeft s.right.sent op).map fun x => { s with left := x }
  | .right op => (s.right.step actRight s.left.sent op).map fun y => { s with right := y }

end Session

end Morsh
