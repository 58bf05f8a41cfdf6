import Morsh.Network.ConnectionRun
import Morsh.Network.Session

/-!
# The whole stack

`Transport` over its real `Connection`: what a tick decides is compressed, cut,
sealed and sent, and what a datagram is opened, put together and decoded to is
processed. A `Stack` is a client and a server of one key. The network between
them belongs to an attacker, who loses, repeats, reorders, redirects and cuts
off what was sealed and makes up what was not; all that is asked is that
nothing opens under the key which neither end has sealed.
-/

namespace Morsh

/-- `Transport`, with the connection it runs over. -/
structure UdpTransport (Cipher Addr M R : Type) where
  connection : UdpConnection Cipher Addr
  sender : TransportSender M
  receiver : Receiver R

/-- What `tick` did: the instruction it decided on, the datagrams it sealed and
its result. A missing result is a panic. -/
structure TickOutcome (Cipher Addr M R : Type) where
  transport : UdpTransport Cipher Addr M R
  emitted : Option Instruction
  produced : List Bytes
  result : Option (Except String Unit)

namespace UdpTransport

variable {Cipher Addr M R : Type} [State M] [State R]

def new (connection : UdpConnection Cipher Addr) (now : Nat) (initialState : M)
    (initialRemote : R) : UdpTransport Cipher Addr M R where
  connection := connection
  sender := .new now initialState
  receiver := .new now initialRemote

/-- The transport as the protocol layer sees it. -/
def view (t : UdpTransport Cipher Addr M R) : Transport M R where
  connection := ⟨t.connection.hasRemoteAddr, t.connection.lastRoundtripSuccess,
    t.connection.fragger.lastAckSent⟩
  sender := t.sender
  receiver := t.receiver

def waitTimeMs (t : UdpTransport Cipher Addr M R) (now : Nat) :
    UdpTransport Cipher Addr M R × Nat :=
  let (sender, wait) := t.sender.waitTimeMs now t.connection.timeout t.connection.srttMs
    t.connection.hasRemoteAddr
  ({ t with sender := sender }, wait)

def startShutdown (t : UdpTransport Cipher Addr M R) (now : Nat) : UdpTransport Cipher Addr M R :=
  { t with sender := t.sender.startShutdown now }

def getRemoteDiff (t : UdpTransport Cipher Addr M R) : UdpTransport Cipher Addr M R × Bytes :=
  let (receiver, diff) := t.receiver.getRemoteDiff
  ({ t with receiver := receiver }, diff)

def hopPort (t : UdpTransport Cipher Addr M R) (socket : Except String Addr) (now : Nat) :
    UdpTransport Cipher Addr M R × Except String Unit :=
  let (connection, result) := t.connection.hopPort socket now
  ({ t with connection := connection }, result)

def processInstruction (t : UdpTransport Cipher Addr M R) (now : Nat) (inst : Instruction) :
    UdpTransport Cipher Addr M R × Except String RecvOutcome :=
  if inst.protocolVersion ≠ some MORSH_PROTOCOL_VERSION then
    (t, .error (Transport.versionMismatch inst.protocolVersion))
  else
    let sender := t.sender.processAcknowledgmentThrough (inst.ackNum.getD 0)
    let connection := t.connection.setLastRoundtripSuccess sender.sentStateAckedTimestamp
    let diff := inst.diff.getD []
    let (receiver, outcome) := t.receiver.receive now (inst.oldNum.getD 0)
      (inst.newNum.getD 0) (inst.throwawayNum.getD 0) diff
    let sender := match outcome with
      | .ok (.newState _) =>
          let sender := (sender.setAckNum receiver.receivedStates.last.num).remoteHeard now
          if diff.isEmpty then sender else sender.setDataAck
      | _ => sender
    (⟨connection, sender, receiver⟩, outcome)

variable [Crypto.Ocb3 Cipher] [Zlib] [ProstMessage Instruction]

/-- Send a diff or an empty ack if one is due. -/
def tick (t : UdpTransport Cipher Addr M R) (now : Nat) (chaff : Bytes)
    (os : Nat → Clocks × Except String Unit) : TickOutcome Cipher Addr M R :=
  match t.sender.tick now t.connection.timeout t.connection.srttMs t.connection.hasRemoteAddr
    chaff with
  | (sender, none) => ⟨{ t with sender := sender }, none, [], some (.ok ())⟩
  | (sender, some inst) =>
      let out := t.connection.send os inst
      ⟨⟨out.connection, sender, t.receiver⟩, some inst, out.produced, out.result⟩

/-- The synchronous half of `recv`, with what the connection made of the
datagram. -/
def processDatagram (t : UdpTransport Cipher Addr M R) (now : Nat) (a : Arrival Addr) :
    UdpTransport Cipher Addr M R × Except String (Option Instruction) ×
      Except String RecvOutcome :=
  let (connection, incoming) := t.connection.processIncoming a.data a.peer a.clocks a.heardAt
  let t := { t with connection := connection }
  match incoming with
  | .error e => (t, incoming, .error e)
  | .ok none => (t, incoming, .ok .incomplete)
  | .ok (some inst) =>
      let (t, outcome) := t.processInstruction now inst
      (t, incoming, outcome)

end UdpTransport

/-- An endpoint over its real connection, with what it has sealed. -/
structure Peer (Cipher Addr M R E : Type) where
  /-- The last reading of this side's clock. -/
  clock : Nat
  transport : UdpTransport Cipher Addr M R
  /-- Every datagram sealed, oldest first. -/
  produced : List Bytes
  sent : List Instruction
  edits : List E
  uses : List (Use E M)
  processed : List Instruction
  handed : List Bytes
  panicked : Bool

inductive PeerOp (Addr E : Type) where
  | edit (e : E)
  | tick (now : Reading) (chaff : Bytes) (os : Nat → Clocks × Except String Unit)
  | waitTime (now : Reading)
  | startShutdown (now : Nat)
  | recv (arrived : Except String (Bytes × Addr)) (clocks : Clocks) (heardAt now : Nat)
  | getRemoteDiff
  | hopPort (socket : Except String Addr) (now : Nat)

namespace Peer

variable {Cipher Addr M R E : Type} [State M] [State R]

def start (connection : UdpConnection Cipher Addr) (now : Nat) (init : M) (remoteInit : R) :
    Peer Cipher Addr M R E where
  clock := now
  transport := .new connection now init remoteInit
  produced := []
  sent := []
  edits := []
  uses := [⟨0, [], init⟩]
  processed := []
  handed := []
  panicked := false

/-- The endpoint of the protocol layer. -/
def view (x : Peer Cipher Addr M R E) : Endpoint M R E where
  clock := x.clock
  transport := x.transport.view
  sent := x.sent
  edits := x.edits
  uses := x.uses
  processed := x.processed
  handed := x.handed

def edit (act : M → E → M) (x : Peer Cipher Addr M R E) (e : E) : Peer Cipher Addr M R E :=
  { x with
    transport := { x.transport with
      sender := x.transport.sender.setCurrentState (act x.transport.sender.currentState e) }
    edits := x.edits ++ [e] }

variable [Crypto.Ocb3 Cipher] [Zlib] [ProstMessage Instruction]

def tick (x : Peer Cipher Addr M R E) (now : Nat) (chaff : Bytes)
    (os : Nat → Clocks × Except String Unit) : Peer Cipher Addr M R E :=
  let out := x.transport.tick now chaff os
  { x with
    clock := now
    transport := out.transport
    produced := x.produced ++ out.produced
    sent := x.sent ++ out.emitted.toList
    uses := noteSent x.uses x.edits (out.transport.sender, out.emitted)
    panicked := out.result.isNone }

/-- `recv`, once the datagram is off the socket. -/
def processDatagram (x : Peer Cipher Addr M R E) (now : Nat) (a : Arrival Addr) :
    Peer Cipher Addr M R E :=
  let (transport, incoming, _) := x.transport.processDatagram now a
  { x with
    transport := transport
    processed := match incoming with
      | .ok (some inst) => x.processed ++ [inst]
      | _ => x.processed }

/-- Bytes that open under the key although neither end sealed them. -/
def Forged (sealedBytes : List Bytes) (x : Peer Cipher Addr M R E) (data : Bytes) : Prop :=
  (x.transport.connection.session.decrypt data).toOption.isSome ∧ data ∉ sealedBytes

instance (sealedBytes : List Bytes) (x : Peer Cipher Addr M R E) (data : Bytes) :
    Decidable (x.Forged sealedBytes data) :=
  inferInstanceAs (Decidable (_ ∧ _))

/-- One operation; `sealedBytes` is what both ends have sealed. `none` where the
operation is not allowed: any once the side has panicked, an edit once shutdown
has begun, a clock that runs backwards, a forgery. -/
def step (act : M → E → M) (sealedBytes : List Bytes) (x : Peer Cipher Addr M R E)
    (op : PeerOp Addr E) : Option (Peer Cipher Addr M R E) :=
  if x.panicked then none
  else
    match op with
    | .edit e => if x.transport.sender.shutdownInProgress then none else some (x.edit act e)
    | .tick now chaff os =>
        if now.val < x.clock then none else some (x.tick now.val chaff os)
    | .waitTime now =>
        if now.val < x.clock then none
        else some { x with clock := now, transport := (x.transport.waitTimeMs now.val).1 }
    | .startShutdown now => some { x with transport := x.transport.startShutdown now }
    | .recv arrived clocks heardAt now =>
        match x.transport.connection.recvRaw arrived with
        | .error _ => some x
        | .ok (data, peer) =>
            if x.Forged sealedBytes data then none
            else some (x.processDatagram now ⟨data, peer, clocks, heardAt⟩)
    | .getRemoteDiff =>
        let (transport, diff) := x.transport.getRemoteDiff
        some { x with transport := transport, handed := x.handed ++ [diff] }
    | .hopPort socket now => some { x with transport := (x.transport.hopPort socket now).1 }

end Peer

/-- A client and a server of one key. -/
structure Stack (Cipher Addr M R E F : Type) where
  client : Peer Cipher Addr M R E
  server : Peer Cipher Addr R M F

inductive StackOp (Addr E F : Type) where
  | client (op : PeerOp Addr E)
  | server (op : PeerOp Addr F)

namespace Stack

variable {Cipher Addr M R E F : Type} [State M] [State R]

/-- The session of the protocol layer. -/
def view (s : Stack Cipher Addr M R E F) : Session M R E F := ⟨s.client.view, s.server.view⟩

variable [Crypto.Ocb3 Cipher]

/-- Both ends as they are built from `key`: the client knows where the server
is, and each has its own copy of the two initial states. -/
def start (key : Bytes) (clientSocket serverSocket serverAddr : Addr) (now serverNow : Nat)
    (init peerInit : M) (remoteInit remotePeerInit : R) : Stack Cipher Addr M R E F where
  client := .start ((UdpConnection.build clientSocket (.new key) false now).setRemoteAddr
    serverAddr) now init remotePeerInit
  server := .start (.build serverSocket (.new key) true serverNow) serverNow remoteInit peerInit

variable [Zlib] [ProstMessage Instruction]

def step (actClient : M → E → M) (actServer : R → F → R) (s : Stack Cipher Addr M R E F) :
    StackOp Addr E F → Option (Stack Cipher Addr M R E F)
  | .client op => (s.client.step actClient (s.client.produced ++ s.server.produced) op).map
      fun x => { s with client := x }
  | .server op => (s.server.step actServer (s.client.produced ++ s.server.produced) op).map
      fun y => { s with server := y }

end Stack

end Morsh
