import Morsh.Lib.Run
import Morsh.Network.Connection

/-!
# Two ends of one key

The runs of a client's and a server's `Connection` that share a session key.
Either owner calls anything in any order, with any answer from the operating
system; a datagram handed to `process_incoming` may be any bytes. The datagrams
an end has sealed are recorded, and no call reads the record. A panic ends its
side.
-/

namespace Morsh

/-- One side: its connection and what it has sealed, oldest first. -/
structure ConnectionEnd (Cipher Addr : Type) where
  connection : UdpConnection Cipher Addr
  produced : List Bytes
  panicked : Bool

inductive ConnectionOp (Addr : Type) where
  | encryptFragment (clocks : Clocks) (frag : Fragment)
  | send (os : Nat → Clocks × Except String Unit) (inst : Instruction)
  | processIncoming (data : Bytes) (peer : Addr) (clocks : Clocks) (heardAt : Nat)
  | hopPort (socket : Except String Addr) (now : Nat)
  | setRemoteAddr (addr : Addr)
  | setLastRoundtripSuccess (time : Nat)
  | recordRtt (rttMs : Nat)

/-- A datagram handed to `process_incoming`, with what the call reads off the
clocks. -/
structure Arrival (Addr : Type) where
  data : Bytes
  peer : Addr
  clocks : Clocks
  heardAt : Nat
  deriving DecidableEq, Repr

inductive Side where
  | client
  | server
  deriving DecidableEq, Repr

structure ConnectionPair (Cipher Addr : Type) where
  client : ConnectionEnd Cipher Addr
  server : ConnectionEnd Cipher Addr

variable {Cipher Addr : Type} [Crypto.Ocb3 Cipher] [Zlib] [ProstMessage Instruction]

namespace UdpConnection

def deliver (c : UdpConnection Cipher Addr) (a : Arrival Addr) : UdpConnection Cipher Addr :=
  (c.processIncoming a.data a.peer a.clocks a.heardAt).1

def deliverAll (c : UdpConnection Cipher Addr) (arrivals : List (Arrival Addr)) :
    UdpConnection Cipher Addr :=
  arrivals.foldl deliver c

end UdpConnection

namespace ConnectionEnd

/-- The call itself. -/
def perform (e : ConnectionEnd Cipher Addr) : ConnectionOp Addr → ConnectionEnd Cipher Addr
  | .encryptFragment clocks frag =>
      let (connection, wire) := e.connection.encryptFragment clocks frag
      ⟨connection, e.produced ++ wire.toList, wire.isNone⟩
  | .send os inst =>
      let out := e.connection.send os inst
      ⟨out.connection, e.produced ++ out.produced, out.result.isNone⟩
  | .processIncoming data peer clocks heardAt =>
      { e with connection := (e.connection.processIncoming data peer clocks heardAt).1 }
  | .hopPort socket now => { e with connection := (e.connection.hopPort socket now).1 }
  | .setRemoteAddr addr => { e with connection := e.connection.setRemoteAddr addr }
  | .setLastRoundtripSuccess time =>
      { e with connection := e.connection.setLastRoundtripSuccess time }
  | .recordRtt rttMs => { e with connection := e.connection.recordRtt rttMs }

def step (e : ConnectionEnd Cipher Addr) (op : ConnectionOp Addr) :
    Option (ConnectionEnd Cipher Addr) :=
  if e.panicked then none else some (e.perform op)

end ConnectionEnd

namespace ConnectionPair

/-- Both ends as they are built from `key`. -/
def start (key : Bytes) (clientSocket serverSocket : Addr) (now : Nat) :
    ConnectionPair Cipher Addr where
  client := ⟨.build clientSocket (.new key) false now, [], false⟩
  server := ⟨.build serverSocket (.new key) true now, [], false⟩

def step (p : ConnectionPair Cipher Addr) :
    Side × ConnectionOp Addr → Option (ConnectionPair Cipher Addr)
  | (.client, op) => (p.client.step op).map fun e => { p with client := e }
  | (.server, op) => (p.server.step op).map fun e => { p with server := e }

end ConnectionPair

end Morsh
