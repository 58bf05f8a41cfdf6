import Morsh.Crypto.Session
import Morsh.Network.Fragment
import Morsh.Network.Rtt

/-!
# The encrypted UDP connection

The whole of `Connection`: sealing fragments under a sequence number, opening
datagrams, the sequence check behind address and timing, and port hopping.
`Transport` sees of it only what the record of the same name in the protocol
layer holds. What the operating system contributes to a call is an argument of
it: the clocks, what `send_to` and `bind` answer, and the address a datagram
came from.

The sequence counter and the block counter are `u64`s; both stay below 2^48,
so their additions are plain ones.
-/

namespace Morsh

def MTU_IPV4 : Nat := 1252
def MAX_PORTS_OPEN : Nat := 10

/-- Largest datagram that is read. -/
def RECEIVE_MTU : Nat := 2048

/-- `ADDED_BYTES` of the datagram: eight bytes of nonce, four of timestamps. -/
def ADDED_BYTES : Nat := 12

def maxFragmentPayload (mtu : Nat) : Nat :=
  mtu - (ADDED_BYTES + Crypto.SESSION_ADDED_BYTES + FRAG_HEADER_LEN)

/-- Direction bit in the nonce: set from server to client. -/
def TO_CLIENT_BIT : Nat := 2 ^ 63

/-- The timestamp field's "none". -/
def NO_TIMESTAMP : Nat := 0xFFFF

/-- What a call reads off the clocks: milliseconds since the epoch, and
`Instant::now()`. -/
structure Clocks where
  sinceEpochMs : Nat
  now : Nat
  deriving DecidableEq, Repr

/-- Milliseconds as a 16-bit value, never 0xFFFF. -/
def timestamp16 (sinceEpochMs : Nat) : Nat :=
  let ts := sinceEpochMs % 2 ^ 64 % 65536
  if ts = NO_TIMESTAMP then 0 else ts

/-- The difference of two `u16`s as an `i16`. -/
def timestampDiff (a b : Nat) : Int := Int.bmod (a - b) (2 ^ 16)

structure UdpConnection (Cipher Addr : Type) where
  /-- The local addresses of the open sockets. -/
  sockets : List Addr
  remoteAddr : Option Addr
  session : Crypto.Session Cipher
  rtt : RttEstimator
  fragger : Fragmenter
  assembler : FragmentAssembly
  lastPortChoice : Nat
  lastRoundtripSuccess : Nat
  server : Bool
  hasRemoteAddr : Bool
  lastHeard : Nat
  sendSeq : Nat
  /-- Lowest sequence number still treated as fresh. -/
  expectedReceiverSeq : Nat
  savedTimestamp : Nat
  savedTimestampReceivedAt : Nat
  deriving DecidableEq, Repr

/-- What a datagram says once it is opened. -/
structure Packet where
  seq : Nat
  timestamp : Nat
  timestampReply : Nat
  frag : Fragment
  deriving DecidableEq, Repr

/-- The only RTT measurement: how long ago the peer echoed back a timestamp of
ours, kept signed across the 16-bit rollover. -/
def rttSample (sinceEpochMs timestampReply : Nat) : Option Nat :=
  if timestampReply = NO_TIMESTAMP then none
  else
    let rtt := timestampDiff (timestamp16 sinceEpochMs) timestampReply
    if 0 < rtt ∧ rtt < 5000 then some rtt.toNat else none

/-- What `send` did: the datagrams it sealed, whether or not the socket took
them, and its result. A missing result is a panic. -/
structure SendOutcome (Cipher Addr : Type) where
  connection : UdpConnection Cipher Addr
  produced : List Bytes
  result : Option (Except String Unit)

namespace UdpConnection

variable {Cipher Addr : Type}

def build (socket : Addr) (session : Crypto.Session Cipher) (server : Bool) (now : Nat) :
    UdpConnection Cipher Addr where
  sockets := [socket]
  remoteAddr := none
  session := session
  rtt := .new
  fragger := .new
  assembler := .new
  lastPortChoice := now
  lastRoundtripSuccess := now
  server := server
  hasRemoteAddr := false
  lastHeard := now
  sendSeq := 0
  expectedReceiverSeq := 0
  savedTimestamp := 0
  savedTimestampReceivedAt := now

def setRemoteAddr (c : UdpConnection Cipher Addr) (addr : Addr) : UdpConnection Cipher Addr :=
  { c with remoteAddr := some addr, hasRemoteAddr := true }

def setLastRoundtripSuccess (c : UdpConnection Cipher Addr) (when_ : Nat) :
    UdpConnection Cipher Addr :=
  { c with lastRoundtripSuccess := when_ }

def recordRtt (c : UdpConnection Cipher Addr) (rttMs : Nat) : UdpConnection Cipher Addr :=
  { c with rtt := c.rtt.update rttMs }

/-- The oldest sockets go first. -/
def pruneSockets (c : UdpConnection Cipher Addr) : UdpConnection Cipher Addr :=
  { c with sockets := c.sockets.drop (c.sockets.length - MAX_PORTS_OPEN) }

/-- `socket` is what binding a new one answered. -/
def hopPort (c : UdpConnection Cipher Addr) (socket : Except String Addr) (now : Nat) :
    UdpConnection Cipher Addr × Except String Unit :=
  match socket with
  | .error e => (c, .error e)
  | .ok addr =>
      ({ { c with sockets := c.sockets ++ [addr] }.pruneSockets with lastPortChoice := now },
        .ok ())

/-- Smoothed round-trip time in milliseconds. -/
def srttMs (c : UdpConnection Cipher Addr) : Nat := c.rtt.srttMs

/-- The retransmission timeout. -/
def timeout (c : UdpConnection Cipher Addr) : Nat := ms c.rtt.rtoMs

/-- `arrived` is what `recv_from` answered on the socket that was ready first; a
datagram is cut off at the end of the buffer. -/
def recvRaw (c : UdpConnection Cipher Addr) (arrived : Except String (Bytes × Addr)) :
    Except String (Bytes × Addr) :=
  if c.sockets.isEmpty then .error "No sockets open"
  else
    match arrived with
    | .error e => .error s!"Recv error: {e}"
    | .ok (data, peer) => .ok (data.take RECEIVE_MTU, peer)

/-- The saved timestamp, advanced by how long it was held, while it is less than
a second old. -/
def timestampReply (c : UdpConnection Cipher Addr) (now : Nat) : Nat :=
  let elapsedMs := (now - c.savedTimestampReceivedAt) / 1000000
  if elapsedMs < 1000 ∧ c.savedTimestamp ≠ 0 then
    (c.savedTimestamp + elapsedMs % 2 ^ 16) % 2 ^ 16
  else NO_TIMESTAMP

/-- The nonce value of the next packet. -/
def nonceVal (c : UdpConnection Cipher Addr) : Nat :=
  if c.server then TO_CLIENT_BIT ||| c.sendSeq else c.sendSeq

/-- Two timestamps, then the fragment. -/
def plaintext (c : UdpConnection Cipher Addr) (clocks : Clocks) (frag : Fragment) : Bytes :=
  BigEndian.encode 2 (timestamp16 clocks.sinceEpochMs)
    ++ BigEndian.encode 2 (c.timestampReply clocks.now) ++ frag.toBytes

section Crypto

variable [Crypto.Ocb3 Cipher]

/-- The part of `process_incoming` before the sequence check, which changes
nothing: decrypt, check the direction, parse. -/
def openPacket (c : UdpConnection Cipher Addr) (data : Bytes) : Except String Packet :=
  match c.session.decrypt data with
  | .error e => .error s!"Decryption error: {e}"
  | .ok msg =>
      let nonceVal := msg.nonce.val
      let toClient := nonceVal &&& TO_CLIENT_BIT != 0
      if toClient = c.server then
        let us := if c.server then "server" else "client"
        .error s!"Wrong packet direction (to_client={toClient}, we are {us})"
      else if msg.text.length < 4 then .error s!"Message too short: {msg.text.length} bytes"
      else
        match Fragment.fromBytes (msg.text.drop 4) with
        | .error e => .error e
        | .ok frag =>
            .ok {
              -- `nonce_val & !TO_CLIENT_BIT`
              seq := nonceVal % TO_CLIENT_BIT
              timestamp := BigEndian.decode (msg.text.take 2)
              timestampReply := BigEndian.decode ((msg.text.drop 2).take 2)
              frag := frag }

/-- What a fresh packet does before it reaches the assembler. `Instant::now()`
is read twice, the second time at `heardAt`. -/
def freshen (c : UdpConnection Cipher Addr) (p : Packet) (peer : Addr) (clocks : Clocks)
    (heardAt : Nat) : UdpConnection Cipher Addr :=
  let c := { c with expectedReceiverSeq := p.seq + 1 }
  let c :=
    if p.timestamp ≠ NO_TIMESTAMP then
      { c with savedTimestamp := p.timestamp, savedTimestampReceivedAt := clocks.now }
    else c
  let c :=
    match rttSample clocks.sinceEpochMs p.timestampReply with
    | some rtt => c.recordRtt rtt
    | none => c
  let c := { c with lastHeard := heardAt, hasRemoteAddr := true }
  -- roaming: only the client roams, so only the server re-targets
  if c.server then { c with remoteAddr := some peer } else c

section Incoming

variable [Zlib] [ProstMessage Instruction]

def addFragment (c : UdpConnection Cipher Addr) (frag : Fragment) :
    UdpConnection Cipher Addr × Except String (Option Instruction) :=
  let (assembler, result) := c.assembler.addFragment frag
  ({ c with assembler := assembler }, result)

/-- Decrypt, validate and reassemble one datagram. A packet out of order is
still delivered, but not used for timing or targeting. -/
def processIncoming (c : UdpConnection Cipher Addr) (data : Bytes) (peer : Addr)
    (clocks : Clocks) (heardAt : Nat) :
    UdpConnection Cipher Addr × Except String (Option Instruction) :=
  match c.openPacket data with
  | .error e => (c, .error e)
  | .ok p =>
      if p.seq < c.expectedReceiverSeq then c.addFragment p.frag
      else (c.freshen p peer clocks heardAt).addFragment p.frag

end Incoming

/-- Seal one fragment. The sequence number is spent before the session is asked,
so a panic there leaves it spent. -/
def encryptFragment (c : UdpConnection Cipher Addr) (clocks : Clocks) (frag : Fragment) :
    UdpConnection Cipher Addr × Option Bytes :=
  let msg : Crypto.Message := ⟨.fromVal c.nonceVal, c.plaintext clocks frag⟩
  let (session, wire) := c.session.encrypt msg
  ({ c with sendSeq := c.sendSeq + 1, session := session }, wire)

/-- The loop of `send`. `os i` is what the `i`-th round reads off the clocks and
what `send_to` answers there. -/
def sendFragments (c : UdpConnection Cipher Addr) (os : Nat → Clocks × Except String Unit) :
    List Fragment → SendOutcome Cipher Addr
  | [] => ⟨c, [], some (.ok ())⟩
  | frag :: frags =>
      match c.encryptFragment (os 0).1 frag with
      | (c, none) => ⟨c, [], none⟩
      | (c, some wire) =>
          match (os 0).2 with
          | .error e => ⟨c, [wire], some (.error s!"Send error: {e}")⟩
          | .ok () =>
              let out := c.sendFragments (fun i => os (i + 1)) frags
              { out with produced := wire :: out.produced }

variable [Zlib] [ProstMessage Instruction]

/-- Send an instruction to the remote. -/
def send (c : UdpConnection Cipher Addr) (os : Nat → Clocks × Except String Unit)
    (inst : Instruction) : SendOutcome Cipher Addr :=
  match c.remoteAddr with
  | none => ⟨c, [], some (.error "No remote address")⟩
  | some _ =>
      match c.fragger.makeFragments inst (maxFragmentPayload MTU_IPV4) with
      | none => ⟨c, [], none⟩
      | some (fragger, .error e) => ⟨{ c with fragger := fragger }, [], some (.error e)⟩
      | some (fragger, .ok frags) => { c with fragger := fragger }.sendFragments os frags

end Crypto

end UdpConnection

end Morsh
