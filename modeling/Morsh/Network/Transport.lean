import Morsh.Network.Sender

/-!
# Both halves of the protocol

`Transport`: the sender, the history of received states and what the
connection contributes to either. A function that mutates the transport and can
also fail returns the transport it leaves behind next to its result, since an
error does not undo what was done before it.
-/

namespace Morsh

open State

/-- The fields of `Connection` the protocol layer reads and writes. -/
structure Connection where
  hasRemoteAddr : Bool
  lastRoundtripSuccess : Nat
  /-- `fragger.last_ack_sent()`. -/
  fragmenterLastAckSent : Nat
  deriving DecidableEq, Repr

/-- What `Transport::recv` did with a datagram. -/
inductive RecvOutcome where
  | incomplete
  | ignored
  | outOfOrderState (num : Nat)
  | newState (num : Nat)
  deriving DecidableEq, Repr

/-- The receiving half: its history, and the state last handed out. -/
structure Receiver (R : Type) where
  receivedStates : History R
  receiverQuenchTimer : Option Nat
  lastReceiverState : R

structure Transport (M R : Type) where
  connection : Connection
  sender : TransportSender M
  receiver : Receiver R

namespace Receiver

variable {R : Type} [State R]

def new (now : Nat) (initialRemote : R) : Receiver R where
  receivedStates := .single ⟨now, 0, clone initialRemote⟩
  receiverQuenchTimer := none
  lastReceiverState := initialRemote

/-- Drop what the peer no longer needs us to keep. The cutoff is clamped to the
newest state held, so the history is never emptied. -/
def processThrowawayUntil (r : Receiver R) (throwawayNum : Nat) : Receiver R :=
  { r with
    receivedStates :=
      r.receivedStates.retainFrom (min throwawayNum r.receivedStates.last.num) }

/-- Whether the queue is over its cap and still inside a quench period. -/
def quenched (r : Receiver R) (now : Nat) : Bool :=
  r.receivedStates.length > RECEIVED_STATES_MAX
    && r.receiverQuenchTimer.any fun until_ => now < until_

/-- Start a quench period when the queue is over its cap. -/
def armQuench (r : Receiver R) (now : Nat) : Receiver R :=
  if r.receivedStates.length > RECEIVED_STATES_MAX then
    { r with receiverQuenchTimer := some (now + ms RECEIVER_QUENCH_MS) }
  else r

/-- File a state in numeric order. -/
def file (r : Receiver R) (e : TimestampedState R) : Receiver R × RecvOutcome :=
  match r.receivedStates.entries.findIdx? fun s => s.num > e.num with
  | some pos =>
      ({ r with receivedStates := r.receivedStates.insert pos e }, .outOfOrderState e.num)
  | none => ({ r with receivedStates := r.receivedStates.push e }, .newState e.num)

/-- The part of `process_instruction` that touches the received history. -/
def receive (r : Receiver R) (now : Nat) (oldNum newNum throwawayNum : Nat)
    (diff : Bytes) : Receiver R × Except String RecvOutcome :=
  if r.receivedStates.holds newNum then (r, .ok .ignored)
  else if !r.receivedStates.holds oldNum then (r, .ok .ignored)
  else
    let r := r.processThrowawayUntil throwawayNum
    match r.receivedStates.position oldNum with
    | none => (r, .ok .ignored)
    | some referenceIndex =>
        if r.quenched now then (r, .ok .ignored)
        else
          let r := r.armQuench now
          let reference := (r.receivedStates.get referenceIndex).state
          let (copy, source) := adoptFrom (clone reference) reference
          let r := { r with receivedStates := r.receivedStates.setState referenceIndex source }
          match if diff.isEmpty then .ok copy else applyString copy diff with
          | .error e => (r, .error e)
          | .ok state =>
              let (r, outcome) := r.file ⟨now, newNum, state⟩
              (r, .ok outcome)

/-- The bytes by which the newest remote state extends the one last handed out;
then the history is rationalized. -/
def getRemoteDiff (r : Receiver R) : Receiver R × Bytes :=
  let ret := diffFrom r.receivedStates.last.state r.lastReceiverState
  let received := if hasPrefix R then
      let oldest := clone r.receivedStates.first.state
      r.receivedStates.mapState fun s => subtract s oldest
    else r.receivedStates
  ({ r with receivedStates := received, lastReceiverState := clone received.last.state }, ret)

def getRemoteStateNum (r : Receiver R) : Nat := r.receivedStates.last.num

end Receiver

namespace Transport

variable {M R : Type} [State M] [State R]

def new (connection : Connection) (now : Nat) (initialState : M)
    (initialRemote : R) : Transport M R where
  connection := connection
  sender := .new now initialState
  receiver := .new now initialRemote

/-- `Transport::tick`: the sender's decision, and the fragmenter's note of the
ack number it carried. -/
def tick (t : Transport M R) (now : Nat) (timeout srttMs : Nat) (chaff : Bytes) :
    Transport M R × Option Instruction :=
  let (sender, inst) := t.sender.tick now timeout srttMs t.connection.hasRemoteAddr chaff
  ({ t with
      sender := sender
      connection := match inst with
        | some i => { t.connection with fragmenterLastAckSent := i.ackNum.getD 0 }
        | none => t.connection }, inst)

def waitTimeMs (t : Transport M R) (now : Nat) (timeout srttMs : Nat) :
    Transport M R × Nat :=
  let (sender, wait) := t.sender.waitTimeMs now timeout srttMs t.connection.hasRemoteAddr
  ({ t with sender := sender }, wait)

def versionMismatch (got : Option Nat) : String :=
  let shown := match got with
    | some v => s!"Some({v})"
    | none => "None"
  s!"mosh protocol version mismatch (got {shown}, expected {MORSH_PROTOCOL_VERSION})"

def processInstruction (t : Transport M R) (now : Nat) (inst : Instruction) :
    Transport M R × Except String RecvOutcome :=
  if inst.protocolVersion ≠ some MORSH_PROTOCOL_VERSION then
    (t, .error (versionMismatch inst.protocolVersion))
  else
    let sender := t.sender.processAcknowledgmentThrough (inst.ackNum.getD 0)
    let diff := inst.diff.getD []
    let (receiver, outcome) := t.receiver.receive now (inst.oldNum.getD 0)
      (inst.newNum.getD 0) (inst.throwawayNum.getD 0) diff
    let sender := match outcome with
      | .ok (.newState _) =>
          let sender := (sender.setAckNum receiver.receivedStates.last.num).remoteHeard now
          if diff.isEmpty then sender else sender.setDataAck
      | _ => sender
    ({ connection := { t.connection with
          lastRoundtripSuccess :=
            (t.sender.processAcknowledgmentThrough
              (inst.ackNum.getD 0)).sentStateAckedTimestamp }
       sender := sender
       receiver := receiver }, outcome)

/-- `process_datagram`, given what `Connection::process_incoming` made of the
datagram: whether it was fresh enough to attach the peer, and the instruction
it completed, if any. -/
def processDatagram (t : Transport M R) (now : Nat) (fresh : Bool)
    (incoming : Except String (Option Instruction)) :
    Transport M R × Except String RecvOutcome :=
  let t := if fresh then
      { t with connection := { t.connection with hasRemoteAddr := true } }
    else t
  match incoming with
  | .error e => (t, .error e)
  | .ok none => (t, .ok .incomplete)
  | .ok (some inst) => t.processInstruction now inst

def getRemoteDiff (t : Transport M R) : Transport M R × Bytes :=
  let (receiver, diff) := t.receiver.getRemoteDiff
  ({ t with receiver := receiver }, diff)

def getRemoteStateNum (t : Transport M R) : Nat := t.receiver.getRemoteStateNum

/-- The peer requested shutdown and we have already sent one ack for it. -/
def counterpartyShutdownAckSent (t : Transport M R) : Bool :=
  t.connection.fragmenterLastAckSent == SHUTDOWN_NUM

end Transport

end Morsh
