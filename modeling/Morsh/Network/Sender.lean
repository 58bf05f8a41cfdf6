import Morsh.Network.State

/-!
# The sending half of the State Synchronization Protocol

`TransportSender`, function by function. The clock readings a function takes
from `Instant::now()` and the random chaff are arguments here, and so are the
retransmission timeout and smoothed round trip its callers read off the
connection.
-/

namespace Morsh

open State

/-- The sending half of one direction of the protocol. -/
structure TransportSender (S : Type) where
  /-- The state we want the receiver to reach. -/
  currentState : S
  /-- The first entry is the last acknowledged state, the last one the most
  recently sent. -/
  sentStates : History S
  /-- Index into `sentStates` of the state we assume the receiver holds. -/
  assumedReceiverState : Nat
  nextAckTime : Nat
  /-- `none` means no send is scheduled. -/
  nextSendTime : Option Nat
  shutdownInProgress : Bool
  shutdownTries : Nat
  shutdownStart : Option Nat
  /-- What we tell the peer we have received. -/
  ackNum : Nat
  pendingDataAck : Bool
  /-- Time to collect input before sending. -/
  sendMindelay : Nat
  /-- When we last received a new state. -/
  lastHeard : Option Nat
  /-- When the current state first diverged from the last sent state. -/
  mindelayClock : Option Nat

/-- Roughly two frames per round trip, within the frame-rate limits. -/
def sendInterval (srttMs : Nat) : Nat :=
  ms (max SEND_INTERVAL_MIN_MS (min SEND_INTERVAL_MAX_MS ((srttMs + 1) / 2)))

/-- The walk of `update_assumed_receiver_state` over the entries after the
first: how many of them in a row were sent within the horizon. -/
def assumeWalk {S : Type} (now : Nat) (horizon : Nat) :
    List (TimestampedState S) → Nat
  | [] => 0
  | e :: rest =>
      if now - e.timestamp < horizon then assumeWalk now horizon rest + 1 else 0

namespace TransportSender

variable {S : Type} [State S]

/-- `TransportSender::new`. -/
def new (now : Nat) (initialState : S) : TransportSender S where
  currentState := initialState
  sentStates := .single ⟨now, 0, clone initialState⟩
  assumedReceiverState := 0
  nextAckTime := now
  nextSendTime := some now
  shutdownInProgress := false
  shutdownTries := 0
  shutdownStart := none
  ackNum := 0
  pendingDataAck := false
  sendMindelay := ms SEND_MINDELAY_MS
  lastHeard := none
  mindelayClock := none

/-- `set_current_state`, and any mutation through `current_state_mut`. -/
def setCurrentState (s : TransportSender S) (state : S) : TransportSender S :=
  { s with currentState := state }

def setAckNum (s : TransportSender S) (ackNum : Nat) : TransportSender S :=
  { s with ackNum := ackNum }

def setDataAck (s : TransportSender S) : TransportSender S :=
  { s with pendingDataAck := true }

def remoteHeard (s : TransportSender S) (when_ : Nat) : TransportSender S :=
  { s with lastHeard := some when_ }

def startShutdown (s : TransportSender S) (now : Nat) : TransportSender S :=
  if s.shutdownInProgress then s
  else { s with shutdownStart := some now, shutdownInProgress := true }

/-- The peer acknowledged the sentinel state. -/
def shutdownAcknowledged (s : TransportSender S) : Bool :=
  s.sentStates.first.num == SHUTDOWN_NUM

def shutdownAckTimedOut (s : TransportSender S) (now : Nat) : Bool :=
  if !s.shutdownInProgress then false
  else if s.shutdownTries ≥ SHUTDOWN_RETRIES then true
  else match s.shutdownStart with
    | some start => now - start ≥ ms ACTIVE_RETRY_TIMEOUT_MS
    | none => false

def sentStateAckedTimestamp (s : TransportSender S) : Nat :=
  s.sentStates.first.timestamp

def sentStateAcked (s : TransportSender S) : Nat := s.sentStates.first.num

def sentStateLast (s : TransportSender S) : Nat := s.sentStates.last.num

/-- Give the benefit of the doubt to unacknowledged states sent recently
enough; a lost packet walks the assumption back to the acknowledged one. -/
def updateAssumedReceiverState (s : TransportSender S) (now : Nat)
    (timeout : Nat) : TransportSender S :=
  { s with
    assumedReceiverState :=
      assumeWalk now (timeout + ms ACK_DELAY_MS) s.sentStates.entries.tail }

/-- Cut out the common prefix of all states. -/
def rationalizeStates (s : TransportSender S) : TransportSender S :=
  if !hasPrefix S then s
  else
    let known := clone s.sentStates.first.state
    { s with
      currentState := subtract s.currentState known
      sentStates := s.sentStates.mapState fun st => subtract st known }

/-- Where `calculate_timers` brings the ack deadline forward because the peer
sent us data. -/
def hastenAck (s : TransportSender S) (now : Nat) : TransportSender S :=
  if s.pendingDataAck ∧ s.nextAckTime > now + ms ACK_DELAY_MS then
    { s with nextAckTime := now + ms ACK_DELAY_MS }
  else s

/-- Where `calculate_timers` sets the send deadline. -/
def scheduleSend (s : TransportSender S) (now : Nat) (timeout srttMs : Nat) :
    TransportSender S :=
  let interval := sendInterval srttMs
  let last := s.sentStates.last
  let active := s.lastHeard.any fun h => h + ms ACTIVE_RETRY_TIMEOUT_MS > now
  if !stateEqual s.currentState last.state then
    -- something new to say
    let clock := s.mindelayClock.getD now
    { s with
      mindelayClock := some clock
      nextSendTime := some (max (clock + s.sendMindelay) (last.timestamp + interval)) }
  else if !stateEqual s.currentState (s.sentStates.get s.assumedReceiverState).state
      && active then
    -- sent, but the receiver may not have it: retransmit at the frame rate
    let t := last.timestamp + interval
    { s with
      nextSendTime := some (match s.mindelayClock with
        | some clock => max t (clock + s.sendMindelay)
        | none => t) }
  else if !stateEqual s.currentState s.sentStates.first.state && active then
    -- never acknowledged: probe once per timeout
    { s with nextSendTime := some (last.timestamp + timeout + ms ACK_DELAY_MS) }
  else { s with nextSendTime := none }

/-- Where `calculate_timers` paces the shutdown packets. -/
def paceShutdown (s : TransportSender S) (srttMs : Nat) : TransportSender S :=
  if s.shutdownInProgress || s.ackNum == SHUTDOWN_NUM then
    { s with nextAckTime := s.sentStates.last.timestamp + sendInterval srttMs }
  else s

/-- Recompute the send and ack deadlines. -/
def calculateTimers (s : TransportSender S) (now : Nat) (timeout srttMs : Nat) :
    TransportSender S :=
  ((((s.updateAssumedReceiverState now timeout).rationalizeStates).hastenAck
    now).scheduleSend now timeout srttMs).paceShutdown srttMs

/-- Milliseconds until the next event this sender needs to act on. -/
def waitTimeMs (s : TransportSender S) (now : Nat) (timeout srttMs : Nat)
    (hasRemoteAddr : Bool) : TransportSender S × Nat :=
  let s := s.calculateTimers now timeout srttMs
  if !hasRemoteAddr then (s, 2 ^ 64 - 1)
  else
    let next := match s.nextSendTime with
      | some send => min s.nextAckTime send
      | none => s.nextAckTime
    (s, (next - now) / 1000000 % 2 ^ 64)

/-- Append to the history, dropping an entry from its middle when it is full so
that both the acknowledged floor and the recent entries survive. -/
def addSentState (s : TransportSender S) (timestamp : Nat) (num : Nat)
    (state : S) : TransportSender S :=
  let sent := s.sentStates.push ⟨timestamp, num, state⟩
  if sent.length > SENT_STATES_MAX then
    let victim := sent.length - 16
    { s with
      sentStates := sent.remove victim
      assumedReceiverState :=
        if s.assumedReceiverState ≥ victim then s.assumedReceiverState - 1
        else s.assumedReceiverState }
  else { s with sentStates := sent }

def buildInstruction (s : TransportSender S) (diff : Bytes) (newNum : Nat)
    (chaff : Bytes) : TransportSender S × Instruction :=
  ({ s with
      shutdownTries := if newNum == SHUTDOWN_NUM then s.shutdownTries + 1
        else s.shutdownTries
      pendingDataAck := false },
    { protocolVersion := some MORSH_PROTOCOL_VERSION
      oldNum := some (s.sentStates.get s.assumedReceiverState).num
      newNum := some newNum
      ackNum := some s.ackNum
      throwawayNum := some s.sentStates.first.num
      diff := some diff
      chaff := some chaff })

def sendEmptyAck (s : TransportSender S) (now : Nat) (chaff : Bytes) :
    TransportSender S × Instruction :=
  let newNum := if s.shutdownInProgress then SHUTDOWN_NUM
    else wrappingSucc s.sentStateLast
  let s := s.addSentState now newNum (clone s.currentState)
  let (s, inst) := s.buildInstruction [] newNum chaff
  ({ s with nextAckTime := now + ms ACK_INTERVAL_MS, nextSendTime := none }, inst)

/-- The number `send_to_receiver` gives the current state. -/
def dataNum (s : TransportSender S) : Nat :=
  if s.shutdownInProgress then SHUTDOWN_NUM
  else if stateEqual s.currentState s.sentStates.last.state then s.sentStateLast
  else wrappingSucc s.sentStateLast

def sendToReceiver (s : TransportSender S) (diff : Bytes) (now : Nat)
    (chaff : Bytes) : TransportSender S × Instruction :=
  let newNum := s.dataNum
  let s := if newNum == s.sentStateLast then
      { s with sentStates := s.sentStates.stampLast now }
    else s.addSentState now newNum (clone s.currentState)
  let (s, inst) := s.buildInstruction diff newNum chaff
  ({ s with
      assumedReceiverState := s.sentStates.length - 1
      nextAckTime := now + ms ACK_INTERVAL_MS
      nextSendTime := none }, inst)

/-- Consider diffing against the acknowledged state instead, when doing so
costs little and removes all doubt about what the peer holds. -/
def attemptProspectiveResendOptimization (s : TransportSender S)
    (proposedDiff : Bytes) : TransportSender S × Bytes :=
  if s.assumedReceiverState == 0 then (s, proposedDiff)
  else
    let resendDiff := diffFrom s.currentState s.sentStates.first.state
    if resendDiff.length ≤ proposedDiff.length
        ∨ (resendDiff.length < 1000 ∧ resendDiff.length - proposedDiff.length < 100) then
      ({ s with assumedReceiverState := 0 }, resendDiff)
    else (s, proposedDiff)

/-- Decide what, if anything, to put on the wire now. -/
def tick (s : TransportSender S) (now : Nat) (timeout srttMs : Nat)
    (hasRemoteAddr : Bool) (chaff : Bytes) : TransportSender S × Option Instruction :=
  let s := s.calculateTimers now timeout srttMs
  if !hasRemoteAddr then (s, none)
  else
    let sendDue := s.nextSendTime.any fun t => now ≥ t
    let ackDue : Bool := now ≥ s.nextAckTime
    if !sendDue && !ackDue then (s, none)
    else
      let diff := diffFrom s.currentState (s.sentStates.get s.assumedReceiverState).state
      let (s, diff) := s.attemptProspectiveResendOptimization diff
      if diff.isEmpty then
        let (s, inst) := if ackDue then
            let (s, inst) := s.sendEmptyAck now chaff
            ({ s with mindelayClock := none }, some inst)
          else (s, none)
        if sendDue then ({ s with nextSendTime := none, mindelayClock := none }, inst)
        else (s, inst)
      else
        let (s, inst) := s.sendToReceiver diff now chaff
        ({ s with mindelayClock := none }, some inst)

/-- Cull states the receiver has confirmed. -/
def processAcknowledgmentThrough (s : TransportSender S) (ackNum : Nat) :
    TransportSender S :=
  if !s.sentStates.holds ackNum then s
  else
    let assumedNum := (s.sentStates.get s.assumedReceiverState).num
    let sent := s.sentStates.retainFrom ackNum
    { s with
      sentStates := sent
      assumedReceiverState := (sent.position assumedNum).getD 0 }

end TransportSender

end Morsh
