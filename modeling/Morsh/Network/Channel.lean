import Morsh.Network.Transport

/-!
# One direction of a session, as a system

A `TransportSender` at one end, a `Transport` at the other and a network
between them that keeps every instruction ever sent: `deliver` picks any of
them, at any time, any number of times, so it loses, repeats and reorders as it
likes. Acknowledgments reach the sender in any order, and none is assumed
honest. What was edited, when each number was first used and what was handed
out are recorded on the side; no operation reads the record.
-/

namespace Morsh

/-- The first use of a state number: the edits made by then, and the state the
sender recorded under it. -/
structure Use (E S : Type) where
  num : Nat
  edits : List E
  state : S
  deriving DecidableEq, Repr

/-- The use recorded for a number. -/
def useOf {E S : Type} (uses : List (Use E S)) (num : Nat) : Option (Use E S) :=
  uses.find? fun u => u.num == num

/-- Record a use, unless the number has been used before. -/
def note {E S : Type} (uses : List (Use E S)) (u : Use E S) : List (Use E S) :=
  match useOf uses u.num with
  | some _ => uses
  | none => uses ++ [u]

/-- Record what a tick announced: the state is the entry it recorded last. -/
def noteSent {E S : Type} (uses : List (Use E S)) (edits : List E)
    (ticked : TransportSender S × Option Instruction) : List (Use E S) :=
  match ticked.2.bind (·.newNum) with
  | some num => note uses ⟨num, edits, ticked.1.sentStates.last.state⟩
  | none => uses

structure Channel (E S M : Type) where
  /-- The last reading of the sender's clock. -/
  clock : Nat
  sender : TransportSender S
  network : List Instruction
  remote : Transport M S
  edits : List E
  uses : List (Use E S)
  /-- The results of `get_remote_diff`, oldest first. -/
  handed : List Bytes

inductive ChannelOp (E : Type) where
  | edit (e : E)
  | tick (now : Reading) (timeout srttMs : Nat) (hasRemoteAddr : Bool) (chaff : Bytes)
  | waitTime (now : Reading) (timeout srttMs : Nat) (hasRemoteAddr : Bool)
  | acknowledge (num : Nat)
  | setAckNum (num : Nat)
  | setDataAck
  | remoteHeard (time : Nat)
  | startShutdown (now : Nat)
  | deliver (index : Nat) (now : Nat)
  | getRemoteDiff

namespace Channel

variable {E S M : Type} [State S] [State M]

/-- Both ends as constructed, each from its own copy of state 0. -/
def start (now remoteNow : Nat) (connection : Connection) (init remoteInit : S)
    (remoteState : M) : Channel E S M where
  clock := now
  sender := .new now init
  network := []
  remote := .new connection remoteNow remoteState remoteInit
  edits := []
  uses := [⟨0, [], init⟩]
  handed := []

/-- One operation of either end; `none` where its caller is not allowed it: an
edit once shutdown has begun, and a clock that runs backwards. -/
def step (act : S → E → S) (ch : Channel E S M) : ChannelOp E → Option (Channel E S M)
  | .edit e =>
      if ch.sender.shutdownInProgress then none
      else some { ch with
        sender := ch.sender.setCurrentState (act ch.sender.currentState e)
        edits := ch.edits ++ [e] }
  | .tick now timeout srttMs hasRemoteAddr chaff =>
      if now.val < ch.clock then none
      else
        let ticked := ch.sender.tick now.val timeout srttMs hasRemoteAddr chaff
        some { ch with
          clock := now.val
          sender := ticked.1
          network := ch.network ++ ticked.2.toList
          uses := noteSent ch.uses ch.edits ticked }
  | .waitTime now timeout srttMs hasRemoteAddr =>
      if now.val < ch.clock then none
      else some { ch with
        clock := now.val
        sender := (ch.sender.waitTimeMs now.val timeout srttMs hasRemoteAddr).1 }
  | .acknowledge num =>
      some { ch with sender := ch.sender.processAcknowledgmentThrough num }
  | .setAckNum num => some { ch with sender := ch.sender.setAckNum num }
  | .setDataAck => some { ch with sender := ch.sender.setDataAck }
  | .remoteHeard time => some { ch with sender := ch.sender.remoteHeard time }
  | .startShutdown now => some { ch with sender := ch.sender.startShutdown now }
  | .deliver index now =>
      match ch.network[index]? with
      | none => none
      | some inst => some { ch with remote := (ch.remote.processInstruction now inst).1 }
  | .getRemoteDiff =>
      let (remote, diff) := ch.remote.getRemoteDiff
      some { ch with remote := remote, handed := ch.handed ++ [diff] }

end Channel

end Morsh
