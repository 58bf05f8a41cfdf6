import Morsh.Network.Sender

/-!
# A sender on its own

The runs of one `TransportSender`: its owner calls anything in any order, with
the clock readings and round-trip estimates of the moment. What it emits is
recorded with the time; no operation reads the record.
-/

namespace Morsh

structure SenderRun (S : Type) where
  /-- The last reading of the clock. -/
  clock : Nat
  sender : TransportSender S
  emitted : List (Nat × Instruction)

inductive SenderOp (E : Type) where
  | edit (e : E)
  | tick (now : Reading) (timeout srttMs : Nat) (hasRemoteAddr : Bool) (chaff : Bytes)
  | waitTime (now : Reading) (timeout srttMs : Nat) (hasRemoteAddr : Bool)
  | acknowledge (num : Nat)
  | setAckNum (num : Nat)
  | setDataAck
  | remoteHeard (time : Nat)
  | startShutdown (now : Nat)

namespace SenderRun

variable {E S : Type} [State S]

def start (now : Reading) (init : S) : SenderRun S where
  clock := now
  sender := .new now init
  emitted := []

/-- One call; `none` where the clock would run backwards. -/
def step (act : S → E → S) (r : SenderRun S) : SenderOp E → Option (SenderRun S)
  | .edit e => some { r with sender := r.sender.setCurrentState (act r.sender.currentState e) }
  | .tick now timeout srttMs hasRemoteAddr chaff =>
      if now.val < r.clock then none
      else
        let ticked := r.sender.tick now.val timeout srttMs hasRemoteAddr chaff
        some {
          clock := now.val
          sender := ticked.1
          emitted := r.emitted ++ ticked.2.toList.map fun inst => (now.val, inst) }
  | .waitTime now timeout srttMs hasRemoteAddr =>
      if now.val < r.clock then none
      else some { r with
        clock := now.val
        sender := (r.sender.waitTimeMs now.val timeout srttMs hasRemoteAddr).1 }
  | .acknowledge num => some { r with sender := r.sender.processAcknowledgmentThrough num }
  | .setAckNum num => some { r with sender := r.sender.setAckNum num }
  | .setDataAck => some { r with sender := r.sender.setDataAck }
  | .remoteHeard time => some { r with sender := r.sender.remoteHeard time }
  | .startShutdown now => some { r with sender := r.sender.startShutdown now }

/-- The same where the current state is final once shutdown has begun. -/
def settledStep (act : S → E → S) (r : SenderRun S) : SenderOp E → Option (SenderRun S)
  | .edit e => if r.sender.shutdownInProgress then none else step act r (.edit e)
  | op => step act r op

end SenderRun

end Morsh
