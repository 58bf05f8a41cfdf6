import Morsh.Statesync.Complete

/-!
# A terminal state on its own

The runs of one `Complete`: input frames arrive, the echo ack is asked for, and
the state is cloned, written to and resized in between. Every frame that was
ever registered is recorded, and every time the echo ack was asked for; no
operation reads the record.
-/

namespace Morsh

structure EchoRun (T : Type) where
  complete : Complete T
  /-- Every input frame and when it arrived, oldest first. -/
  registered : List (Nat × Nat)
  /-- The times of the `set_echo_ack` calls. -/
  asked : List Nat

inductive EchoOp where
  | registerInputFrame (n now : Nat)
  | setEchoAck (now : Nat)
  /-- The run goes on with the clone. -/
  | clone
  | act (bytes : Bytes)
  | resize (cols rows : Nat)

namespace EchoRun

variable {T : Type} [Emulator T]

def start (init : Complete T) : EchoRun T := ⟨init, [], []⟩

/-- One call; `none` where a frame would be out of order. -/
def step (r : EchoRun T) : EchoOp → Option (EchoRun T)
  | .registerInputFrame n now =>
      if ∀ p ∈ r.registered, p.1 < n ∧ p.2 ≤ now then
        some { r with
          complete := r.complete.registerInputFrame n now
          registered := r.registered ++ [(n, now)] }
      else none
  | .setEchoAck now =>
      some { r with
        complete := (r.complete.setEchoAck now).1
        asked := r.asked ++ [now] }
  | .clone => some { r with complete := r.complete.cloneState }
  | .act bytes => some { r with complete := (r.complete.act bytes).1 }
  | .resize cols rows => some { r with complete := (r.complete.resize cols rows).1 }

end EchoRun

end Morsh
