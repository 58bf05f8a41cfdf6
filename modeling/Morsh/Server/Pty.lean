import Morsh.Statesync.Complete

/-!
# The child, its terminal and the reader thread

What happens on the far side of `PtyEvent`. The child writes into the terminal's
buffer and exits; the reader thread reads at most 4096 bytes at a time and sends
what it read into a bounded channel, blocking while that is full; once the child
has exited and the buffer is drained the read fails or returns nothing, and the
thread sends `Exited` and ends.
-/

namespace Morsh

def READ_MAX : Nat := 4096
def CHANNEL_CAPACITY : Nat := 64

inductive PtyEvent where
  | output (data : Bytes)
  | exited (status : Nat)
  deriving DecidableEq, Repr

/-- A window size, never empty. -/
structure PtySize where
  cols : Nat
  rows : Nat
  cols_range : 1 ≤ cols ∧ cols ≤ 65535
  rows_range : 1 ≤ rows ∧ rows ≤ 65535
  deriving DecidableEq

namespace PtySize

theorem clampSize_range (v : Int32) : 1 ≤ clampSize v ∧ clampSize v ≤ 65535 := by
  unfold clampSize
  omega

/-- The size a resize event asks for. -/
def ofResize (width height : Int32) : PtySize :=
  ⟨clampSize width, clampSize height, clampSize_range width, clampSize_range height⟩

def initial : PtySize := ⟨80, 24, by decide, by decide⟩

end PtySize

/-- What the server does to the pty. -/
inductive PtyAction where
  | write (keys : Bytes)
  | resize (size : PtySize)
  deriving DecidableEq

structure Pty where
  /-- Everything the child has written. -/
  written : Bytes
  exited : Bool
  /-- Written and not yet read. -/
  buffer : Bytes
  /-- Read and not yet in the channel. -/
  pending : Option PtyEvent
  /-- The reader thread has seen the end. -/
  drained : Bool
  rx : List PtyEvent
  /-- The writes and resizes of the server, oldest first. -/
  actions : List PtyAction

inductive PtyOp where
  | childWrite (data : Bytes)
  | childExit
  | read (count : Nat)
  | readEnd
  | send
  deriving DecidableEq, Repr

namespace Pty

def spawn : Pty := ⟨[], false, [], none, false, [], []⟩

/-- One step of the child or of the reader thread. -/
def step (p : Pty) : PtyOp → Option Pty
  | .childWrite data =>
      if p.exited then none
      else some { p with written := p.written ++ data, buffer := p.buffer ++ data }
  | .childExit => some { p with exited := true }
  | .read count =>
      if p.pending.isSome ∨ p.drained ∨ count = 0 ∨ count > READ_MAX
          ∨ count > p.buffer.length then none
      else some { p with
        pending := some (.output (p.buffer.take count)), buffer := p.buffer.drop count }
  | .readEnd =>
      if p.pending.isSome ∨ p.drained ∨ !p.exited ∨ p.buffer ≠ [] then none
      else some { p with pending := some (.exited 0), drained := true }
  | .send =>
      match p.pending with
      | none => none
      | some event =>
          if p.rx.length ≥ CHANNEL_CAPACITY then none
          else some { p with pending := none, rx := p.rx ++ [event] }

end Pty

end Morsh
