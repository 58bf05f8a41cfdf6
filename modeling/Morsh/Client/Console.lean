import Morsh.Lib.Utf16
import Morsh.Network.State

/-!
# The Windows console

`Utf16ToUtf8` turns the code units of the console's key records into the bytes
the input reader publishes, read by read. What is recorded beside it, the units
pushed and the bytes taken, no operation reads.
-/

namespace Morsh

/-- Holds back a high surrogate until its pair arrives, possibly in the next
read. -/
structure Utf16ToUtf8 where
  pendingHigh : Option UInt16
  out : Bytes
  deriving DecidableEq, Repr

namespace Utf16ToUtf8

/-- `Default`. -/
def new : Utf16ToUtf8 := ⟨none, []⟩

def encode (c : Utf16ToUtf8) (units : List UInt16) : Utf16ToUtf8 :=
  (Utf16.decode units).foldl
    (fun c ch => { c with out := c.out ++ String.utf8EncodeChar (Utf16.orReplacement ch) }) c

/-- `push`, which may call itself; `none` where the calls are used up. -/
def push : (calls : Nat) → Utf16ToUtf8 → (unit : UInt16) → Option Utf16ToUtf8
  | 0, _, _ => none
  | calls + 1, c, unit =>
      let taken := { c with pendingHigh := none }
      match c.pendingHigh with
      | none =>
          if Utf16.isHigh unit then some { c with pendingHigh := some unit }
          else some (taken.encode [unit])
      | some high =>
          if Utf16.isLow unit then some (taken.encode [high, unit])
          -- a lone high surrogate: emit it and carry on with this unit
          else push calls (taken.encode [high]) unit

def take (c : Utf16ToUtf8) : Utf16ToUtf8 × Bytes := ({ c with out := [] }, c.out)

end Utf16ToUtf8

structure ConsoleRun where
  converter : Utf16ToUtf8
  /-- Every unit pushed, oldest first. -/
  pushed : List UInt16
  /-- The results of `take`, oldest first. -/
  taken : List Bytes
  deriving DecidableEq, Repr

inductive ConsoleOp where
  | push (unit : UInt16)
  /-- The end of a read. -/
  | take
  deriving DecidableEq, Repr

/-- The units among the operations. -/
def ConsoleOp.units (ops : List ConsoleOp) : List UInt16 :=
  ops.filterMap fun
    | .push unit => some unit
    | .take => none

namespace ConsoleRun

def start : ConsoleRun := ⟨.new, [], []⟩

/-- One operation; `calls` bounds the calls of a `push`. -/
def step (calls : Nat) (r : ConsoleRun) : ConsoleOp → Option ConsoleRun
  | .push unit =>
      (r.converter.push calls unit).map fun converter =>
        { r with converter := converter, pushed := r.pushed ++ [unit] }
  | .take =>
      some { r with converter := r.converter.take.1, taken := r.taken ++ [r.converter.take.2] }

/-- All the bytes there are: those taken and those still buffered. -/
def bytes (r : ConsoleRun) : Bytes := r.taken.flatten ++ r.converter.out

/-- The units pushed, but for a high surrogate still pending at the end. -/
def settled (r : ConsoleRun) : List UInt16 :=
  match r.converter.pendingHigh with
  | none => r.pushed
  | some _ => r.pushed.dropLast

end ConsoleRun

end Morsh
