import Morsh.Lib.Run
import Mathlib.Data.List.Basic

/-!
# What the protocol synchronizes

The operations `TransportSender` and `Transport` ask of a state, the record
they keep of one, and the instruction they exchange. An `Instant` or a
`Duration` is a number of nanoseconds. A `Reading` is what `Instant::now()`
returns: the clocks behind it (`CLOCK_MONOTONIC`, `mach_absolute_time`, the
performance counter) are 64-bit counters of ticks far shorter than 2^16 ns, so
a reading carries the bound.
-/

namespace Morsh

/-- A byte string. -/
abbrev Bytes := List UInt8

/-- Past the end of every 64-bit tick counter. -/
def CLOCK_RANGE : Nat := 2 ^ 80

instance : NeZero CLOCK_RANGE := ⟨by decide⟩

/-- A reading of the monotonic clock. -/
abbrev Reading := Fin CLOCK_RANGE

/-- `Duration::from_millis`. -/
def ms (n : Nat) : Nat := n * 1000000

/-- `wrapping_add(1)` on a `u64`. -/
def wrappingSucc (n : Nat) : Nat := (n + 1) % 2 ^ 64

def MORSH_PROTOCOL_VERSION : Nat := 2
def SEND_INTERVAL_MIN_MS : Nat := 20
def SEND_INTERVAL_MAX_MS : Nat := 250
def ACK_INTERVAL_MS : Nat := 3000
def ACK_DELAY_MS : Nat := 100
def SEND_MINDELAY_MS : Nat := 8
def ACTIVE_RETRY_TIMEOUT_MS : Nat := 10000
def SHUTDOWN_RETRIES : Nat := 16

/-- `u64::MAX`, the state number that means "shutdown". -/
def SHUTDOWN_NUM : Nat := 2 ^ 64 - 1

def SENT_STATES_MAX : Nat := 32
def RECEIVED_STATES_MAX : Nat := 1024
def RECEIVER_QUENCH_MS : Nat := 15000

/-- A synchronizable state. `clone` is Rust's `Clone`, which a state backed by
a live resource does not implement as a plain copy; `adoptFrom` returns the
state and the source it took the resource from. -/
class State (S : Type) where
  hasPrefix : Bool
  clone : S → S
  diffFrom : S → S → Bytes
  applyString : S → Bytes → Except String S
  subtract : S → S → S
  stateEqual : S → S → Bool
  adoptFrom : S → S → S × S

/-- A state together with the number it was assigned and when it was
recorded. -/
structure TimestampedState (S : Type) where
  timestamp : Nat
  num : Nat
  state : S
  deriving DecidableEq, Repr

/-- `TransportBuffers::Instruction`, as prost declares it: every field may be
missing. -/
structure Instruction where
  protocolVersion : Option Nat
  oldNum : Option Nat
  newNum : Option Nat
  ackNum : Option Nat
  throwawayNum : Option Nat
  diff : Option Bytes
  chaff : Option Bytes
  deriving DecidableEq, Repr

/-- A `Vec<TimestampedState<S>>` that is never empty: `sent_states` and
`received_states` both start with one entry and both refuse, by the guards in
front of their `retain`, to drop the last one. -/
structure History (S : Type) where
  entries : List (TimestampedState S)
  ne : entries ≠ []

namespace History

variable {S : Type}

def single (e : TimestampedState S) : History S := ⟨[e], by simp⟩

/-- `[0]`. -/
def first (h : History S) : TimestampedState S := h.entries.head h.ne

/-- `.last().unwrap()`. -/
def last (h : History S) : TimestampedState S := h.entries.getLast h.ne

/-- `[i]`, answering the first entry where the index is out of range. -/
def get (h : History S) (i : Nat) : TimestampedState S := h.entries.getD i h.first

def length (h : History S) : Nat := h.entries.length

/-- `.iter().any(|s| s.num == n)`. -/
def holds (h : History S) (n : Nat) : Bool := h.entries.any fun e => e.num == n

/-- `.iter().position(|s| s.num == n)`. -/
def position (h : History S) (n : Nat) : Option Nat :=
  h.entries.findIdx? fun e => e.num == n

def push (h : History S) (e : TimestampedState S) : History S :=
  ⟨h.entries ++ [e], by simp⟩

/-- `.insert(pos, e)`. -/
def insert (h : History S) (pos : Nat) (e : TimestampedState S) : History S :=
  ⟨h.entries.take pos ++ e :: h.entries.drop pos, by simp⟩

/-- `.remove(i)`, on a history that keeps another entry. -/
def remove (h : History S) (i : Nat) : History S :=
  if hne : h.entries.eraseIdx i = [] then h else ⟨h.entries.eraseIdx i, hne⟩

/-- `.retain(|s| s.num >= n)`, on a history with an entry at or above `n`. -/
def retainFrom (h : History S) (n : Nat) : History S :=
  if hne : h.entries.filter (fun e => n ≤ e.num) = [] then h
  else ⟨h.entries.filter fun e => n ≤ e.num, hne⟩

def mapState (h : History S) (f : S → S) : History S :=
  ⟨h.entries.map fun e => { e with state := f e.state }, by simpa using h.ne⟩

/-- `.last_mut().unwrap().timestamp = t`. -/
def stampLast (h : History S) (t : Nat) : History S :=
  ⟨h.entries.dropLast ++ [{ h.last with timestamp := t }], by simp⟩

/-- Replace the state of entry `i`. -/
def setState (h : History S) (i : Nat) (s : S) : History S :=
  ⟨h.entries.modify i fun e => { e with state := s }, by simpa using h.ne⟩

end History

end Morsh
