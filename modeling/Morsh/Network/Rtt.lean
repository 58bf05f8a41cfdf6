import Morsh.Network.State

/-!
# The round-trip time estimator

In whole milliseconds, as the source keeps it.
-/

namespace Morsh

def MIN_RTO_MS : Nat := 50
def MAX_RTO_MS : Nat := 1000

structure RttEstimator where
  srttMs : Nat
  rttvarMs : Nat
  haveSample : Bool
  deriving DecidableEq, Repr

namespace RttEstimator

def new : RttEstimator := ⟨50, 25, false⟩

/-- Record a sample. Unreasonable ones (the server was suspended) are ignored. -/
def update (r : RttEstimator) (rttMs : Nat) : RttEstimator :=
  if rttMs = 0 ∨ rttMs > 5000 then r
  else if !r.haveSample then ⟨rttMs, rttMs / 2, true⟩
  else
    { r with
      rttvarMs := (3 * r.rttvarMs + max (r.srttMs - rttMs) (rttMs - r.srttMs)) / 4
      srttMs := (7 * r.srttMs + rttMs) / 8 }

def rtoMs (r : RttEstimator) : Nat := min (max (r.srttMs + 4 * r.rttvarMs) MIN_RTO_MS) MAX_RTO_MS

end RttEstimator

end Morsh
