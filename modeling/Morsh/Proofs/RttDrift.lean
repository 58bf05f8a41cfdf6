import Mathlib.Algebra.Order.Field.Rat
import Mathlib.Algebra.Order.Group.Unbundled.Abs
import Mathlib.Data.List.Induction
import Mathlib.Tactic.NormNum
import Morsh.Lib.Average
import Morsh.Network.Rtt

/-!
# The estimator next to the formulas it truncates

RFC 6298 smooths the round trip and its variation in exact arithmetic, the
estimator in whole milliseconds. The smoothed round trip falls behind by less
than 7 ms; the variation is fed that error as well, in either direction, and
stays within 10 ms.

`Close` carries the error beside the value, as two bounds on the difference for
each of the two averages. A step multiplies the error by the weight of the old
value and adds what the division drops, so a bound that is kept solves a linear
inequality: with a weight of 7/8 and a loss below 1 the smoothed round trip is
less than 7 behind, and the variation, which is fed an absolute difference that
is itself off by that much, is within 10. The first accepted sample starts both
exactly but for one division.
-/

namespace Morsh

namespace RttEstimator

/-- The samples that are not ignored. -/
def accepted (samples : List Nat) : List Nat := samples.filter fun r => 1 ≤ r ∧ r ≤ 5000

/-- SRTT and RTTVAR as RFC 6298 has them. -/
structure Exact where
  srtt : ℚ
  rttvar : ℚ
  deriving DecidableEq

def Exact.first (r : Nat) : Exact := ⟨r, r / 2⟩

def Exact.next (e : Exact) (r : Nat) : Exact where
  srtt := (7 * e.srtt + r) / 8
  rttvar := (3 * e.rttvar + |e.srtt - r|) / 4

/-- What the accepted samples amount to. -/
def exactOf (samples : List Nat) : Option Exact :=
  (accepted samples).foldl (fun e r => some (e.elim (.first r) (·.next r))) none

/-- What the estimator makes of all samples. -/
def estimate (samples : List Nat) : RttEstimator := samples.foldl update new

/-- The estimator after the accepted samples `seen`, and how far it is off. -/
structure Close (seen : List Nat) (e : Exact) (r : RttEstimator) : Prop where
  sampled : r.haveSample = true
  ahead : 0 ≤ e.srtt - r.srttMs
  near : e.srtt - r.srttMs < 7
  above : -7 < e.rttvar - r.rttvarMs
  below : e.rttvar - r.rttvarMs < 10
  smallest : ∃ a ∈ seen, a ≤ r.srttMs
  largest : ∃ b ∈ seen, r.srttMs ≤ b
  srtt_le : r.srttMs ≤ 5000
  rttvar_le : r.rttvarMs ≤ 5000

variable {seen : List Nat} {e : Exact} {r : RttEstimator} {rtt : Nat}

theorem cast_absDiff (a b : Nat) : ((max (a - b) (b - a) : Nat) : ℚ) = |(a : ℚ) - b| := by
  rcases Nat.le_total a b with h | h
  · have hle : (a : ℚ) ≤ b := by exact_mod_cast h
    rw [Nat.sub_eq_zero_of_le h, Nat.max_eq_right (Nat.zero_le _), Nat.cast_sub h,
      abs_of_nonpos (by linarith), neg_sub]
  · have hle : (b : ℚ) ≤ a := by exact_mod_cast h
    rw [Nat.sub_eq_zero_of_le h, Nat.max_eq_left (Nat.zero_le _), Nat.cast_sub h,
      abs_of_nonneg (by linarith)]

theorem update_first (h : 1 ≤ rtt ∧ rtt ≤ 5000) : new.update rtt = ⟨rtt, rtt / 2, true⟩ := by
  unfold update
  rw [if_neg (by omega)]
  rfl

theorem update_next (h : 1 ≤ rtt ∧ rtt ≤ 5000) (hsampled : r.haveSample = true) :
    r.update rtt = { r with
      srttMs := Average.trunc 7 r.srttMs rtt
      rttvarMs := Average.trunc 3 r.rttvarMs (max (r.srttMs - rtt) (rtt - r.srttMs)) } := by
  unfold update
  rw [if_neg (by omega), hsampled]
  rfl

theorem update_ignored (h : ¬(1 ≤ rtt ∧ rtt ≤ 5000)) : r.update rtt = r := by
  unfold update
  exact if_pos (by omega)

theorem Close.first (h : 1 ≤ rtt ∧ rtt ≤ 5000) :
    Close [rtt] (.first rtt) (new.update rtt) := by
  rw [update_first h]
  have hgap := Average.trunc_mul (K := ℚ) 1 0 rtt
  have htrunc : Average.trunc 1 0 rtt = rtt / 2 := by rw [Average.trunc, Nat.mul_zero, Nat.zero_add]
  rw [htrunc] at hgap
  push_cast at hgap
  refine ⟨rfl, ?_, ?_, ?_, ?_, ⟨rtt, List.mem_singleton.mpr rfl, Nat.le_refl _⟩,
    ⟨rtt, List.mem_singleton.mpr rfl, Nat.le_refl _⟩, h.2, ?_⟩
  · simp [Exact.first]
  · simp [Exact.first]
  · simp only [Exact.first]
    linarith [hgap.1]
  · simp only [Exact.first]
    linarith [hgap.2]
  · simp only []
    omega

theorem Close.next (h : 1 ≤ rtt ∧ rtt ≤ 5000) (hclose : Close seen e r) :
    Close (seen ++ [rtt]) (e.next rtt) (r.update rtt) := by
  obtain ⟨hsampled, hahead, hnear, habove, hbelow, ⟨a, ha, hale⟩, ⟨b, hb, hble⟩, hsrtt, hvar⟩ :=
    hclose
  rw [update_next h hsampled]
  generalize hd : max (r.srttMs - rtt) (rtt - r.srttMs) = d
  have hdle : d ≤ 5000 := by omega
  -- the variation is taken from the truncated round trip
  have hdiff : |(|e.srtt - rtt| - (d : ℚ))| ≤ e.srtt - r.srttMs := by
    rw [← hd, cast_absDiff]
    calc |(|e.srtt - rtt| - |(r.srttMs : ℚ) - rtt|)|
        ≤ |(e.srtt - rtt) - (r.srttMs - rtt)| := abs_abs_sub_abs_le _ _
      _ = |e.srtt - r.srttMs| := by rw [sub_sub_sub_cancel_right]
      _ = e.srtt - r.srttMs := abs_of_nonneg hahead
  obtain ⟨hlow, hhigh⟩ := abs_le.mp hdiff
  have hsrtt' : (e.next rtt).srtt = Average.exact 7 e.srtt rtt := by
    rw [Exact.next, Average.exact]
    norm_num
  have hvar' : (e.next rtt).rttvar = Average.exact 3 e.rttvar |e.srtt - rtt| := by
    rw [Exact.next, Average.exact]
    norm_num
  refine ⟨hsampled, ?_, ?_, ?_, ?_, ?_, ?_, Average.trunc_le hsrtt h.2, Average.trunc_le hvar hdle⟩
  · rw [hsrtt']
    exact Average.le_gap hahead (by rw [sub_self])
  · rw [hsrtt']
    exact Average.gap_lt (by decide) hnear (by norm_num)
  · rw [hvar']
    refine lt_of_lt_of_le (lt_min habove ?_)
      (Average.le_gap (min_le_left _ (|e.srtt - rtt| - d)) (min_le_right _ _))
    linarith
  · rw [hvar']
    exact Average.gap_lt (by decide) hbelow (by push_cast; linarith)
  · rcases Nat.le_total a rtt with hle | hle
    · exact ⟨a, List.mem_append_left _ ha, Average.le_trunc hale hle⟩
    · exact ⟨rtt, by simp, Average.le_trunc (Nat.le_trans hle hale) (Nat.le_refl _)⟩
  · rcases Nat.le_total b rtt with hle | hle
    · exact ⟨rtt, by simp, Average.trunc_le (Nat.le_trans hble hle) (Nat.le_refl _)⟩
    · exact ⟨b, List.mem_append_left _ hb, Average.trunc_le hble hle⟩

/-- Nothing was accepted yet, or the estimator is close. The induction is from the
end of the samples; one that is ignored changes neither the estimator nor the
exact values. -/
theorem estimate_cases (samples : List Nat) :
    (accepted samples = [] ∧ exactOf samples = none ∧ estimate samples = new) ∨
      ∃ e, exactOf samples = some e ∧ Close (accepted samples) e (estimate samples) := by
  induction samples using List.reverseRecOn with
  | nil => exact Or.inl ⟨rfl, rfl, rfl⟩
  | append_singleton samples rtt ih =>
      rw [estimate, List.foldl_concat, ← estimate]
      by_cases h : 1 ≤ rtt ∧ rtt ≤ 5000
      · have hacc : accepted (samples ++ [rtt]) = accepted samples ++ [rtt] := by
          rw [accepted, List.filter_append, List.filter_singleton, decide_eq_true h]
          rfl
        rw [exactOf, hacc, List.foldl_concat, ← exactOf]
        refine Or.inr ?_
        rcases ih with ⟨hnone, hexact, hnew⟩ | ⟨e, hexact, hclose⟩
        · rw [hnone, hexact, hnew]
          exact ⟨_, rfl, .first h⟩
        · rw [hexact]
          exact ⟨_, rfl, hclose.next h⟩
      · have hacc : accepted (samples ++ [rtt]) = accepted samples := by
          rw [accepted, List.filter_append, List.filter_singleton, decide_eq_false h]
          exact List.append_nil _
        rw [exactOf, hacc, ← exactOf, update_ignored h]
        exact ih

/-- Every sum the next accepted sample and the timeout need is a `u64`. -/
structure Fits (r : RttEstimator) (next : Nat) : Prop where
  rttvar : 3 * r.rttvarMs + max (r.srttMs - next) (next - r.srttMs) < 2 ^ 64
  srtt : 7 * r.srttMs + next < 2 ^ 64
  rto : r.srttMs + 4 * r.rttvarMs < 2 ^ 64

theorem estimate_le (samples : List Nat) :
    (estimate samples).srttMs ≤ 5000 ∧ (estimate samples).rttvarMs ≤ 5000 := by
  rcases estimate_cases samples with ⟨-, -, hnew⟩ | ⟨e, -, hclose⟩
  · rw [hnew]
    decide
  · exact ⟨hclose.srtt_le, hclose.rttvar_le⟩

/-- After any samples the estimator is within a few milliseconds of the exact
formulas and within the samples, and nothing overflows. -/
theorem estimate_tracks_exact (samples : List Nat) :
    (∀ next ≤ 5000, Fits (estimate samples) next) ∧
    50 ≤ (estimate samples).rtoMs ∧ (estimate samples).rtoMs ≤ 1000 ∧
    (accepted samples ≠ [] → ∃ e, exactOf samples = some e ∧
      0 ≤ e.srtt - (estimate samples).srttMs ∧ e.srtt - (estimate samples).srttMs < 8 ∧
      -7 < e.rttvar - (estimate samples).rttvarMs ∧ e.rttvar - (estimate samples).rttvarMs < 10 ∧
      (∃ a ∈ accepted samples, a ≤ (estimate samples).srttMs) ∧
      ∃ b ∈ accepted samples, (estimate samples).srttMs ≤ b) := by
  obtain ⟨hsrtt, hvar⟩ := estimate_le samples
  refine ⟨fun next hnext => ⟨by omega, by omega, by omega⟩, ?_, ?_, fun hsome => ?_⟩
  · exact Nat.le_min.mpr ⟨Nat.le_max_right _ _, by decide⟩
  · exact Nat.min_le_right _ _
  · rcases estimate_cases samples with ⟨hnone, -⟩ | ⟨e, hexact, hclose⟩
    · exact absurd hnone hsome
    · exact ⟨e, hexact, hclose.ahead, lt_trans hclose.near (by norm_num), hclose.above,
        hclose.below, hclose.smallest, hclose.largest⟩

/-- A sample that is ignored, then a fast and a slow round trip. -/
theorem estimate_tracks_exact_mixed :
    accepted [9000, 101, 400, 0, 103] = [101, 400, 103] ∧
    estimate [9000, 101, 400, 0, 103] = ⟨133, 92, true⟩ ∧
    ∃ e, exactOf [9000, 101, 400, 0, 103] = some e ∧ e.srtt - 133 < 8 ∧ -7 < e.rttvar - 92 := by
  have hestimate : estimate [9000, 101, 400, 0, 103] = ⟨133, 92, true⟩ := by decide
  obtain ⟨e, hexact, -, hsrtt, hvar, -⟩ :=
    (estimate_tracks_exact [9000, 101, 400, 0, 103]).2.2.2 (by decide)
  rw [hestimate] at hsrtt hvar
  exact ⟨by decide, hestimate, e, hexact, by exact_mod_cast hsrtt, by exact_mod_cast hvar⟩

end RttEstimator

end Morsh
