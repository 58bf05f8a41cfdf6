import Mathlib.Data.Nat.Cast.Order.Field
import Mathlib.Tactic.Linarith
import Mathlib.Tactic.Ring
import Mathlib.Tactic.FieldSimp

/-!
# Running averages in whole numbers

A running average gives the old value the weight `k` and the new one the weight
1. In whole numbers the division truncates, and what was lost is part of the
next old value. An average pulls the gap between the exact and the truncated
value together as well, so the gap never leaves an interval that holds it, the
gap of the new values and the one truncation.
-/

namespace Average

/-- The average in whole numbers. -/
def trunc (k x y : Nat) : Nat := (k * x + y) / (k + 1)

theorem le_trunc {k x y m : Nat} (hx : m ≤ x) (hy : m ≤ y) : m ≤ trunc k x y := by
  rw [trunc, Nat.le_div_iff_mul_le (Nat.succ_pos k)]
  calc m * (k + 1) = k * m + m := by ring
    _ ≤ k * x + y := Nat.add_le_add (Nat.mul_le_mul_left k hx) hy

theorem trunc_le {k x y m : Nat} (hx : x ≤ m) (hy : y ≤ m) : trunc k x y ≤ m := by
  refine Nat.div_le_of_le_mul ?_
  calc k * x + y ≤ k * m + m := Nat.add_le_add (Nat.mul_le_mul_left k hx) hy
    _ = (k + 1) * m := by ring

section Gap

variable {K : Type*} [Field K] [LinearOrder K] [IsStrictOrderedRing K]

/-- The average itself. -/
def exact (k : Nat) (x y : K) : K := (k * x + y) / (k + 1)

variable {k x y : Nat} {X Y lo hi : K}

theorem exact_mul (k : Nat) (x y : K) : exact k x y * (k + 1) = k * x + y := by
  rw [exact]
  have hne : (k : K) + 1 ≠ 0 := by positivity
  field_simp

theorem trunc_mul (k x y : Nat) :
    (trunc k x y : K) * (k + 1) ≤ k * x + y ∧
      (k * x + y : K) ≤ (trunc k x y : K) * (k + 1) + k := by
  have hdiv : trunc k x y * (k + 1) + (k * x + y) % (k + 1) = k * x + y :=
    Nat.div_add_mod' (k * x + y) (k + 1)
  have hmod : (k * x + y) % (k + 1) ≤ k := Nat.le_of_lt_succ (Nat.mod_lt _ (Nat.succ_pos k))
  have hlow : trunc k x y * (k + 1) ≤ k * x + y := Nat.div_mul_le_self _ _
  have hhigh : k * x + y ≤ trunc k x y * (k + 1) + k :=
    hdiv ▸ Nat.add_le_add_left hmod _
  exact ⟨by exact_mod_cast hlow, by exact_mod_cast hhigh⟩

theorem le_gap (hx : lo ≤ X - x) (hy : lo ≤ Y - y) :
    lo ≤ exact k X Y - (trunc k x y : K) := by
  have hexact := exact_mul k X Y
  have htrunc := (trunc_mul (K := K) k x y).1
  have hk : (0 : K) ≤ k := Nat.cast_nonneg k
  have hpos : (0 : K) < k + 1 := by positivity
  have hold := mul_le_mul_of_nonneg_left hx hk
  refine le_of_mul_le_mul_right ?_ hpos
  calc lo * (k + 1) = k * lo + lo := by ring
    _ ≤ k * (X - x) + (Y - y) := add_le_add hold hy
    _ = exact k X Y * (k + 1) - (k * x + y) := by rw [hexact]; ring
    _ ≤ exact k X Y * (k + 1) - (trunc k x y : K) * (k + 1) := by linarith
    _ = (exact k X Y - (trunc k x y : K)) * (k + 1) := by ring

/-- A gap less than `hi` stays so, where `hi` has room for the gap of the new
values and one truncation. -/
theorem gap_lt (hk : 0 < k) (hx : X - x < hi) (hy : Y - y + k ≤ hi) :
    exact k X Y - (trunc k x y : K) < hi := by
  have hexact := exact_mul k X Y
  have htrunc := (trunc_mul (K := K) k x y).2
  have hkpos : (0 : K) < k := Nat.cast_pos.mpr hk
  have hpos : (0 : K) < k + 1 := by positivity
  have hold := mul_lt_mul_of_pos_left hx hkpos
  refine lt_of_mul_lt_mul_right ?_ hpos.le
  calc (exact k X Y - (trunc k x y : K)) * (k + 1)
      = exact k X Y * (k + 1) - (trunc k x y : K) * (k + 1) := by ring
    _ ≤ exact k X Y * (k + 1) - (k * x + y) + k := by linarith
    _ = k * (X - x) + (Y - y + k) := by rw [hexact]; ring
    _ < k * hi + hi := add_lt_add_of_lt_of_le hold hy
    _ = hi * (k + 1) := by ring

end Gap

end Average
