import Mathlib.Algebra.BigOperators.Group.List.Basic
import Mathlib.Algebra.GroupWithZero.Nat
import Mathlib.Data.List.Basic
import Mathlib.Data.List.Induction

/-!
# Runs of a partial step function

A system is a function from a state and an operation to the next state, with
`none` for an operation its guard forbids. A run is a list of operations. The
one induction over runs is done here: `run_invariant` carries a predicate that
every step preserves, and `run_append` cuts a run in two, so that a statement
about every point of a run is a statement about every prefix of it.
-/

namespace Run

variable {σ α : Type*} {step : σ → α → Option σ}

/-- Perform the operations in order, stopping at the first forbidden one. -/
def run (step : σ → α → Option σ) : σ → List α → Option σ
  | s, [] => some s
  | s, a :: as => (step s a).bind fun s' => run step s' as

@[simp] theorem run_nil (s : σ) : run step s [] = some s := rfl

theorem run_cons {s t : σ} {a : α} {as : List α} :
    run step s (a :: as) = some t ↔
      ∃ m, step s a = some m ∧ run step m as = some t := by
  rw [run, Option.bind_eq_some_iff]

theorem run_append {s t : σ} {as bs : List α} :
    run step s (as ++ bs) = some t ↔
      ∃ m, run step s as = some m ∧ run step m bs = some t := by
  induction as generalizing s with
  | nil => simp
  | cons a as ih =>
      constructor
      · intro h
        obtain ⟨m, hm, hrest⟩ := run_cons.mp h
        obtain ⟨n, hn, hbs⟩ := ih.mp hrest
        exact ⟨n, run_cons.mpr ⟨m, hm, hn⟩, hbs⟩
      · rintro ⟨n, hn, hbs⟩
        obtain ⟨m, hm, hrest⟩ := run_cons.mp hn
        exact run_cons.mpr ⟨m, hm, ih.mpr ⟨n, hrest, hbs⟩⟩

/-- A run and one operation more. -/
theorem run_concat {s t : σ} {as : List α} {a : α} :
    run step s (as ++ [a]) = some t ↔ ∃ m, run step s as = some m ∧ step m a = some t := by
  simp only [run_append, run_cons, run_nil, Option.some.injEq, exists_eq_right]

/-- A run that cannot be performed stops at an operation. -/
theorem run_eq_none {s : σ} {as : List α} (h : run step s as = none) :
    ∃ before a rest t, as = before ++ a :: rest ∧ run step s before = some t ∧
      step t a = none := by
  induction as generalizing s with
  | nil => cases h
  | cons a as ih =>
      cases hm : step s a with
      | none => exact ⟨[], a, as, s, rfl, rfl, hm⟩
      | some m =>
          rw [run, hm, Option.bind_some] at h
          obtain ⟨before, b, rest, t, rfl, hrun, hstop⟩ := ih h
          exact ⟨a :: before, b, rest, t, rfl, run_cons.mpr ⟨m, hm, hrun⟩, hstop⟩

/-- A predicate every step preserves holds wherever a run ends. -/
theorem run_invariant {I : σ → Prop}
    (hstep : ∀ s a s', I s → step s a = some s' → I s')
    {s t : σ} {as : List α} (hs : I s) (h : run step s as = some t) : I t := by
  induction as generalizing s with
  | nil => cases h; exact hs
  | cons a as ih =>
      obtain ⟨m, hm, hrest⟩ := run_cons.mp h
      exact ih (hstep s a m hs hm) hrest

/-- A predicate of what has been done and of where it has led: what every step of
a run preserves holds where the run ends. -/
theorem run_history {I : List α → σ → Prop} {s t : σ} {as : List α} (hs : I [] s)
    (hstep : ∀ done m a m', run step s done = some m → I done m → step m a = some m' →
      I (done ++ [a]) m')
    (h : run step s as = some t) : I as t := by
  induction as using List.reverseRecOn generalizing t with
  | nil =>
      obtain rfl := Option.some.inj h
      exact hs
  | append_singleton as a ih =>
      obtain ⟨m, hm, hlast⟩ := run_concat.mp h
      exact hstep as m a t hm (ih hm) hlast

/-- Where no step costs more than its operation pays, no run costs more than its
operations pay together. -/
theorem run_cost {cost : σ → Nat} {pay : α → Nat}
    (hstep : ∀ s a s', step s a = some s' → cost s' ≤ cost s + pay a)
    {s t : σ} {as : List α} (h : run step s as = some t) : cost t ≤ cost s + (as.map pay).sum := by
  induction as generalizing s with
  | nil =>
      obtain rfl := Option.some.inj h
      exact Nat.le_add_right _ _
  | cons a as ih =>
      obtain ⟨m, hm, hrest⟩ := run_cons.mp h
      have hfirst := hstep s a m hm
      have hothers := ih hrest
      rw [List.map_cons, List.sum_cons]
      omega

/-- Every operation of the run is performed in a state that allows it. -/
def Along (G : σ → α → Prop) (step : σ → α → Option σ) : σ → List α → Prop
  | _, [] => True
  | s, a :: as => G s a ∧ ∀ s', step s a = some s' → Along G step s' as

theorem along_congr {G H : σ → α → Prop} (h : ∀ s a, G s a ↔ H s a) {s : σ} {as : List α} :
    Along G step s as ↔ Along H step s as := by
  induction as generalizing s with
  | nil => rfl
  | cons a as ih =>
      rw [Along, Along, h s a]
      exact and_congr_right fun _ => forall_congr' fun s' => imp_congr_right fun _ => ih

/-- A predicate preserved by the steps that are allowed holds wherever a run of
such steps ends. -/
theorem run_invariant_along {I : σ → Prop} {G : σ → α → Prop}
    (hstep : ∀ s a s', I s → G s a → step s a = some s' → I s')
    {s t : σ} {as : List α} (hs : I s) (halong : Along G step s as)
    (h : run step s as = some t) : I t := by
  induction as generalizing s with
  | nil => cases h; exact hs
  | cons a as ih =>
      obtain ⟨m, hm, hrest⟩ := run_cons.mp h
      obtain ⟨hallowed, hnext⟩ := halong
      exact ih (hstep s a m hs hallowed hm) (hnext m hm) hrest

/-- Where the steps that are allowed are the ones that can be performed, a run
can be performed exactly if it is made of them. -/
theorem isSome_run_iff {I : σ → Prop} {G : σ → α → Prop}
    (hstep : ∀ s a s', I s → step s a = some s' → I s')
    (hallowed : ∀ s a, I s → ((step s a).isSome ↔ G s a))
    {s : σ} {as : List α} (hs : I s) : (run step s as).isSome ↔ Along G step s as := by
  induction as generalizing s with
  | nil => exact iff_of_true rfl trivial
  | cons a as ih =>
      rw [run, Along, ← hallowed s a hs]
      cases hm : step s a with
      | none => exact iff_of_false Bool.false_ne_true (fun h => Bool.false_ne_true h.1)
      | some m =>
          have hnext := ih (hstep s a m hs hm)
          constructor
          · intro h
            exact ⟨rfl, fun s' hs' => Option.some.inj hs' ▸ hnext.mp h⟩
          · rintro ⟨-, h⟩
            exact hnext.mpr (h m rfl)

end Run
