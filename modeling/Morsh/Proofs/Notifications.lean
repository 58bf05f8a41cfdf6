import Morsh.Lib.Run
import Morsh.Prediction.Notification

/-!
# What becomes of a notification

No reader asks when the message expires. So a message that is set for a while is
reported until another takes its place, and the readers are right about it
exactly while nobody looks after its time.

What is asked of a call (`Keeps`) is decided by what it is. The setters may do as
they like; a call that brings a message's end forward must not change the
message; and a reader must not report a message whose time is over. Readers do
not look at the time, so they break this exactly when they are called on a stale
message, and over a sequence the condition is that none is.
-/

namespace Morsh

namespace NotificationEngine

variable {e : NotificationEngine} {now : Nat}

/-- The same with no message. -/
def cleared (e : NotificationEngine) : NotificationEngine := { e with message := "" }

/-- The time of the message is over. -/
def Expired (e : NotificationEngine) (now : Nat) : Prop :=
  ∃ t, e.messageExpiration = some t ∧ t < now

/-- The readers report no message. -/
def Silent (e : NotificationEngine) (now : Nat) : Prop :=
  e.hasMessage now = e.cleared.hasMessage now ∧ e.getText now = e.cleared.getText now ∧
    e.render now = e.cleared.render now

theorem ends_ne {a b : List Char} : a ++ ".)".toList ≠ b ++ " ago.".toList := by
  intro h
  have hlast := congrArg List.getLast? h
  simp at hlast

theorem getText_ne (h : e.message ≠ "") (now : Nat) : e.getText now ≠ e.cleared.getText now := by
  intro heq
  have htext := congrArg String.toList heq
  have hlate : e.cleared.needCountup now = e.needCountup now := rfl
  have helapsed : e.cleared.elapsed now = e.elapsed now := rfl
  have hsuffix : e.cleared.keystrokeSuffix = e.keystrokeSuffix := rfl
  have hnone : e.cleared.message = "" := rfl
  cases hcountup : e.needCountup now with
  | false => simp [getText, hlate, hcountup, hnone, h] at htext
  | true =>
      simp only [getText, hlate, helapsed, hsuffix, hcountup, hnone, h, ne_eq, not_true_eq_false,
        not_false_eq_true, Bool.not_true, Bool.false_eq_true, and_false, false_and, if_false,
        true_and, if_true, String.toList_append, List.append_cancel_right_eq] at htext
      exact ends_ne htext

theorem silent_iff : Silent e now ↔ e.message = "" := by
  constructor
  · intro h
    by_contra hne
    exact getText_ne hne now h.2.1
  · intro h
    have hsame : e.cleared = e := by
      rw [cleared, ← h]
    rw [Silent, hsame]
    exact ⟨rfl, rfl, rfl⟩

/-- Only the time of the message changes, and not to a later one. -/
def BringsForward (e e' : NotificationEngine) : Prop :=
  e' = { e with messageExpiration := e'.messageExpiration } ∧
    ∀ t, e.messageExpiration = some t → ∃ t', e'.messageExpiration = some t' ∧ t' ≤ t

/-- What is asked of one call. -/
def Keeps (e : NotificationEngine) (now : Nat) : NotificationOp → Prop
  | .look => Expired e now → Silent e now
  | .clearNetworkError => BringsForward e (e.clearNetworkError now)
  | .hideEscapeHelp =>
      e.hideEscapeHelp.message = e.message ∨
        e.message = e.escapeKeyHelp ∧ e.messageIsNetworkError = false
  | _ => True

theorem clearNetworkError_bringsForward : BringsForward e (e.clearNetworkError now) := by
  unfold clearNetworkError
  split
  · refine ⟨rfl, fun t ht => ⟨_, rfl, ?_⟩⟩
    rw [ht, Option.getD_some]
    exact Nat.min_le_left _ _
  · exact ⟨rfl, fun t ht => ⟨t, ht, Nat.le_refl t⟩⟩

theorem hideEscapeHelp_message :
    e.hideEscapeHelp.message = e.message ∨
      e.message = e.escapeKeyHelp ∧ e.messageIsNetworkError = false := by
  unfold hideEscapeHelp
  split
  · next h =>
      rw [Bool.and_eq_true, Bool.not_eq_true', beq_iff_eq] at h
      exact .inr ⟨h.2, h.1⟩
  · exact .inl rfl

/-- A look at a message whose time is over. -/
def Stale (e : NotificationEngine) (op : Nat × NotificationOp) : Prop :=
  op.2 = .look ∧ e.message ≠ "" ∧ Expired e op.1

theorem keeps_iff {op : Nat × NotificationOp} : Keeps e op.1 op.2 ↔ ¬Stale e op := by
  obtain ⟨now, op⟩ := op
  cases op with
  | look =>
      unfold Keeps Stale
      rw [silent_iff]
      constructor
      · rintro h ⟨-, hmessage, hexpired⟩
        exact hmessage (h hexpired)
      · intro h hexpired
        by_contra hmessage
        exact h ⟨rfl, hmessage, hexpired⟩
  | clearNetworkError => exact iff_of_true clearNetworkError_bringsForward fun h => nomatch h.1
  | hideEscapeHelp => exact iff_of_true hideEscapeHelp_message fun h => nomatch h.1
  | _ => exact iff_of_true trivial fun h => nomatch h.1

/-- Over any sequence of calls, what is asked of each holds if and only if no
reader is called past the time of a message that is still there. -/
theorem notifications_go_away_iff (e : NotificationEngine) (ops : List (Nat × NotificationOp)) :
    Run.Along (fun e op => Keeps e op.1 op.2) step e ops ↔
      Run.Along (fun e op => ¬Stale e op) step e ops :=
  Run.along_congr fun _ _ => keeps_iff

/-- Two seconds after it was set for one the message is still up. -/
theorem notification_stays :
    ¬∀ (start : Nat) (ops : List (Nat × NotificationOp)),
      Run.Along (fun e op => Keeps e op.1 op.2) step (new start) ops := by
  intro h
  obtain ⟨-, hlook⟩ := h 0 [(0, .setNotification "Connected" false), (ms 2000, .look)]
  obtain ⟨hkeeps, -⟩ := hlook _ rfl
  have hsilent := (hkeeps ⟨ms 1000, rfl, by decide⟩).1
  revert hsilent
  decide

end NotificationEngine

end Morsh
