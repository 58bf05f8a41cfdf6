import Morsh.Proofs.History

/-!
# What every run of a sender keeps

`SenderInv` orders the history: state numbers rise strictly, except that the
shutdown number may repeat at the end, and timestamps never fall. The second
half of it is pacing. A number is only allocated 20 ms or more after the one
before, so the clock, which is a 64-bit counter, runs out long before the
numbers do: `wrapping_add` never wraps and no ordinary state is ever numbered
`SHUTDOWN_NUM`.

`tick` is read back once, as `Emission`: which entry the diff was computed
against, which number the instruction names for it after the history has moved
underneath, and how the new state was recorded. Everything later is derived
from that record.
-/

namespace Morsh

open State

variable {S : Type}

/-- Strictly increasing numbers, except that the shutdown number may repeat. -/
def NumOrder (a b : TimestampedState S) : Prop :=
  a.num < b.num ∨ (a.num = SHUTDOWN_NUM ∧ b.num = SHUTDOWN_NUM)

theorem NumOrder.le {a b : TimestampedState S} (h : NumOrder a b) : a.num ≤ b.num := by
  rcases h with hlt | ⟨ha, hb⟩ <;> omega

structure SenderInv (clock : Nat) (s : TransportSender S) : Prop where
  nums : s.sentStates.entries.Pairwise NumOrder
  times : s.sentStates.entries.Pairwise fun a b => a.timestamp ≤ b.timestamp
  size : s.sentStates.length ≤ SENT_STATES_MAX
  past : s.sentStates.last.timestamp ≤ clock
  range : clock < CLOCK_RANGE
  /-- Only a shutdown uses the sentinel. -/
  running : s.shutdownInProgress = false → s.sentStates.last.num ≠ SHUTDOWN_NUM
  pace : s.sentStates.last.num ≠ SHUTDOWN_NUM →
    s.sentStates.last.num * ms SEND_INTERVAL_MIN_MS ≤
      s.sentStates.last.timestamp + ms SEND_INTERVAL_MIN_MS
  gap : s.sentStates.last.num = 0 ∨
    s.sentStates.last.timestamp + ms SEND_INTERVAL_MIN_MS ≤ s.nextAckTime

theorem History.num_le_last {h : History S} (hp : h.entries.Pairwise NumOrder)
    {e : TimestampedState S} (he : e ∈ h.entries) : e.num ≤ h.last.num := by
  rw [h.entries_eq_dropLast, List.pairwise_append] at hp
  rw [h.entries_eq_dropLast, List.mem_append, List.mem_singleton] at he
  rcases he with hd | rfl
  · exact (hp.2.2 e hd _ (by simp)).le
  · exact Nat.le_refl _

theorem History.first_le_num {h : History S} (hp : h.entries.Pairwise NumOrder)
    {e : TimestampedState S} (he : e ∈ h.entries) : h.first.num ≤ e.num := by
  obtain ⟨entries, ne⟩ := h
  cases entries with
  | nil => exact absurd rfl ne
  | cons x rest =>
      rcases List.mem_cons.mp he with rfl | hr
      · exact Nat.le_refl _
      · exact ((List.pairwise_cons.mp hp).1 e hr).le

/-! ## The deadlines -/

theorem ms_le_sendInterval (srttMs : Nat) : ms SEND_INTERVAL_MIN_MS ≤ sendInterval srttMs := by
  simp only [sendInterval, ms]
  omega

theorem assumeWalk_all {now : Nat} {horizon : Nat} {l : List (TimestampedState S)}
    (h : ∀ e ∈ l, now - e.timestamp < horizon) : assumeWalk now horizon l = l.length := by
  induction l with
  | nil => rfl
  | cons e rest ih =>
      rw [assumeWalk, if_pos (h e (by simp)), ih fun x hx => h x (by simp [hx]),
        List.length_cons]

/-- Timestamps never fall, so the walk stops at once or not at all: where the
first entry after the floor is young enough, so are those behind it. -/
theorem assumeWalk_eq {now : Nat} {horizon : Nat} {l : List (TimestampedState S)}
    (hp : l.Pairwise fun a b => a.timestamp ≤ b.timestamp) :
    assumeWalk now horizon l = 0 ∨ assumeWalk now horizon l = l.length := by
  cases l with
  | nil => exact Or.inl rfl
  | cons e rest =>
      by_cases he : now - e.timestamp < horizon
      · refine Or.inr (assumeWalk_all fun x hx => ?_)
        rcases List.mem_cons.mp hx with rfl | hr
        · exact he
        · have hle : e.timestamp ≤ x.timestamp := (List.pairwise_cons.mp hp).1 x hr
          omega
      · exact Or.inl (by rw [assumeWalk, if_neg he])

namespace TransportSender

variable [State S] {s : TransportSender S} {now : Nat} {timeout srttMs : Nat}

@[simp] theorem scheduleSend_sentStates :
    (s.scheduleSend now timeout srttMs).sentStates = s.sentStates := by
  unfold scheduleSend; simp only []; split
  · rfl
  · split
    · rfl
    · split <;> rfl

@[simp] theorem scheduleSend_currentState :
    (s.scheduleSend now timeout srttMs).currentState = s.currentState := by
  unfold scheduleSend; simp only []; split
  · rfl
  · split
    · rfl
    · split <;> rfl

@[simp] theorem scheduleSend_frame :
    (s.scheduleSend now timeout srttMs).shutdownInProgress = s.shutdownInProgress ∧
      (s.scheduleSend now timeout srttMs).ackNum = s.ackNum ∧
      (s.scheduleSend now timeout srttMs).nextAckTime = s.nextAckTime ∧
      (s.scheduleSend now timeout srttMs).assumedReceiverState
        = s.assumedReceiverState := by
  unfold scheduleSend; simp only []; split
  · exact ⟨rfl, rfl, rfl, rfl⟩
  · split
    · exact ⟨rfl, rfl, rfl, rfl⟩
    · split <;> exact ⟨rfl, rfl, rfl, rfl⟩

/-- A send is never scheduled within 20 ms of the last one. -/
theorem scheduleSend_due {t : Nat}
    (h : (s.scheduleSend now timeout srttMs).nextSendTime = some t) :
    s.sentStates.last.timestamp + ms SEND_INTERVAL_MIN_MS ≤ t := by
  have hint := ms_le_sendInterval srttMs
  have hdelay : ms SEND_INTERVAL_MIN_MS ≤ ms ACK_DELAY_MS := by decide
  unfold scheduleSend at h
  simp only [] at h
  split at h
  · simp only [Option.some.injEq] at h
    omega
  · split at h
    · simp only [Option.some.injEq] at h
      split at h <;> omega
    · split at h
      · simp only [Option.some.injEq] at h
        omega
      · cases h

omit [State S] in
@[simp] theorem hastenAck_frame :
    (s.hastenAck now).sentStates = s.sentStates ∧
      (s.hastenAck now).currentState = s.currentState ∧
      (s.hastenAck now).shutdownInProgress = s.shutdownInProgress ∧
      (s.hastenAck now).ackNum = s.ackNum ∧
      (s.hastenAck now).assumedReceiverState = s.assumedReceiverState := by
  unfold hastenAck; split <;> exact ⟨rfl, rfl, rfl, rfl, rfl⟩

omit [State S] in
@[simp] theorem paceShutdown_frame :
    (s.paceShutdown srttMs).sentStates = s.sentStates ∧
      (s.paceShutdown srttMs).currentState = s.currentState ∧
      (s.paceShutdown srttMs).shutdownInProgress = s.shutdownInProgress ∧
      (s.paceShutdown srttMs).ackNum = s.ackNum ∧
      (s.paceShutdown srttMs).nextSendTime = s.nextSendTime ∧
      (s.paceShutdown srttMs).assumedReceiverState = s.assumedReceiverState := by
  unfold paceShutdown; split <;> exact ⟨rfl, rfl, rfl, rfl, rfl, rfl⟩

theorem rationalizeStates_frame :
    s.rationalizeStates.shutdownInProgress = s.shutdownInProgress ∧
      s.rationalizeStates.ackNum = s.ackNum ∧
      s.rationalizeStates.nextAckTime = s.nextAckTime ∧
      s.rationalizeStates.assumedReceiverState = s.assumedReceiverState ∧
      s.rationalizeStates.sentStates.length = s.sentStates.length := by
  unfold rationalizeStates
  split
  · exact ⟨rfl, rfl, rfl, rfl, rfl⟩
  · exact ⟨rfl, rfl, rfl, rfl, History.mapState_length _⟩

theorem rationalizeStates_last :
    s.rationalizeStates.sentStates.last.num = s.sentStates.last.num ∧
      s.rationalizeStates.sentStates.last.timestamp = s.sentStates.last.timestamp := by
  unfold rationalizeStates
  split
  · exact ⟨rfl, rfl⟩
  · simp

theorem rationalizeStates_pairwise {R : TimestampedState S → TimestampedState S → Prop}
    (hR : ∀ a b (f : S → S), R a b →
      R { a with state := f a.state } { b with state := f b.state })
    (hp : s.sentStates.entries.Pairwise R) :
    s.rationalizeStates.sentStates.entries.Pairwise R := by
  unfold rationalizeStates
  split
  · exact hp
  · exact History.pairwise_mapState
      (fun a b => hR a b fun st => subtract st (clone s.sentStates.first.state)) hp

/-! ## The timers as a whole -/

theorem calculateTimers_frame :
    (s.calculateTimers now timeout srttMs).sentStates = s.rationalizeStates.sentStates ∧
      (s.calculateTimers now timeout srttMs).currentState
        = s.rationalizeStates.currentState ∧
      (s.calculateTimers now timeout srttMs).shutdownInProgress = s.shutdownInProgress ∧
      (s.calculateTimers now timeout srttMs).ackNum = s.ackNum := by
  have hcomm : (s.updateAssumedReceiverState now timeout).rationalizeStates.sentStates
        = s.rationalizeStates.sentStates ∧
      (s.updateAssumedReceiverState now timeout).rationalizeStates.currentState
        = s.rationalizeStates.currentState := by
    unfold rationalizeStates; split <;> exact ⟨rfl, rfl⟩
  have hframe := rationalizeStates_frame (s := s.updateAssumedReceiverState now timeout)
  simp only [calculateTimers, paceShutdown_frame, scheduleSend_sentStates,
    scheduleSend_currentState, scheduleSend_frame, hastenAck_frame, hcomm, hframe]
  exact ⟨trivial, trivial, rfl, rfl⟩

/-- The assumed receiver state is the acknowledged entry or the newest one. -/
theorem calculateTimers_assumed
    (hp : s.sentStates.entries.Pairwise fun a b => a.timestamp ≤ b.timestamp) :
    (s.calculateTimers now timeout srttMs).assumedReceiverState = 0 ∨
      (s.calculateTimers now timeout srttMs).assumedReceiverState
        = s.sentStates.length - 1 := by
  have hframe := rationalizeStates_frame (s := s.updateAssumedReceiverState now timeout)
  simp only [calculateTimers, paceShutdown_frame, scheduleSend_frame, hastenAck_frame,
    hframe]
  have htail := @assumeWalk_eq _ now (timeout + ms ACK_DELAY_MS) _
    (hp.sublist (List.tail_sublist _))
  rwa [List.length_tail] at htail

/-- Neither deadline falls within 20 ms of the last send, the first one apart. -/
theorem calculateTimers_gap {clock : Nat} (hinv : SenderInv clock s) (hnow : clock ≤ now) :
    s.sentStates.last.num = 0 ∨
      s.sentStates.last.timestamp + ms SEND_INTERVAL_MIN_MS
        ≤ (s.calculateTimers now timeout srttMs).nextAckTime := by
  rcases hinv.gap with hzero | hgap
  · exact Or.inl hzero
  · refine Or.inr ?_
    have hint := ms_le_sendInterval srttMs
    have hdelay : ms SEND_INTERVAL_MIN_MS ≤ ms ACK_DELAY_MS := by decide
    have hpast := hinv.past
    have hframe := rationalizeStates_frame (s := s.updateAssumedReceiverState now timeout)
    have hlast := rationalizeStates_last (s := s.updateAssumedReceiverState now timeout)
    have hack : (s.updateAssumedReceiverState now timeout).nextAckTime = s.nextAckTime := rfl
    have hsent : (s.updateAssumedReceiverState now timeout).sentStates = s.sentStates := rfl
    unfold calculateTimers paceShutdown
    split
    · simp only [scheduleSend_sentStates, hastenAck_frame, hlast, hsent]
      omega
    · simp only [scheduleSend_frame]
      unfold hastenAck
      split
      · simp only []; omega
      · rw [hframe.2.2.1, hack]; exact hgap

theorem calculateTimers_due {clock t : Nat} (hinv : SenderInv clock s) (hnow : clock ≤ now)
    (hdue : now ≥ (s.calculateTimers now timeout srttMs).nextAckTime ∨
      ((s.calculateTimers now timeout srttMs).nextSendTime = some t ∧ now ≥ t)) :
    s.sentStates.last.num = 0 ∨
      s.sentStates.last.timestamp + ms SEND_INTERVAL_MIN_MS ≤ now := by
  rcases hdue with hack | ⟨hsend, ht⟩
  · rcases @calculateTimers_gap _ _ s now timeout srttMs _ hinv hnow with h | h
    · exact Or.inl h
    · exact Or.inr (by omega)
  · have hlast := rationalizeStates_last (s := s.updateAssumedReceiverState now timeout)
    have hsent : (s.updateAssumedReceiverState now timeout).sentStates = s.sentStates := rfl
    simp only [calculateTimers, paceShutdown_frame] at hsend
    have h := scheduleSend_due hsend
    simp only [hastenAck_frame, hlast, hsent] at h
    exact Or.inr (by omega)

end TransportSender

theorem SenderInv.calculateTimers [State S] {s : TransportSender S} {clock now : Nat}
    (hinv : SenderInv clock s) (hnow : clock ≤ now) (hrange : now < CLOCK_RANGE)
    (timeout srttMs : Nat) : SenderInv now (s.calculateTimers now timeout srttMs) := by
  obtain ⟨hsent, -, hshut, -⟩ := @TransportSender.calculateTimers_frame _ _ s now timeout srttMs
  obtain ⟨hnum, hts⟩ := TransportSender.rationalizeStates_last (s := s)
  constructor
  · rw [hsent]
    exact TransportSender.rationalizeStates_pairwise (fun _ _ _ h => h) hinv.nums
  · rw [hsent]
    exact TransportSender.rationalizeStates_pairwise (fun _ _ _ h => h) hinv.times
  · rw [hsent, TransportSender.rationalizeStates_frame.2.2.2.2]
    exact hinv.size
  · rw [hsent, hts]
    exact Nat.le_trans hinv.past hnow
  · exact hrange
  · rw [hsent, hnum, hshut]
    exact hinv.running
  · rw [hsent, hnum, hts]
    exact hinv.pace
  · rw [hsent, hnum, hts]
    exact TransportSender.calculateTimers_gap hinv hnow

end Morsh
