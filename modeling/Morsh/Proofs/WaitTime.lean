import Morsh.Proofs.Pacing

/-!
# Waiting for the next tick

`wait_time_ms` and `tick` read the same timers at two different times. With
something new to say the deadline is the same at both; with nothing to say
there is none at either; and the ack deadline does not move. What moves is the
assumed receiver state: the oldest unacknowledged entry may pass its horizon in
between, and a sender that meant to probe once per timeout, counted from the
newest entry, is back to the frame rate.

Between two readings of the clock only a few things move, and each has a lemma:
the assumed state falls back towards the floor as entries pass their horizon, a
peer counts as active for a while and then no more, and trimming a second time
trims nothing. `scheduleSend` is then compared at the two readings. Something new
to say has a deadline that was fixed when it was first seen. Nothing new to say
has none while the newest entry is assumed received, and has the frame rate's when
it is not. `FallsBack` names the readings at which the second one applies while
the first one was computed; short of those the time waited covers the tick.
-/

namespace Morsh

open State

/-- Once a state has been subtracted from itself there is nothing left in it to
discard from another. -/
class Trimming (S : Type) [State S] : Prop where
  trim_trimmed : hasPrefix S = true → ∀ a k : S, subtract a (clone (subtract k (clone k))) = a

theorem Trimming.of_noPrefix {S : Type} [State S] (h : hasPrefix S = false) : Trimming S :=
  ⟨fun h' => by rw [h] at h'; cases h'⟩

theorem UserStream.commonPrefixLen_self (es : List UserEvent) :
    commonPrefixLen es es = es.length := by
  induction es with
  | nil => rfl
  | cons e es ih => rw [commonPrefixLen, if_neg (by simp), ih, List.length_cons]

instance [ProstMessage UserMessage] : Trimming UserStream where
  trim_trimmed _ a k := by
    change a.subtractPrefix (k.subtractPrefix k) = a
    have hempty : k.subtractPrefix k = ⟨[]⟩ := by
      rw [UserStream.subtractPrefix, UserStream.commonPrefixLen_self, List.drop_length]
    have hnil : UserStream.commonPrefixLen a.events [] = 0 := by
      cases a.events <;> rfl
    rw [hempty, UserStream.subtractPrefix, hnil, List.drop_zero]

instance {T : Type} [Emulator T] [ProstMessage HostMessage] : Trimming (Complete T) :=
  .of_noPrefix rfl

variable {E S : Type} [State S]

namespace TransportSender

variable {s : TransportSender S} {now t timeout srttMs : Nat} {chaff : Bytes}

/-- Whether the peer counts as active. -/
def activeAt (s : TransportSender S) (now : Nat) : Bool :=
  s.lastHeard.any fun h => h + ms ACTIVE_RETRY_TIMEOUT_MS > now

/-- When a state that has been sent is sent again at the frame rate. -/
def retryTime (s : TransportSender S) (srttMs : Nat) : Nat :=
  match s.mindelayClock with
  | some clock => max (s.sentStates.last.timestamp + sendInterval srttMs) (clock + s.sendMindelay)
  | none => s.sentStates.last.timestamp + sendInterval srttMs

omit [State S] in
theorem activeAt_mono (hle : now ≤ t) (h : s.activeAt t = true) : s.activeAt now = true := by
  unfold activeAt at h ⊢
  cases hheard : s.lastHeard with
  | none => rw [hheard] at h; cases h
  | some heard =>
      rw [hheard] at h
      rw [Option.any_some] at h ⊢
      exact decide_eq_true (Nat.lt_of_le_of_lt hle (of_decide_eq_true h))

variable (now timeout srttMs) in
theorem scheduleSend_fresh (h : stateEqual s.currentState s.sentStates.last.state = false) :
    (s.scheduleSend now timeout srttMs).mindelayClock = some (s.mindelayClock.getD now) ∧
      (s.scheduleSend now timeout srttMs).nextSendTime =
        some (max (s.mindelayClock.getD now + s.sendMindelay)
          (s.sentStates.last.timestamp + sendInterval srttMs)) := by
  unfold scheduleSend
  simp only [h, Bool.not_false, if_true]
  exact ⟨trivial, trivial⟩

variable (now timeout srttMs) in
theorem scheduleSend_sent (h : stateEqual s.currentState s.sentStates.last.state = true) :
    (s.scheduleSend now timeout srttMs).mindelayClock = s.mindelayClock ∧
      (s.scheduleSend now timeout srttMs).nextSendTime =
        if (!stateEqual s.currentState (s.sentStates.get s.assumedReceiverState).state
            && s.activeAt now) = true then some (s.retryTime srttMs)
        else if (!stateEqual s.currentState s.sentStates.first.state && s.activeAt now) = true then
          some (s.sentStates.last.timestamp + timeout + ms ACK_DELAY_MS)
        else none := by
  unfold scheduleSend retryTime activeAt
  simp only [h, Bool.not_true, Bool.false_eq_true, if_false]
  split
  · exact ⟨rfl, rfl⟩
  · split <;> exact ⟨rfl, rfl⟩

theorem rationalizeStates_twice [Trimming S] :
    s.rationalizeStates.rationalizeStates.currentState = s.rationalizeStates.currentState ∧
      s.rationalizeStates.rationalizeStates.sentStates = s.rationalizeStates.sentStates := by
  unfold rationalizeStates
  by_cases hpre : hasPrefix S = true
  · have htrim := Trimming.trim_trimmed hpre
    simp only [hpre, Bool.not_true, Bool.false_eq_true, if_false, History.mapState_first, htrim]
    refine ⟨trivial, ?_⟩
    simp only [History.mapState, History.mk.injEq, List.map_map]
    rfl
  · simp only [Bool.not_eq_true] at hpre
    simp only [hpre, Bool.not_false, if_true]
    exact ⟨trivial, trivial⟩

/-- The sender as `schedule_send` sees it. -/
def prepared (s : TransportSender S) (now timeout : Nat) : TransportSender S :=
  ((s.updateAssumedReceiverState now timeout).rationalizeStates).hastenAck now

variable (s now timeout) in
theorem prepared_frame :
    (s.prepared now timeout).currentState = s.rationalizeStates.currentState ∧
      (s.prepared now timeout).sentStates = s.rationalizeStates.sentStates ∧
      (s.prepared now timeout).assumedReceiverState
        = assumeWalk now (timeout + ms ACK_DELAY_MS) s.sentStates.entries.tail ∧
      (s.prepared now timeout).mindelayClock = s.mindelayClock ∧
      (s.prepared now timeout).sendMindelay = s.sendMindelay ∧
      (s.prepared now timeout).lastHeard = s.lastHeard := by
  unfold prepared hastenAck rationalizeStates
  split <;> split <;> exact ⟨rfl, rfl, rfl, rfl, rfl, rfl⟩

variable (s now timeout srttMs) in
theorem calculateTimers_prepared :
    (s.calculateTimers now timeout srttMs).nextSendTime
        = ((s.prepared now timeout).scheduleSend now timeout srttMs).nextSendTime ∧
      (s.calculateTimers now timeout srttMs).mindelayClock
        = ((s.prepared now timeout).scheduleSend now timeout srttMs).mindelayClock ∧
      (s.calculateTimers now timeout srttMs).sendMindelay = s.sendMindelay ∧
      (s.calculateTimers now timeout srttMs).lastHeard = s.lastHeard ∧
      (s.calculateTimers now timeout srttMs).assumedReceiverState
        = assumeWalk now (timeout + ms ACK_DELAY_MS) s.sentStates.entries.tail := by
  have hframe := prepared_frame s now timeout
  have hsched : ((s.prepared now timeout).scheduleSend now timeout srttMs).sendMindelay
        = (s.prepared now timeout).sendMindelay ∧
      ((s.prepared now timeout).scheduleSend now timeout srttMs).lastHeard
        = (s.prepared now timeout).lastHeard := by
    unfold scheduleSend
    simp only []
    split
    · exact ⟨rfl, rfl⟩
    · split
      · exact ⟨rfl, rfl⟩
      · split <;> exact ⟨rfl, rfl⟩
  rw [show s.calculateTimers now timeout srttMs
    = ((s.prepared now timeout).scheduleSend now timeout srttMs).paceShutdown srttMs from rfl]
  refine ⟨paceShutdown_frame.2.2.2.2.1, ?_, ?_, ?_, ?_⟩
  · unfold paceShutdown; split <;> rfl
  · unfold paceShutdown
    split <;> exact hsched.1.trans hframe.2.2.2.2.1
  · unfold paceShutdown
    split <;> exact hsched.2.trans hframe.2.2.2.2.2
  · rw [paceShutdown_frame.2.2.2.2.2, scheduleSend_frame.2.2.2]
    exact hframe.2.2.1

variable (s now timeout srttMs) in
theorem calculateTimers_nextAck :
    (s.calculateTimers now timeout srttMs).pendingDataAck = s.pendingDataAck ∧
      (s.calculateTimers now timeout srttMs).nextAckTime =
        if (s.shutdownInProgress || s.ackNum == SHUTDOWN_NUM) = true then
          s.sentStates.last.timestamp + sendInterval srttMs
        else if s.pendingDataAck = true ∧ s.nextAckTime > now + ms ACK_DELAY_MS then
          now + ms ACK_DELAY_MS
        else s.nextAckTime := by
  have hrat := rationalizeStates_frame (s := s.updateAssumedReceiverState now timeout)
  have hpending : (s.updateAssumedReceiverState now timeout).rationalizeStates.pendingDataAck
      = s.pendingDataAck := by
    unfold rationalizeStates; split <;> rfl
  have hnext : (s.updateAssumedReceiverState now timeout).rationalizeStates.nextAckTime
      = s.nextAckTime := hrat.2.2.1
  have hframe := @hastenAck_frame _ (s.updateAssumedReceiverState now timeout).rationalizeStates now
  have hprep : (s.prepared now timeout).pendingDataAck = s.pendingDataAck ∧
      (s.prepared now timeout).nextAckTime =
        if s.pendingDataAck = true ∧ s.nextAckTime > now + ms ACK_DELAY_MS then
          now + ms ACK_DELAY_MS else s.nextAckTime := by
    unfold prepared hastenAck
    rw [hpending, hnext]
    split
    · exact ⟨rfl, rfl⟩
    · exact ⟨hpending, hnext⟩
  have hsched : ((s.prepared now timeout).scheduleSend now timeout srttMs).pendingDataAck
      = (s.prepared now timeout).pendingDataAck := by
    unfold scheduleSend
    simp only []
    split
    · rfl
    · split
      · rfl
      · split <;> rfl
  have hshut : (s.prepared now timeout).shutdownInProgress = s.shutdownInProgress :=
    hframe.2.2.1.trans hrat.1
  have hacknum : (s.prepared now timeout).ackNum = s.ackNum := hframe.2.2.2.1.trans hrat.2.1
  have hlast : (s.prepared now timeout).sentStates.last.timestamp
      = s.sentStates.last.timestamp := by
    rw [(prepared_frame _ _ _).2.1, rationalizeStates_last.2]
  rw [show s.calculateTimers now timeout srttMs
    = ((s.prepared now timeout).scheduleSend now timeout srttMs).paceShutdown srttMs from rfl]
  unfold paceShutdown
  simp only [scheduleSend_frame, scheduleSend_sentStates, hshut, hacknum, hlast]
  split
  · exact ⟨hsched.trans hprep.1, rfl⟩
  · exact ⟨hsched.trans hprep.1, scheduleSend_frame.2.2.1.trans hprep.2⟩

theorem calculateTimers_nextAck_again (hle : now ≤ t) :
    ((s.calculateTimers now timeout srttMs).calculateTimers t timeout srttMs).nextAckTime
      = (s.calculateTimers now timeout srttMs).nextAckTime := by
  obtain ⟨hsent, -, hshut, hack⟩ :=
    @calculateTimers_frame _ _ s now timeout srttMs
  have hfirst := calculateTimers_nextAck s now timeout srttMs
  have hagain := calculateTimers_nextAck (s.calculateTimers now timeout srttMs) t timeout srttMs
  rw [hagain.2, hshut, hack, hfirst.1, hsent, rationalizeStates_last.2, hfirst.2]
  split
  · rfl
  · split
    · next hpending => rw [if_neg (by omega)]
    · next hpending => rw [if_neg (fun h => hpending ⟨h.1, by omega⟩)]

end TransportSender

/-! ## The walk at two times -/

section Walk

variable {now t horizon : Nat}

omit [State S] in
theorem assumeWalk_mono (hle : now ≤ t) (l : List (TimestampedState S)) :
    assumeWalk t horizon l ≤ assumeWalk now horizon l := by
  induction l with
  | nil => exact Nat.le_refl _
  | cons e rest ih =>
      rw [assumeWalk, assumeWalk]
      by_cases ht : t - e.timestamp < horizon
      · rw [if_pos ht, if_pos (by omega)]
        exact Nat.succ_le_succ ih
      · rw [if_neg ht]
        exact Nat.zero_le _

omit [State S] in
theorem assumeWalk_le (l : List (TimestampedState S)) : assumeWalk now horizon l ≤ l.length := by
  induction l with
  | nil => exact Nat.le_refl _
  | cons e rest ih =>
      rw [assumeWalk]
      split
      · exact Nat.succ_le_succ ih
      · exact Nat.zero_le _

omit [State S] in
theorem assumeWalk_aged {e : TimestampedState S} {l : List (TimestampedState S)}
    (h : l[0]? = some e) : assumeWalk now horizon l = 0 ↔ horizon ≤ now - e.timestamp := by
  cases l with
  | nil => cases h
  | cons x rest =>
      cases h
      rw [assumeWalk]
      split
      · next hyoung => exact iff_of_false (Nat.succ_ne_zero _) (Nat.not_le.mpr hyoung)
      · next hold => exact iff_of_true rfl (Nat.not_lt.mp hold)

omit [State S] in
theorem assumeWalk_map (f : S → S) (l : List (TimestampedState S)) :
    assumeWalk now horizon (l.map fun e => { e with state := f e.state })
      = assumeWalk now horizon l := by
  induction l with
  | nil => rfl
  | cons e rest ih => rw [List.map_cons, assumeWalk, assumeWalk, ih]

theorem assumeWalk_rationalizeStates {s : TransportSender S} :
    assumeWalk now horizon s.rationalizeStates.sentStates.entries.tail
      = assumeWalk now horizon s.sentStates.entries.tail := by
  unfold TransportSender.rationalizeStates
  split
  · rfl
  · change assumeWalk now horizon (List.map _ s.sentStates.entries).tail = _
    rw [← List.map_tail]
    exact assumeWalk_map (fun st => subtract st (clone s.sentStates.first.state)) _

end Walk

/-! ## Waiting -/

/-- By `t` the sender, having nothing new to say, is back to retransmitting at
the frame rate: the oldest state not acknowledged is past its horizon, the
newest, which is the current one, has not been acknowledged either, and the
peer is active. -/
structure FallsBack (s : TransportSender S) (t timeout srttMs : Nat) : Prop where
  sent : stateEqual s.currentState s.sentStates.last.state = true
  unacked : stateEqual s.currentState s.sentStates.first.state = false
  active : s.activeAt t = true
  aged : ∃ e, s.sentStates.entries[1]? = some e ∧ timeout + ms ACK_DELAY_MS ≤ t - e.timestamp
  due : s.retryTime srttMs ≤ t
  diff : diffFrom s.currentState s.sentStates.first.state ≠ []

namespace TransportSender

variable {s : TransportSender S} {now t timeout srttMs clock : Nat} {chaff : Bytes}

/-- Short of the ack deadline a tick emits when a send is due and the diff is
not empty. -/
theorem tick_of_ackEarly
    (hack : now < (s.calculateTimers now timeout srttMs).nextAckTime) :
    (s.tick now timeout srttMs true chaff).2 = none ↔
      ¬ (((s.calculateTimers now timeout srttMs).nextSendTime.any fun d => now ≥ d) = true ∧
        ((s.calculateTimers now timeout srttMs).attemptProspectiveResendOptimization
          (diffFrom (s.calculateTimers now timeout srttMs).currentState
            ((s.calculateTimers now timeout srttMs).sentStates.get
              (s.calculateTimers now timeout srttMs).assumedReceiverState).state)).2 ≠ []) := by
  have hnot : decide (now ≥ (s.calculateTimers now timeout srttMs).nextAckTime) = false :=
    decide_eq_false (by omega)
  unfold tick
  simp only [hnot, Bool.not_true, Bool.not_false, Bool.and_true, Bool.false_eq_true, if_false]
  cases hsend : ((s.calculateTimers now timeout srttMs).nextSendTime.any fun d =>
    decide (now ≥ d)) with
  | false => simp
  | true =>
      simp only [Bool.not_true, Bool.false_eq_true, if_false, if_true, List.isEmpty_iff, true_and,
        not_not]
      split
      · next hempty => simp [hempty]
      · next hne => simp [hne]

theorem prospectiveResend_zero (h : s.assumedReceiverState = 0) (diff : Bytes) :
    s.attemptProspectiveResendOptimization diff = (s, diff) := by
  rw [attemptProspectiveResendOptimization, h]
  rfl

/-- Neither deadline falls within the time waited. Waiting is rounded down to
milliseconds and is for the earlier deadline of the two. -/
theorem waitTimeMs_early (hle : now ≤ t)
    (hearly : t < now + ms (s.waitTimeMs now timeout srttMs true).2) :
    (s.waitTimeMs now timeout srttMs true).1 = s.calculateTimers now timeout srttMs ∧
      t < (s.calculateTimers now timeout srttMs).nextAckTime ∧
      ∀ d, (s.calculateTimers now timeout srttMs).nextSendTime = some d → t < d := by
  have hfloor : ∀ next, t < now + ms ((next - now) / 1000000 % 2 ^ 64) → t < next := by
    intro next h
    have hmod := Nat.mod_le ((next - now) / 1000000) (2 ^ 64)
    have hdiv := Nat.div_mul_le_self (next - now) 1000000
    rw [ms] at h
    generalize (next - now) / 1000000 % 2 ^ 64 = w at h hmod
    omega
  have hnext := hfloor _ hearly
  refine ⟨rfl, ?_⟩
  cases hsend : (s.calculateTimers now timeout srttMs).nextSendTime with
  | none =>
      rw [hsend] at hnext
      exact ⟨hnext, fun d hd => by cases hd⟩
  | some d =>
      rw [hsend] at hnext
      refine ⟨Nat.lt_of_lt_of_le hnext (Nat.min_le_left _ _), fun d' hd => ?_⟩
      cases hd
      exact Nat.lt_of_lt_of_le hnext (Nat.min_le_right _ _)

theorem rationalizeStates_rest :
    s.rationalizeStates.mindelayClock = s.mindelayClock ∧
      s.rationalizeStates.sendMindelay = s.sendMindelay ∧
      s.rationalizeStates.lastHeard = s.lastHeard := by
  unfold rationalizeStates
  split <;> exact ⟨rfl, rfl, rfl⟩

theorem activeAt_rationalizeStates : s.rationalizeStates.activeAt t = s.activeAt t := by
  rw [activeAt, activeAt, rationalizeStates_rest.2.2]

variable (s now timeout srttMs) in
/-- The states a second reading of the timers compares. -/
theorem calculateTimers_trimmed [Trimming S] :
    (s.calculateTimers now timeout srttMs).rationalizeStates.currentState
        = s.rationalizeStates.currentState ∧
      (s.calculateTimers now timeout srttMs).rationalizeStates.sentStates
        = s.rationalizeStates.sentStates := by
  obtain ⟨hsent, hcur, -, -⟩ :=
    @calculateTimers_frame _ _ s now timeout srttMs
  have hsame : ∀ a b : TransportSender S, a.currentState = b.currentState →
      a.sentStates = b.sentStates →
      a.rationalizeStates.currentState = b.rationalizeStates.currentState ∧
        a.rationalizeStates.sentStates = b.rationalizeStates.sentStates := by
    intro a b hc hs
    unfold rationalizeStates
    rw [hs]
    split
    · exact ⟨hc, hs⟩
    · exact ⟨by rw [hc], rfl⟩
  obtain ⟨hc, hs⟩ := hsame _ _ hcur hsent
  obtain ⟨htwice, htwice'⟩ := rationalizeStates_twice (s := s)
  exact ⟨hc.trans htwice, hs.trans htwice'⟩

variable (now timeout srttMs) in
/-- Nothing new to say, at one reading. -/
theorem calculateTimers_sent
    (hlast : stateEqual s.rationalizeStates.currentState
      s.rationalizeStates.sentStates.last.state = true) :
    (s.calculateTimers now timeout srttMs).mindelayClock = s.mindelayClock ∧
      (s.calculateTimers now timeout srttMs).nextSendTime =
        if (!stateEqual s.rationalizeStates.currentState (s.rationalizeStates.sentStates.get
              (assumeWalk now (timeout + ms ACK_DELAY_MS) s.sentStates.entries.tail)).state
            && s.activeAt now) = true then some (s.rationalizeStates.retryTime srttMs)
        else if (!stateEqual s.rationalizeStates.currentState
            s.rationalizeStates.sentStates.first.state && s.activeAt now) = true then
          some (s.sentStates.last.timestamp + timeout + ms ACK_DELAY_MS)
        else none := by
  obtain ⟨hcur, hsent, hwalk, hclock, hdelay, hheard⟩ :=
    prepared_frame s now timeout
  obtain ⟨hclock', hdelay', -⟩ := rationalizeStates_rest (s := s)
  have hsched := scheduleSend_sent (s := s.prepared now timeout) now timeout srttMs
    (by rw [hcur, hsent]; exact hlast)
  have hactive : (s.prepared now timeout).activeAt now = s.activeAt now := by
    rw [activeAt, activeAt, hheard]
  have hretry : (s.prepared now timeout).retryTime srttMs
      = s.rationalizeStates.retryTime srttMs := by
    rw [retryTime, retryTime, hclock, hsent, hdelay, hclock', hdelay']
  rw [hcur, hsent, hwalk, hclock, hactive, hretry, rationalizeStates_last.2] at hsched
  exact ⟨(calculateTimers_prepared _ _ _ _).2.1.trans hsched.1,
    (calculateTimers_prepared _ _ _ _).1.trans hsched.2⟩

variable (now timeout srttMs) in
theorem calculateTimers_fresh
    (hlast : stateEqual s.rationalizeStates.currentState
      s.rationalizeStates.sentStates.last.state = false) :
    (s.calculateTimers now timeout srttMs).mindelayClock = some (s.mindelayClock.getD now) ∧
      (s.calculateTimers now timeout srttMs).nextSendTime =
        some (max (s.mindelayClock.getD now + s.sendMindelay)
          (s.sentStates.last.timestamp + sendInterval srttMs)) := by
  obtain ⟨hcur, hsent, -, hclock, hdelay, -⟩ :=
    prepared_frame s now timeout
  have hsched := scheduleSend_fresh (s := s.prepared now timeout) now timeout srttMs
    (by rw [hcur, hsent]; exact hlast)
  rw [hsent, hclock, hdelay, rationalizeStates_last.2] at hsched
  exact ⟨(calculateTimers_prepared _ _ _ _).2.1.trans hsched.1,
    (calculateTimers_prepared _ _ _ _).1.trans hsched.2⟩

variable (now t timeout srttMs) in
/-- Nothing new to say, at the second reading. -/
theorem calculateTimers_sent_again [Trimming S]
    (hlast : stateEqual s.rationalizeStates.currentState
      s.rationalizeStates.sentStates.last.state = true) :
    ((s.calculateTimers now timeout srttMs).calculateTimers t timeout srttMs).nextSendTime =
      if (!stateEqual s.rationalizeStates.currentState (s.rationalizeStates.sentStates.get
            (assumeWalk t (timeout + ms ACK_DELAY_MS) s.sentStates.entries.tail)).state
          && s.activeAt t) = true then some (s.rationalizeStates.retryTime srttMs)
      else if (!stateEqual s.rationalizeStates.currentState
          s.rationalizeStates.sentStates.first.state && s.activeAt t) = true then
        some (s.sentStates.last.timestamp + timeout + ms ACK_DELAY_MS)
      else none := by
  obtain ⟨hcur, hsent⟩ := calculateTimers_trimmed s now timeout srttMs
  have hagain := (calculateTimers_sent (s := s.calculateTimers now timeout srttMs) t timeout srttMs
    (by rw [hcur, hsent]; exact hlast)).2
  obtain ⟨-, -, hdelay, hheard, -⟩ := calculateTimers_prepared s now timeout srttMs
  have hclock := (calculateTimers_sent now timeout srttMs hlast).1
  have hactive : (s.calculateTimers now timeout srttMs).activeAt t = s.activeAt t := by
    rw [activeAt, activeAt, hheard]
  have hretry : (s.calculateTimers now timeout srttMs).rationalizeStates.retryTime srttMs
      = s.rationalizeStates.retryTime srttMs := by
    rw [retryTime, retryTime, hsent, rationalizeStates_rest.1, rationalizeStates_rest.2.1,
      rationalizeStates_rest.1, rationalizeStates_rest.2.1, hclock, hdelay]
  rw [hcur, hsent, hactive, hretry, calculateTimers_frame.1, assumeWalk_rationalizeStates,
    rationalizeStates_last.2] at hagain
  exact hagain

/-- With no unacknowledged state assumed received, a send that is due is a
retransmission. -/
theorem due_iff_fallsBack {u v : TransportSender S} {send : Option Nat}
    (hcur : v.currentState = u.currentState) (hsent : v.sentStates = u.sentStates)
    (hassumed : v.assumedReceiverState = 0)
    (hlast : stateEqual u.currentState u.sentStates.last.state = true)
    (hzero : assumeWalk t (timeout + ms ACK_DELAY_MS) u.sentStates.entries.tail = 0)
    (hsend : v.nextSendTime =
      if (!stateEqual u.currentState u.sentStates.first.state && u.activeAt t) = true then
        some (u.retryTime srttMs)
      else if (!stateEqual u.currentState u.sentStates.first.state && u.activeAt t) = true then
        send
      else none) :
    ((v.nextSendTime.any fun d => t ≥ d) = true ∧
      (v.attemptProspectiveResendOptimization (diffFrom v.currentState
        (v.sentStates.get v.assumedReceiverState).state)).2 ≠ []) ↔
      FallsBack u t timeout srttMs := by
  rw [prospectiveResend_zero hassumed, hcur, hsent, hassumed, History.get_zero, hsend]
  constructor
  · rintro ⟨hdue, hdiff⟩
    split at hdue
    · next hretry =>
        rw [Bool.and_eq_true, Bool.not_eq_true'] at hretry
        rw [Option.any_some, decide_eq_true_eq] at hdue
        refine ⟨hlast, hretry.1, hretry.2, ?_, hdue, hdiff⟩
        cases hsecond : u.sentStates.entries.tail[0]? with
        | some e =>
            rw [List.getElem?_tail] at hsecond
            exact ⟨e, hsecond, (assumeWalk_aged (List.getElem?_tail.trans hsecond)).mp hzero⟩
        | none =>
            -- a single entry is the first and the last one
            have hnil : u.sentStates.entries.tail = [] :=
              List.length_eq_zero_iff.mp (Nat.le_zero.mp (List.getElem?_eq_none_iff.mp hsecond))
            have hone : u.sentStates.last = u.sentStates.first := by
              have hlen : u.sentStates.length - 1 = 0 := by
                rw [History.length, ← List.length_tail, hnil]
                rfl
              rw [← History.get_last, hlen, History.get_zero]
            rw [hone, hretry.1] at hlast
            cases hlast
    · cases hdue
  · intro h
    have hretry : (!stateEqual u.currentState u.sentStates.first.state && u.activeAt t) = true := by
      rw [h.unacked, h.active]
      rfl
    rw [if_pos hretry]
    exact ⟨decide_eq_true h.due, h.diff⟩

/-- The deadline computed now is at most the one in force at `t`, unless the
sender has fallen back by then. -/
theorem tick_after_wait [Trimming S] (hinv : SenderInv clock s) (hle : now ≤ t)
    (hearly : t < now + ms (s.waitTimeMs now timeout srttMs true).2) :
    ((s.waitTimeMs now timeout srttMs true).1.tick t timeout srttMs true chaff).2 = none ↔
      ¬ FallsBack s.rationalizeStates t timeout srttMs := by
  obtain ⟨hwait, hack, hsend⟩ := waitTimeMs_early hle hearly
  rw [hwait, tick_of_ackEarly (by rw [calculateTimers_nextAck_again hle]; exact hack)]
  cases hlast : stateEqual s.rationalizeStates.currentState
      s.rationalizeStates.sentStates.last.state with
  | false =>
      -- the same deadline at both readings
      obtain ⟨hclock, hnow⟩ :=
        calculateTimers_fresh now timeout srttMs hlast
      obtain ⟨hcur, hsent⟩ := calculateTimers_trimmed s now timeout srttMs
      have hthen := (calculateTimers_fresh (s := s.calculateTimers now timeout srttMs) t timeout
        srttMs (by rw [hcur, hsent]; exact hlast)).2
      rw [hclock, (calculateTimers_prepared _ _ _ _).2.2.1, calculateTimers_frame.1,
        rationalizeStates_last.2, Option.getD_some, ← hnow] at hthen
      rw [hthen, hnow]
      have hd := hsend _ hnow
      refine iff_of_true (fun h => ?_) fun h => ?_
      · rw [Option.any_some, decide_eq_true_eq] at h
        exact Nat.not_lt.mpr h.1 hd
      · rw [h.sent] at hlast
        cases hlast
  | true =>
      have hthen := calculateTimers_sent_again now t timeout srttMs hlast
      rcases @assumeWalk_eq _ t (timeout + ms ACK_DELAY_MS) _
        (hinv.times.sublist (List.tail_sublist _)) with hzero | hall
      · rw [hzero, History.get_zero] at hthen
        rw [← activeAt_rationalizeStates] at hthen
        refine not_congr (due_iff_fallsBack ?_ ?_ ?_ hlast ?_ hthen)
        · exact calculateTimers_frame.2.1.trans (calculateTimers_trimmed _ _ _ _).1
        · exact calculateTimers_frame.1.trans (calculateTimers_trimmed _ _ _ _).2
        · rw [(calculateTimers_prepared _ _ _ _).2.2.2.2, calculateTimers_frame.1,
            assumeWalk_rationalizeStates, hzero]
        · rw [assumeWalk_rationalizeStates, hzero]
      · -- the newest entry is assumed received at both readings
        have hnow := (calculateTimers_sent now timeout srttMs hlast).2
        have hmono := @assumeWalk_mono _ _ _ (timeout + ms ACK_DELAY_MS) hle
          s.sentStates.entries.tail
        have hsame : assumeWalk now (timeout + ms ACK_DELAY_MS) s.sentStates.entries.tail
            = s.sentStates.entries.tail.length :=
          Nat.le_antisymm (assumeWalk_le _) (hall ▸ hmono)
        have hnewest : s.rationalizeStates.sentStates.get s.sentStates.entries.tail.length
            = s.rationalizeStates.sentStates.last := by
          have hlen := (rationalizeStates_frame (s := s)).2.2.2.2
          rw [History.length, History.length] at hlen
          rw [List.length_tail, ← hlen]
          exact History.get_last _
        rw [hall, hnewest, hlast] at hthen
        rw [hsame, hnewest, hlast] at hnow
        simp only [Bool.not_true, Bool.false_and, Bool.false_eq_true, if_false] at hthen hnow
        refine iff_of_true (fun h => ?_) fun h => ?_
        · obtain ⟨hdue, -⟩ := h
          rw [hthen] at hdue
          split at hdue
          · next hactive =>
              rw [Bool.and_eq_true] at hactive
              rw [if_pos (by rw [Bool.and_eq_true]; exact ⟨hactive.1, activeAt_mono hle hactive.2⟩)]
                at hnow
              rw [Option.any_some, decide_eq_true_eq] at hdue
              exact Nat.not_lt.mpr hdue (hsend _ hnow)
          · cases hdue
        · obtain ⟨e, he, hage⟩ := h.aged
          rw [← List.getElem?_tail] at he
          have hnone := (assumeWalk_aged he).mpr hage
          rw [assumeWalk_rationalizeStates, hall, List.length_tail] at hnone
          obtain ⟨hlt, -⟩ := List.getElem?_eq_some_iff.mp he
          have hlen := (rationalizeStates_frame (s := s)).2.2.2.2
          rw [History.length, History.length] at hlen
          rw [List.length_tail, hlen, hnone] at hlt
          exact absurd hlt (Nat.lt_irrefl 0)

end TransportSender

/-- From every reachable sender: before the time waited is over a tick emits
nothing, unless the sender falls back to retransmitting by then, and then it
does emit. -/
theorem SenderRun.wait_covers_tick [Trimming S] (act : S → E → S) (start : Reading) (init : S)
    (ops : List (SenderOp E)) (r : SenderRun S)
    (hrun : Run.run (SenderRun.step act) (SenderRun.start start init) ops = some r)
    (now t timeout srttMs : Nat) (chaff : Bytes) (hle : now ≤ t)
    (hearly : t < now + ms (r.sender.waitTimeMs now timeout srttMs true).2) :
    ((r.sender.waitTimeMs now timeout srttMs true).1.tick t timeout srttMs true chaff).2 = none ↔
      ¬ FallsBack r.sender.rationalizeStates t timeout srttMs :=
  TransportSender.tick_after_wait ((Orderly.start start init).run hrun).inv hle hearly

section Runs

/-- Two keys sent 160 ms apart to a peer that has been heard from, and neither
acknowledged. -/
def unanswered : Option (SenderRun UserStream) :=
  Run.run (SenderRun.step UserStream.push) (SenderRun.start 0 .new)
    [.edit (.userByte 97), .tick 0 1000000000 250 true [], .remoteHeard 10000000,
      .edit (.userByte 98), .waitTime 150000000 1000000000 250 true,
      .tick 160000000 1000000000 250 true []]

/-- At 500 ms the sender asks to be woken at 1260 ms; at 1150 ms it would have
retransmitted. -/
theorem SenderRun.tick_before_wake :
    ∃ r, unanswered = some r ∧
      1150000000 < 500000000 + ms (r.sender.waitTimeMs 500000000 1000000000 250 true).2 ∧
      ((r.sender.waitTimeMs 500000000 1000000000 250 true).1.tick 1150000000 1000000000 250 true
        []).2 ≠ none :=
  ⟨unanswered.get (by decide +kernel), (Option.some_get _).symm, by decide +kernel,
    by decide +kernel⟩

theorem SenderRun.wait_covers_tick_unanswered :
    ∃ r, unanswered = some r ∧
      (((r.sender.waitTimeMs 500000000 1000000000 250 true).1.tick 900000000 1000000000 250 true
        []).2 = none ↔ ¬ FallsBack r.sender.rationalizeStates 900000000 1000000000 250) :=
  ⟨unanswered.get (by decide +kernel), (Option.some_get _).symm,
    SenderRun.wait_covers_tick _ 0 _ _ _ (Option.some_get _).symm _ _ _ _ _ (by decide)
      (by decide +kernel)⟩

end Runs

end Morsh
