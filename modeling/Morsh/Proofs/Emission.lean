import Morsh.Proofs.SenderInv

/-!
# One tick, read back

`tick_emission` says everything an emitting tick does: the instruction is a
diff of the current state against an entry `ref` of the history, it names that
entry's number although the history may have shifted under the index in
between, and the current state was recorded under the number it announces,
either by a new stamp on the last entry or by a push and at most one eviction.
The index survives because it is always the first entry or the last one, and
the eviction takes neither.

Three functions can emit: an empty ack, a data packet, and neither. Each gets one
lemma that says which entry it names, which number it announces and how the
history is left. `decide_cases` puts them together after the timers, and it is
the only place where the branches of `tick` are gone through; whatever is proved
later about a tick starts from the `Emission` it gives.
-/

namespace Morsh

open State

variable {S : Type} [State S]

/-- How a send leaves the history: the number was already the last one and is
stamped again, or the current state is pushed under it. -/
inductive Recorded (s : TransportSender S) (now n : Nat) : History S → Prop
  | again (hnum : n = s.sentStates.last.num)
      (hequal : s.shutdownInProgress = false →
        stateEqual s.currentState s.sentStates.last.state = true)
      (hshut : s.shutdownInProgress = true → n = SHUTDOWN_NUM) :
      Recorded s now n (s.sentStates.stampLast now)
  | fresh (hnum : n = if s.shutdownInProgress then SHUTDOWN_NUM
        else wrappingSucc s.sentStates.last.num) :
      Recorded s now n (s.sentStates.push ⟨now, n, clone s.currentState⟩).evict

/-- An emitting tick, from the sender as its timers left it. -/
structure Emission (s s' : TransportSender S) (now : Nat) (inst : Instruction)
    (ref : TimestampedState S) (n : Nat) : Prop where
  ref_mem : ref ∈ s.sentStates.entries
  version : inst.protocolVersion = some MORSH_PROTOCOL_VERSION
  oldNum : inst.oldNum = some ref.num
  newNum : inst.newNum = some n
  ackNum : inst.ackNum = some s.ackNum
  throwaway : inst.throwawayNum = some s.sentStates.first.num
  diff : inst.diff = some (diffFrom s.currentState ref.state)
  recorded : Recorded s now n s'.sentStates
  current : s'.currentState = s.currentState
  shutdown : s'.shutdownInProgress = s.shutdownInProgress
  ack : s'.ackNum = s.ackNum
  nextAck : s'.nextAckTime = now + ms ACK_INTERVAL_MS

/-- Two senders that differ in the index and the deadlines only. -/
structure Quiet (s s' : TransportSender S) : Prop where
  sentStates : s'.sentStates = s.sentStates
  current : s'.currentState = s.currentState
  shutdown : s'.shutdownInProgress = s.shutdownInProgress
  ack : s'.ackNum = s.ackNum
  nextAck : s'.nextAckTime = s.nextAckTime

omit [State S] in
theorem Quiet.refl (s : TransportSender S) : Quiet s s := ⟨rfl, rfl, rfl, rfl, rfl⟩

theorem Quiet.emission {now n : Nat} {a t s' : TransportSender S} {inst : Instruction}
    {ref : TimestampedState S} (hq : Quiet t a) (he : Emission a s' now inst ref n) :
    Emission t s' now inst ref n := by
  obtain ⟨hsent, hcur, hshut, hack, -⟩ := hq
  have hrec : Recorded t now n s'.sentStates := by
    have hr := he.recorded
    generalize s'.sentStates = h' at hr ⊢
    cases hr with
    | again h₁ h₂ h₃ =>
        rw [hsent] at h₁ h₂ ⊢
        rw [hcur, hshut] at h₂
        rw [hshut] at h₃
        exact .again h₁ h₂ h₃
    | fresh h₁ =>
        rw [hsent, hshut] at h₁
        rw [hsent, hcur]
        exact .fresh h₁
  exact ⟨hsent ▸ he.ref_mem, he.version, he.oldNum, he.newNum, hack ▸ he.ackNum,
    hsent ▸ he.throwaway, hcur ▸ he.diff, hrec, hcur ▸ he.current, hshut ▸ he.shutdown,
    hack ▸ he.ack, he.nextAck⟩

theorem Emission.quiet {now n : Nat} {t s' s'' : TransportSender S} {inst : Instruction}
    {ref : TimestampedState S} (he : Emission t s' now inst ref n) (hq : Quiet s' s'') :
    Emission t s'' now inst ref n :=
  ⟨he.ref_mem, he.version, he.oldNum, he.newNum, he.ackNum, he.throwaway, he.diff,
    hq.sentStates ▸ he.recorded, hq.current.trans he.current,
    hq.shutdown.trans he.shutdown, hq.ack.trans he.ack, hq.nextAck.trans he.nextAck⟩

namespace TransportSender

variable {s : TransportSender S} {now n timeout srttMs : Nat} {chaff diff : Bytes}

/-- The assumed receiver state is the first entry or the last. -/
def Aimed (s : TransportSender S) : Prop :=
  s.assumedReceiverState = 0 ∨ s.assumedReceiverState = s.sentStates.length - 1

omit [State S] in
theorem addSentState_frame {t : Nat} {st : S} :
    (s.addSentState t n st).sentStates = (s.sentStates.push ⟨t, n, st⟩).evict ∧
      (s.addSentState t n st).currentState = s.currentState ∧
      (s.addSentState t n st).shutdownInProgress = s.shutdownInProgress ∧
      (s.addSentState t n st).ackNum = s.ackNum := by
  unfold addSentState History.evict
  simp only []
  split <;> exact ⟨rfl, rfl, rfl, rfl⟩

omit [State S] in
/-- The push and the eviction do not change which entry the index names. -/
theorem addSentState_get {t : Nat} {st : S} (hsize : s.sentStates.length ≤ SENT_STATES_MAX)
    (haim : s.Aimed) :
    (s.addSentState t n st).sentStates.get (s.addSentState t n st).assumedReceiverState
      = s.sentStates.get s.assumedReceiverState := by
  have hpos := s.sentStates.length_pos
  have hlt : s.assumedReceiverState < s.sentStates.length := by
    simp only [History.length] at *
    rcases haim with h | h
    · omega
    · simp only [History.length] at h; omega
  have hlen : (s.sentStates.push ⟨t, n, st⟩).length = s.sentStates.length + 1 :=
    History.push_length _
  unfold addSentState
  simp only []
  split
  · next hfull =>
      simp only [SENT_STATES_MAX, hlen] at hfull hsize ⊢
      have hget := History.remove_get (h := s.sentStates.push ⟨t, n, st⟩) (i := 17)
        (j := s.assumedReceiverState) (by rw [hlen]; omega) (by rw [hlen]; omega)
        (by rcases haim with h | h <;> omega)
      rw [History.push_get hlt] at hget
      rw [show s.sentStates.length + 1 - 16 = 17 by omega]
      exact hget
  · exact History.push_get hlt

theorem sendEmptyAck_emission (hsize : s.sentStates.length ≤ SENT_STATES_MAX)
    (haim : s.Aimed)
    (hdiff : diffFrom s.currentState (s.sentStates.get s.assumedReceiverState).state = []) :
    ∃ k, Emission s (s.sendEmptyAck now chaff).1 now (s.sendEmptyAck now chaff).2
      (s.sentStates.get s.assumedReceiverState) k := by
  refine ⟨if s.shutdownInProgress then SHUTDOWN_NUM else wrappingSucc s.sentStateLast, ?_⟩
  obtain ⟨hsent, hcur, hshut, hack⟩ := @addSentState_frame _ s
    (if s.shutdownInProgress then SHUTDOWN_NUM else wrappingSucc s.sentStateLast) now
    (clone s.currentState)
  constructor
  · exact History.get_mem _ _
  · rfl
  · simp only [sendEmptyAck, buildInstruction, addSentState_get hsize haim]
  · rfl
  · simp only [sendEmptyAck, buildInstruction, hack]
  · simp only [sendEmptyAck, buildInstruction, hsent, History.evict_first,
      History.push_first]
  · simp only [sendEmptyAck, buildInstruction, hdiff]
  · simp only [sendEmptyAck, buildInstruction, hsent]
    exact Recorded.fresh rfl
  · simp only [sendEmptyAck, buildInstruction, hcur]
  · simp only [sendEmptyAck, buildInstruction, hshut]
  · simp only [sendEmptyAck, buildInstruction, hack]
  · rfl

/-- The number a data packet announces is the last one, with nothing new to
record, or the next one. -/
theorem dataNum_cases (hne : wrappingSucc s.sentStateLast ≠ s.sentStateLast) :
    (s.dataNum = s.sentStateLast ∧
      (s.shutdownInProgress = false →
        stateEqual s.currentState s.sentStates.last.state = true) ∧
      (s.shutdownInProgress = true → s.dataNum = SHUTDOWN_NUM)) ∨
    (s.dataNum ≠ s.sentStateLast ∧
      s.dataNum = if s.shutdownInProgress then SHUTDOWN_NUM
        else wrappingSucc s.sentStateLast) := by
  unfold dataNum
  by_cases hshut : s.shutdownInProgress = true
  · simp only [hshut, if_true]
    by_cases hlast : SHUTDOWN_NUM = s.sentStateLast
    · exact Or.inl ⟨hlast, by simp, by simp⟩
    · exact Or.inr ⟨hlast, trivial⟩
  · simp only [Bool.not_eq_true] at hshut
    simp only [hshut, Bool.false_eq_true, if_false]
    by_cases heq : stateEqual s.currentState s.sentStates.last.state = true
    · rw [if_pos heq]
      exact Or.inl ⟨rfl, fun _ => heq, by simp⟩
    · rw [if_neg heq]
      exact Or.inr ⟨hne, rfl⟩

theorem sendToReceiver_emission (hsize : s.sentStates.length ≤ SENT_STATES_MAX)
    (haim : s.Aimed) (hne : wrappingSucc s.sentStateLast ≠ s.sentStateLast)
    (hdiff : diffFrom s.currentState (s.sentStates.get s.assumedReceiverState).state = diff) :
    ∃ k, Emission s (s.sendToReceiver diff now chaff).1 now
      (s.sendToReceiver diff now chaff).2 (s.sentStates.get s.assumedReceiverState) k := by
  refine ⟨s.dataNum, ?_⟩
  rcases dataNum_cases hne with ⟨hnum, hequal, hshut⟩ | ⟨hnum, hfresh⟩
  · -- the number is not new: the last entry is stamped in place
    have hbeq : (s.dataNum == s.sentStateLast) = true := by simpa using hnum
    have hget : (s.sentStates.stampLast now).get s.assumedReceiverState
        = if s.assumedReceiverState = s.sentStates.length - 1
          then { s.sentStates.last with timestamp := now }
          else s.sentStates.get s.assumedReceiverState :=
      History.stampLast_get (by
        have hpos := s.sentStates.length_pos
        simp only [History.length] at *
        rcases haim with h | h
        · omega
        · simp only [History.length] at h; omega)
    have hgetnum : ((s.sentStates.stampLast now).get s.assumedReceiverState).num
        = (s.sentStates.get s.assumedReceiverState).num := by
      rw [hget]
      split
      · next hlast => rw [hlast, History.get_last]
      · rfl
    constructor
    · exact History.get_mem _ _
    · simp only [sendToReceiver, hbeq, if_true]; rfl
    · simp only [sendToReceiver, hbeq, if_true, buildInstruction, hgetnum]
    · simp only [sendToReceiver, hbeq, if_true, buildInstruction]
    · simp only [sendToReceiver, hbeq, if_true, buildInstruction]
    · simp only [sendToReceiver, hbeq, if_true, buildInstruction,
        (History.stampLast_first _).1]
    · simp only [sendToReceiver, hbeq, if_true, buildInstruction, hdiff]
    · simp only [sendToReceiver, hbeq, if_true, buildInstruction]
      exact Recorded.again hnum hequal hshut
    · simp only [sendToReceiver, hbeq, if_true, buildInstruction]
    · simp only [sendToReceiver, hbeq, if_true, buildInstruction]
    · simp only [sendToReceiver, hbeq, if_true, buildInstruction]
    · simp only [sendToReceiver, hbeq, if_true, buildInstruction]
  · have hbeq : (s.dataNum == s.sentStateLast) = false := by simpa using hnum
    obtain ⟨hsent, hcur, hshut, hack⟩ := @addSentState_frame _ s s.dataNum now
      (clone s.currentState)
    constructor
    · exact History.get_mem _ _
    · simp only [sendToReceiver, hbeq, Bool.false_eq_true, if_false]; rfl
    · simp only [sendToReceiver, hbeq, Bool.false_eq_true, if_false, buildInstruction,
        addSentState_get hsize haim]
    · simp only [sendToReceiver, hbeq, Bool.false_eq_true, if_false, buildInstruction]
    · simp only [sendToReceiver, hbeq, Bool.false_eq_true, if_false, buildInstruction, hack]
    · simp only [sendToReceiver, hbeq, Bool.false_eq_true, if_false, buildInstruction,
        hsent, History.evict_first, History.push_first]
    · simp only [sendToReceiver, hbeq, Bool.false_eq_true, if_false, buildInstruction, hdiff]
    · simp only [sendToReceiver, hbeq, Bool.false_eq_true, if_false, buildInstruction, hsent]
      exact Recorded.fresh hfresh
    · simp only [sendToReceiver, hbeq, Bool.false_eq_true, if_false, buildInstruction, hcur]
    · simp only [sendToReceiver, hbeq, Bool.false_eq_true, if_false, buildInstruction, hshut]
    · simp only [sendToReceiver, hbeq, Bool.false_eq_true, if_false, buildInstruction, hack]
    · simp only [sendToReceiver, hbeq, Bool.false_eq_true, if_false, buildInstruction]

theorem prospectiveResend_spec (haim : s.Aimed) :
    ∃ a, (s.attemptProspectiveResendOptimization
        (diffFrom s.currentState (s.sentStates.get s.assumedReceiverState).state))
      = (a, diffFrom a.currentState (a.sentStates.get a.assumedReceiverState).state) ∧
      Quiet s a ∧ a.nextSendTime = s.nextSendTime ∧ a.Aimed := by
  unfold attemptProspectiveResendOptimization
  split
  · exact ⟨s, rfl, Quiet.refl s, rfl, haim⟩
  · simp only []
    split
    · refine ⟨{ s with assumedReceiverState := 0 }, ?_, ⟨rfl, rfl, rfl, rfl, rfl⟩, rfl,
        Or.inl rfl⟩
      simp only [History.get_zero]
    · exact ⟨s, rfl, Quiet.refl s, rfl, haim⟩

/-- The decision `tick` takes once the timers are set: nothing, or one
instruction. -/
theorem decide_cases {t : TransportSender S} (hsize : t.sentStates.length ≤ SENT_STATES_MAX)
    (haim : t.Aimed) (hne : wrappingSucc t.sentStateLast ≠ t.sentStateLast)
    (htimers : s.calculateTimers now timeout srttMs = t) (remote : Bool) :
    (Quiet t (s.tick now timeout srttMs remote chaff).1 ∧
      (s.tick now timeout srttMs remote chaff).2 = none) ∨
    ∃ inst ref k, (s.tick now timeout srttMs remote chaff).2 = some inst ∧
      Emission t (s.tick now timeout srttMs remote chaff).1 now inst ref k ∧
      (now ≥ t.nextAckTime ∨ ∃ d, t.nextSendTime = some d ∧ now ≥ d) := by
  obtain ⟨a, hres, hq, hsend, haim'⟩ := prospectiveResend_spec haim
  have hany : (t.nextSendTime.any fun d => decide (now ≥ d)) = true →
      ∃ d, t.nextSendTime = some d ∧ now ≥ d := by
    intro h
    cases hd : t.nextSendTime with
    | none => rw [hd] at h; cases h
    | some d => rw [hd] at h; exact ⟨d, rfl, by simpa using h⟩
  have hsize' : a.sentStates.length ≤ SENT_STATES_MAX := by rw [hq.sentStates]; exact hsize
  have hne' : wrappingSucc a.sentStateLast ≠ a.sentStateLast := by
    rw [sentStateLast, hq.sentStates]; exact hne
  unfold tick
  simp only [htimers, hres]
  split
  · exact Or.inl ⟨Quiet.refl t, rfl⟩
  · split
    · exact Or.inl ⟨Quiet.refl t, rfl⟩
    · next hdue =>
        have hdue : now ≥ t.nextAckTime ∨ ∃ d, t.nextSendTime = some d ∧ now ≥ d := by
          by_cases hack : now ≥ t.nextAckTime
          · exact Or.inl hack
          · exact Or.inr (hany (by simpa [hack] using hdue))
        split
        · next hempty =>
            have hnil : diffFrom a.currentState
                (a.sentStates.get a.assumedReceiverState).state = [] := by
              simpa using hempty
            by_cases hack : now ≥ t.nextAckTime
            · obtain ⟨k, hem⟩ := @sendEmptyAck_emission _ _ _ now chaff
                hsize' haim' hnil
              refine Or.inr ⟨(a.sendEmptyAck now chaff).2, _, k, ?_,
                hq.emission (hem.quiet ?_), hdue⟩
              · simp only [hack, decide_true, if_true]
                split <;> rfl
              · simp only [hack, decide_true, if_true]
                split <;> exact ⟨rfl, rfl, rfl, rfl, rfl⟩
            · refine Or.inl ?_
              simp only [hack, decide_false, Bool.false_eq_true, if_false]
              split
              · exact ⟨⟨hq.sentStates, hq.current, hq.shutdown, hq.ack, hq.nextAck⟩, rfl⟩
              · exact ⟨hq, rfl⟩
        · obtain ⟨k, hem⟩ := @sendToReceiver_emission _ _ _ now chaff _
            hsize' haim' hne' rfl
          exact Or.inr ⟨(a.sendToReceiver _ now chaff).2, _, k, rfl,
            hq.emission (hem.quiet ⟨rfl, rfl, rfl, rfl, rfl⟩), hdue⟩

end TransportSender

end Morsh
