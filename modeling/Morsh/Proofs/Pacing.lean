import Mathlib.Data.List.Chain
import Morsh.Network.SenderRun
import Morsh.Proofs.SenderOps
import Morsh.Statesync.Wire

/-!
# The pace of a sender

Both deadlines hang on the last emission: the newest entry of the history is
stamped with its time, no send is due within 20 ms of that stamp, and the ack
deadline lies between 20 ms and 3000 ms after it. An acknowledgment drops
entries, but never the newest one.

`Paced` relates the stamp of the newest entry and the ack deadline to the time of
the last emission, and the timers keep it, since neither deadline they compute
falls within 20 ms of that stamp. A tick that emits stamps the newest entry anew
and postpones the ack, so it starts over from its own time. Everything else the
owner of a sender may call leaves both alone (`Frame`). The theorem is then read
off `Orderly`, the invariant of a run with the times of its emissions: the gap
from below is that a send is not due earlier, the bound from above that past the
ack deadline a tick emits whatever there is to say.
-/

namespace Morsh

variable {E S : Type} [State S]

/-- The newest entry was stamped at `last`, and the ack deadline follows it. -/
structure Paced (last : Nat) (s : TransportSender S) : Prop where
  stamp : s.sentStates.last.timestamp = last
  after : last + ms SEND_INTERVAL_MIN_MS ≤ s.nextAckTime
  before : s.nextAckTime ≤ last + ms ACK_INTERVAL_MS

variable {s s' : TransportSender S} {last now timeout srttMs clock : Nat} {chaff : Bytes}

omit [State S] in
theorem Paced.of_frame (h : Paced last s) (hsent : s'.sentStates = s.sentStates)
    (hack : s'.nextAckTime = s.nextAckTime) : Paced last s' :=
  ⟨by rw [hsent]; exact h.stamp, by rw [hack]; exact h.after, by rw [hack]; exact h.before⟩

theorem sendInterval_le (srttMs : Nat) : sendInterval srttMs ≤ ms ACK_INTERVAL_MS := by
  simp only [sendInterval, ms, SEND_INTERVAL_MIN_MS, SEND_INTERVAL_MAX_MS, ACK_INTERVAL_MS]
  omega

theorem Paced.calculateTimers (h : Paced last s) (hnow : last ≤ now) :
    Paced last (s.calculateTimers now timeout srttMs) := by
  obtain ⟨hstamp, hafter, hbefore⟩ := h
  have hlow := ms_le_sendInterval srttMs
  have hhigh := sendInterval_le srttMs
  have hdelay : ms SEND_INTERVAL_MIN_MS ≤ ms ACK_DELAY_MS := by decide
  have hframe := TransportSender.rationalizeStates_frame
    (s := s.updateAssumedReceiverState now timeout)
  have hlast := TransportSender.rationalizeStates_last
    (s := s.updateAssumedReceiverState now timeout)
  have hack : (s.updateAssumedReceiverState now timeout).nextAckTime = s.nextAckTime := rfl
  have hsent : (s.updateAssumedReceiverState now timeout).sentStates = s.sentStates := rfl
  have hstamp' : (s.calculateTimers now timeout srttMs).sentStates.last.timestamp = last := by
    rw [TransportSender.calculateTimers_frame.1, TransportSender.rationalizeStates_last.2, hstamp]
  suffices hdue : last + ms SEND_INTERVAL_MIN_MS
        ≤ (s.calculateTimers now timeout srttMs).nextAckTime ∧
      (s.calculateTimers now timeout srttMs).nextAckTime ≤ last + ms ACK_INTERVAL_MS from
    ⟨hstamp', hdue.1, hdue.2⟩
  unfold TransportSender.calculateTimers TransportSender.paceShutdown
  split
  · simp only [TransportSender.scheduleSend_sentStates, TransportSender.hastenAck_frame, hlast,
      hsent, hstamp]
    omega
  · simp only [TransportSender.scheduleSend_frame]
    unfold TransportSender.hastenAck
    split
    · next hpending =>
        simp only [hframe.2.2.1, hack] at hpending ⊢
        omega
    · rw [hframe.2.2.1, hack]
      exact ⟨hafter, hbefore⟩

theorem Emission.paced {inst : Instruction} {ref : TimestampedState S} {n : Nat}
    (hem : Emission s s' now inst ref n) : Paced now s' := by
  have hstamp : s'.sentStates.last.timestamp = now := by
    have hrec := hem.recorded
    generalize s'.sentStates = h at hrec ⊢
    cases hrec with
    | again _ _ _ => rw [History.stampLast_last]
    | fresh _ => rw [History.evict_last, History.push_last]
  refine ⟨hstamp, ?_, ?_⟩
  · rw [hem.nextAck]
    exact Nat.add_le_add_left (by decide) _
  · exact Nat.le_of_eq hem.nextAck

/-- What a tick emits is due, and nothing is due within 20 ms of the last
emission: neither the acknowledgment, which `Paced` keeps away, nor a send, which
the timers never schedule earlier. -/
theorem Paced.due (h : Paced last s) (hnow : last ≤ now)
    (hdue : now ≥ (s.calculateTimers now timeout srttMs).nextAckTime ∨
      ∃ d, (s.calculateTimers now timeout srttMs).nextSendTime = some d ∧ now ≥ d) :
    last + ms SEND_INTERVAL_MIN_MS ≤ now := by
  rcases hdue with hack | ⟨d, hsend, hd⟩
  · exact Nat.le_trans (h.calculateTimers hnow).after hack
  · have hlast := TransportSender.rationalizeStates_last
      (s := s.updateAssumedReceiverState now timeout)
    have hsent : (s.updateAssumedReceiverState now timeout).sentStates = s.sentStates := rfl
    simp only [TransportSender.calculateTimers, TransportSender.paceShutdown_frame] at hsend
    have hmin := TransportSender.scheduleSend_due hsend
    simp only [TransportSender.hastenAck_frame, hlast, hsent, h.stamp] at hmin
    exact Nat.le_trans hmin hd

/-- A tick that emits has met one of the deadlines. -/
theorem due_of_tick {remote : Bool} {inst : Instruction}
    (h : (s.tick now timeout srttMs remote chaff).2 = some inst) :
    now ≥ (s.calculateTimers now timeout srttMs).nextAckTime ∨
      ∃ d, (s.calculateTimers now timeout srttMs).nextSendTime = some d ∧ now ≥ d := by
  by_cases hack : now ≥ (s.calculateTimers now timeout srttMs).nextAckTime
  · exact Or.inl hack
  · refine Or.inr ?_
    cases hsend : (s.calculateTimers now timeout srttMs).nextSendTime with
    | none =>
        unfold TransportSender.tick at h
        simp [hack, hsend] at h
    | some d =>
        refine ⟨d, rfl, ?_⟩
        by_cases hd : now ≥ d
        · exact hd
        · unfold TransportSender.tick at h
          simp [hack, hsend, hd] at h

theorem tick_of_ackDue (hdue : (s.calculateTimers now timeout srttMs).nextAckTime ≤ now) :
    (s.tick now timeout srttMs true chaff).2.isSome = true := by
  unfold TransportSender.tick
  simp only [ge_iff_le, hdue, decide_true, Bool.not_true, Bool.false_eq_true, if_false,
    Bool.and_false, if_true]
  split
  · split <;> rfl
  · rfl

/-! ## Runs -/

namespace SenderRun

variable {act : S → E → S} {r r' : SenderRun S}

/-- The owner's calls other than `tick` leave the newest entry and the ack
deadline alone, but for what `calculate_timers` does to them. -/
structure Frame (s s' : TransportSender S) : Prop where
  inv : ∀ {clock}, SenderInv clock s → SenderInv clock s'
  paced : ∀ {last clock}, SenderInv clock s → Paced last s → Paced last s'

omit [State S] in
theorem Frame.of_frame (hsent : s'.sentStates = s.sentStates)
    (hack : s'.nextAckTime = s.nextAckTime)
    (hshut : s'.shutdownInProgress = false → s.shutdownInProgress = false) : Frame s s' :=
  ⟨fun h => h.of_frame hsent hack hshut, fun _ h => h.of_frame hsent hack⟩

omit [State S] in
theorem Frame.ack (num : Nat) : Frame s (s.processAcknowledgmentThrough num) := by
  refine ⟨fun h => h.ack num, fun hinv h => ?_⟩
  rcases processAcknowledgmentThrough_cases hinv num with heq | ⟨-, hsent, -, -, hlast⟩
  · rw [heq]; exact h
  · have hnext := (processAcknowledgmentThrough_frame (s := s) num).2.2.2
    exact ⟨by rw [hsent, hlast]; exact h.stamp, by rw [hnext]; exact h.after,
      by rw [hnext]; exact h.before⟩

/-- What one call does to a sender in order: a tick, some time passing, or
neither. -/
theorem step_cases {op : SenderOp E} (h : step act r op = some r') :
    (∃ (now : Reading) (timeout srttMs : Nat) (remote : Bool) (chaff : Bytes),
      r.clock ≤ now.val ∧ r'.clock = now.val ∧
      r'.sender = (r.sender.tick now timeout srttMs remote chaff).1 ∧
      r'.emitted = r.emitted ++
        (r.sender.tick now timeout srttMs remote chaff).2.toList.map fun inst => (now.val, inst)) ∨
    (∃ (now : Reading) (timeout srttMs : Nat),
      r.clock ≤ now.val ∧ r'.clock = now.val ∧ r'.emitted = r.emitted ∧
      r'.sender = r.sender.calculateTimers now timeout srttMs) ∨
    (r'.clock = r.clock ∧ r'.emitted = r.emitted ∧ Frame r.sender r'.sender) := by
  cases op with
  | tick now timeout srttMs remote chaff =>
      simp only [step] at h
      split at h
      · cases h
      · next hnow =>
          cases h
          exact Or.inl ⟨now, timeout, srttMs, remote, chaff, Nat.not_lt.mp hnow, rfl, rfl, rfl⟩
  | waitTime now timeout srttMs remote =>
      simp only [step] at h
      split at h
      · cases h
      · next hnow =>
          cases h
          refine Or.inr (Or.inl ⟨now, timeout, srttMs, Nat.not_lt.mp hnow, rfl, rfl, ?_⟩)
          unfold TransportSender.waitTimeMs
          simp only []
          split <;> rfl
  | acknowledge num =>
      cases h
      exact Or.inr (Or.inr ⟨rfl, rfl, .ack num⟩)
  | startShutdown now =>
      cases h
      refine Or.inr (Or.inr ⟨rfl, rfl, fun hinv => hinv.startShutdown now, fun _ hp => ?_⟩)
      change Paced _ (r.sender.startShutdown now)
      unfold TransportSender.startShutdown
      split
      · exact hp
      · exact hp.of_frame rfl rfl
  | edit _ | setAckNum _ | setDataAck | remoteHeard _ =>
      cases h
      exact Or.inr (Or.inr ⟨rfl, rfl, .of_frame rfl rfl fun hs => hs⟩)

/-- The invariant of a run: emissions 20 ms apart, and the deadlines tied to
the last of them. -/
structure Orderly (r : SenderRun S) : Prop where
  inv : SenderInv r.clock r.sender
  apart : (r.emitted.map Prod.fst).IsChain fun a b => a + ms SEND_INTERVAL_MIN_MS ≤ b
  paced : ∀ last ∈ (r.emitted.map Prod.fst).getLast?, last ≤ r.clock ∧ Paced last r.sender

theorem Orderly.step {op : SenderOp E} (h : Orderly r) (hstep : step act r op = some r') :
    Orderly r' := by
  obtain ⟨hinv, hapart, hpaced⟩ := h
  rcases step_cases hstep with ⟨now, timeout, srttMs, remote, chaff, hnow, hclock, hsender, hemit⟩ |
    ⟨now, timeout, srttMs, hnow, hclock, hemit, hsender⟩ | ⟨hclock, hemit, hframe⟩
  · obtain ⟨-, hinv', hcase⟩ :=
      TransportSender.tick_cases hinv hnow now.isLt timeout srttMs remote chaff
    rw [← hsender, ← hclock] at hinv'
    rcases hcase with ⟨hquiet, hnone⟩ | ⟨inst, ref, k, hsome, hem⟩
    · rw [hnone, Option.toList_none, List.map_nil, List.append_nil] at hemit
      refine ⟨hinv', hemit ▸ hapart, fun last hlast => ?_⟩
      rw [hemit] at hlast
      obtain ⟨hle, hp⟩ := hpaced last hlast
      refine ⟨Nat.le_trans hle (Nat.le_trans hnow (Nat.le_of_eq hclock.symm)), ?_⟩
      rw [hsender]
      exact (hp.calculateTimers (Nat.le_trans hle hnow)).of_frame hquiet.sentStates hquiet.nextAck
    · rw [hsome, Option.toList_some, List.map_singleton] at hemit
      refine ⟨hinv', ?_, fun last hlast => ?_⟩
      · rw [hemit, List.map_append]
        refine hapart.append (List.isChain_singleton _) fun a ha b hb => ?_
        obtain ⟨hle, hp⟩ := hpaced a ha
        rw [List.map_singleton, List.head?_cons, Option.mem_some_iff] at hb
        exact hb ▸ hp.due (Nat.le_trans hle hnow) (due_of_tick hsome)
      · rw [hemit, List.map_append, List.map_singleton, List.getLast?_concat,
          Option.mem_some_iff] at hlast
        refine ⟨Nat.le_of_eq (hlast.symm.trans hclock.symm), ?_⟩
        rw [hsender, ← hlast]
        exact hem.paced
  · refine ⟨?_, hemit ▸ hapart, fun last hlast => ?_⟩
    · rw [hclock, hsender]
      exact hinv.calculateTimers hnow now.isLt timeout srttMs
    · rw [hemit] at hlast
      obtain ⟨hle, hp⟩ := hpaced last hlast
      rw [hclock, hsender]
      exact ⟨Nat.le_trans hle hnow, hp.calculateTimers (Nat.le_trans hle hnow)⟩
  · refine ⟨hclock ▸ hframe.inv hinv, hemit ▸ hapart, fun last hlast => ?_⟩
    rw [hemit] at hlast
    obtain ⟨hle, hp⟩ := hpaced last hlast
    exact ⟨hclock ▸ hle, hframe.paced hinv hp⟩

theorem Orderly.start (now : Reading) (init : S) : Orderly (start now init) :=
  ⟨.new now.isLt init, List.isChain_nil, fun _ h => by cases h⟩

theorem Orderly.run {ops : List (SenderOp E)} (h : Orderly r)
    (hrun : Run.run (SenderRun.step act) r ops = some r') : Orderly r' :=
  Run.run_invariant (fun _ _ _ hs hstep => hs.step hstep) h hrun

/-- Consecutive emissions are 20 ms apart or more, and a tick 3000 ms or more
after the last one emits. -/
theorem emissions_paced (act : S → E → S) (now : Reading) (init : S) (ops : List (SenderOp E))
    (r : SenderRun S) (hrun : Run.run (step act) (start now init) ops = some r) :
    (r.emitted.map Prod.fst).IsChain (fun a b => a + ms 20 ≤ b) ∧
    ∀ last ∈ (r.emitted.map Prod.fst).getLast?, ∀ now, r.clock ≤ now → last + ms 3000 ≤ now →
      ∀ timeout srttMs chaff, (r.sender.tick now timeout srttMs true chaff).2.isSome = true := by
  obtain ⟨-, hapart, hpaced⟩ := (Orderly.start now init).run hrun
  refine ⟨hapart, fun last hlast now hnow hlate timeout srttMs chaff => ?_⟩
  obtain ⟨hle, hp⟩ := hpaced last hlast
  exact tick_of_ackDue (Nat.le_trans (hp.calculateTimers (Nat.le_trans hle hnow)).before hlate)

end SenderRun

/-- A key, a second one while the frame rate forbids a packet, and a shutdown. -/
def hurried : Option (SenderRun UserStream) :=
  Run.run (SenderRun.step UserStream.push) (SenderRun.start 0 .new)
    [.edit (.userByte 97), .tick 0 1000 20 true [], .tick 10000000 1000 20 true [],
      .tick 20000000 1000 20 true [], .edit (.userByte 98), .remoteHeard 25000000,
      .tick 30000000 1000 20 true [], .tick 48000000 1000 20 true [], .acknowledge 1,
      .startShutdown 50000000, .tick 67000000 1000 20 true [], .tick 70000000 1000 20 true []]

theorem SenderRun.emissions_paced_hurried :
    ∃ r, hurried = some r ∧
      r.emitted.map (fun e => (e.1, e.2.newNum)) =
        [(0, some 1), (48000000, some 2), (70000000, some SHUTDOWN_NUM)] ∧
      (r.emitted.map Prod.fst).IsChain (fun a b => a + ms 20 ≤ b) :=
  ⟨hurried.get (by decide +kernel), (Option.some_get _).symm, by decide +kernel,
    (SenderRun.emissions_paced _ _ _ _ _ (Option.some_get _).symm).1⟩

end Morsh
