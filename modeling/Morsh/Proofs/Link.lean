import Morsh.Proofs.Meaning

/-!
# One direction of a session

A sender, the instructions it has put on the network and the receiver at the
other end, under one assignment of values to numbers. `Linked` is what every
operation of either end preserves; an instruction stays on the network for
good, so loss, duplication and reordering are the choice of when, how often
and whether `deliver` uses it.

A step of either end is a lemma of `Meaning` about that end, plus the remark that
the other end and the network know no less than before, since an assignment only
grows. `deliver` is the one operation that looks at both: what it processes was
sent, so it carries the value of one number to that of another.
-/

namespace Morsh

open State

variable {M R : Type} [State M] [State R] {t : Transport M R} {now : Nat}
  {inst : Instruction}

/-! ## `process_instruction`, half by half -/

omit [State M] in
theorem processInstruction_mismatch
    (hver : inst.protocolVersion ≠ some MORSH_PROTOCOL_VERSION) :
    t.processInstruction now inst
      = (t, .error (Transport.versionMismatch inst.protocolVersion)) := by
  rw [Transport.processInstruction, if_pos hver]

omit [State M] in
theorem processInstruction_receiver
    (hver : inst.protocolVersion = some MORSH_PROTOCOL_VERSION) :
    (t.processInstruction now inst).1.receiver
        = (t.receiver.receive now (inst.oldNum.getD 0) (inst.newNum.getD 0)
            (inst.throwawayNum.getD 0) (inst.diff.getD [])).1 ∧
      (t.processInstruction now inst).2
        = (t.receiver.receive now (inst.oldNum.getD 0) (inst.newNum.getD 0)
            (inst.throwawayNum.getD 0) (inst.diff.getD [])).2 := by
  rw [Transport.processInstruction, if_neg (by simpa using hver)]
  exact ⟨rfl, rfl⟩

omit [State M] in
/-- The sending half culls what was acknowledged and, when the instruction
brought a new newest state, notes it. -/
theorem processInstruction_sender
    (hver : inst.protocolVersion = some MORSH_PROTOCOL_VERSION) :
    (t.processInstruction now inst).1.sender.sentStates
        = (t.sender.processAcknowledgmentThrough (inst.ackNum.getD 0)).sentStates ∧
      (t.processInstruction now inst).1.sender.currentState = t.sender.currentState ∧
      (t.processInstruction now inst).1.sender.shutdownInProgress
        = t.sender.shutdownInProgress ∧
      (t.processInstruction now inst).1.sender.nextAckTime = t.sender.nextAckTime ∧
      ((∃ k, (t.processInstruction now inst).2 = .ok (.newState k) ∧
          (t.processInstruction now inst).1.sender.ackNum
            = (t.processInstruction now inst).1.receiver.receivedStates.last.num) ∨
        (∀ k, (t.processInstruction now inst).2 ≠ .ok (.newState k)) ∧
          (t.processInstruction now inst).1.sender.ackNum = t.sender.ackNum) := by
  obtain ⟨hcur, hshut, hack, hnext⟩ :=
    processAcknowledgmentThrough_frame (s := t.sender) (inst.ackNum.getD 0)
  rw [Transport.processInstruction, if_neg (by simpa using hver)]
  generalize t.sender.processAcknowledgmentThrough (inst.ackNum.getD 0) = culled at *
  simp only []
  split
  · next k hk =>
      split <;> exact ⟨rfl, hcur, hshut, hnext, Or.inl ⟨k, hk, rfl⟩⟩
  · next hout => exact ⟨rfl, hcur, hshut, hnext, Or.inr ⟨hout, hack⟩⟩

namespace Meaning

variable {S V : Type} [State S]

structure Linked (m : Meaning S V) (vals : Nat → Option V) (cur got : V) (clock : Nat)
    (s : TransportSender S) (network : List Instruction) (r : Receiver S) : Prop where
  inv : SenderInv clock s
  sender : m.SenderSynced vals cur s
  carried : ∀ inst ∈ network, m.Carries vals inst
  receiver : m.ReceiverSynced vals got r

namespace Linked

variable {m : Meaning S V} {vals : Nat → Option V} {cur got : V} {clock now : Nat}
  {s s' : TransportSender S} {network : List Instruction} {r : Receiver S}

theorem of_frame (h : m.Linked vals cur got clock s network r)
    (hsent : s'.sentStates = s.sentStates) (hcur : s'.currentState = s.currentState)
    (hack : s'.nextAckTime = s.nextAckTime)
    (hshut : s'.shutdownInProgress = false → s.shutdownInProgress = false) :
    m.Linked vals cur got clock s' network r :=
  ⟨h.inv.of_frame hsent hack hshut, h.sender.of_frame hsent hcur, h.carried, h.receiver⟩

theorem wait (h : m.Linked vals cur got clock s network r) (hnow : clock ≤ now)
    (hrange : now < CLOCK_RANGE) : m.Linked vals cur got now s network r :=
  ⟨h.inv.wait hnow hrange, h.sender, h.carried, h.receiver⟩

theorem edit (h : m.Linked vals cur got clock s network r)
    (hrun : s.shutdownInProgress = false) {state : S} {cur' : V}
    (hrep : ∀ f, m.rep f s.currentState cur → m.rep f state cur') (hle : m.le cur cur') :
    m.Linked vals cur' got clock (s.setCurrentState state) network r :=
  ⟨h.inv.of_frame rfl rfl fun hs => hs, h.sender.edit hrep hle (h.sender.running h.inv hrun),
    h.carried, h.receiver⟩

theorem startShutdown (h : m.Linked vals cur got clock s network r) (t : Nat) :
    m.Linked vals cur got clock (s.startShutdown t) network r := by
  unfold TransportSender.startShutdown
  split
  · exact h
  · exact h.of_frame rfl rfl rfl (by simp)

theorem ack (h : m.Linked vals cur got clock s network r) (n : Nat) :
    m.Linked vals cur got clock (s.processAcknowledgmentThrough n) network r :=
  ⟨h.inv.ack n, h.sender.ack h.inv n, h.carried, h.receiver⟩

theorem calculateTimers (h : m.Linked vals cur got clock s network r) (hnow : clock ≤ now)
    (hrange : now < CLOCK_RANGE) (timeout srttMs : Nat) :
    m.Linked vals cur got now (s.calculateTimers now timeout srttMs) network r :=
  ⟨h.inv.calculateTimers hnow hrange timeout srttMs,
    h.sender.calculateTimers h.inv.nums now timeout srttMs, h.carried, h.receiver⟩

theorem waitTimeMs (h : m.Linked vals cur got clock s network r) (hnow : clock ≤ now)
    (hrange : now < CLOCK_RANGE) (timeout srttMs : Nat) (remote : Bool) :
    m.Linked vals cur got now (s.waitTimeMs now timeout srttMs remote).1 network r := by
  have ht := h.calculateTimers hnow hrange timeout srttMs
  unfold TransportSender.waitTimeMs
  simp only []
  split <;> exact ht

theorem tick (h : m.Linked vals cur got clock s network r) (hnow : clock ≤ now)
    (hrange : now < CLOCK_RANGE) (timeout srttMs : Nat) (remote : Bool) (chaff : Bytes) :
    ((s.tick now timeout srttMs remote chaff).2 = none ∧
      m.Linked vals cur got now (s.tick now timeout srttMs remote chaff).1 network r) ∨
    ∃ inst k, (s.tick now timeout srttMs remote chaff).2 = some inst ∧
      inst.newNum = some k ∧ (vals k = none ∨ vals k = some cur) ∧
      (s.tick now timeout srttMs remote chaff).1.sentStates.last.num = k ∧
      m.Linked (Function.update vals k (some cur)) cur got now
        (s.tick now timeout srttMs remote chaff).1 (network ++ [inst]) r := by
  obtain ⟨-, hinv, -⟩ := TransportSender.tick_cases h.inv hnow hrange timeout srttMs remote chaff
  rcases Meaning.sender_tick h.sender h.inv hnow hrange timeout srttMs remote chaff with
    ⟨hnone, hs⟩ | ⟨inst, k, hsome, hnum, hval, hlast, hs, hcarry⟩
  · exact Or.inl ⟨hnone, hinv, hs, h.carried, h.receiver⟩
  · have hext := extends_update hval
    refine Or.inr ⟨inst, k, hsome, hnum, hval, hlast, hinv, hs, fun i hi => ?_,
      h.receiver.mono hext⟩
    rcases List.mem_append.mp hi with hold | hnew
    · exact (h.carried i hold).mono hext
    · rw [List.mem_singleton.mp hnew]; exact hcarry

theorem deliver (h : m.Linked vals cur got clock s network r) {inst : Instruction}
    (hmem : inst ∈ network) (now : Nat) :
    m.Linked vals cur got clock s network
      (r.receive now (inst.oldNum.getD 0) (inst.newNum.getD 0) (inst.throwawayNum.getD 0)
        (inst.diff.getD [])).1 := by
  obtain ⟨a, n, diff, va, vn, hold, hnew, hdiff, ha, hn, ht⟩ := h.carried inst hmem
  rw [hold, hnew, hdiff]
  exact ⟨h.inv, h.sender, h.carried, h.receiver.receive ha hn ht now _⟩

theorem getRemoteDiff (h : m.Linked vals cur got clock s network r) :
    ∃ g v, vals r.receivedStates.last.num = some v ∧ m.le got v ∧
      m.rep g r.receivedStates.last.state v ∧ m.rep g r.lastReceiverState got ∧
      m.Linked vals cur v clock s network r.getRemoteDiff.1 := by
  obtain ⟨g, v, hv, hle, hnew, hgot, hr⟩ := h.receiver.getRemoteDiff h.sender.mono
  exact ⟨g, v, hv, hle, hnew, hgot, h.inv, h.sender, h.carried, hr⟩

end Linked

end Meaning

end Morsh
