import Morsh.Proofs.NoWedge
import Morsh.Proofs.WaitTime

/-!
# One exchange synchronizes

Whatever was lost before: once the retransmission timeout has passed, a sender
diffs against the acknowledged floor, which the peer is known to hold, and past
the ack interval it does send. One instruction that gets through is then enough
for the peer to have everything, and one that gets back is enough for the
sender to know.

The first half is about one sender at one reading of the clock. An ack is due
within the interval of the last emission, and every operation keeps it so; past
the interval a tick sends. Past the horizon of its newest entry the walk over the
assumed states stops at the floor, so what is sent is diffed against the floor,
whatever was sent and lost in between. The second half is about the receiver. It
holds the sender's floor (`Floored`), so the instruction is filed, and as the
newest, since its number is the sender's last one. What it carries is the value
of the state as it is, and an answer in time acknowledges it.

`Round.Timely` is what this takes of the clocks and of the receiver. None of it
can be left out: within the interval a sender may have nothing to say, ahead of
the horizon it diffs against a state that may have been lost, and a receiver
with too many states refuses new ones for a while.
-/

namespace Morsh

open State

variable {M R S E F : Type} [State M] [State R] [State S]

/-! ## The sender -/

/-- An ack is due within the interval of the last emission. -/
def Prompt (s : TransportSender S) : Prop :=
  s.nextAckTime ≤ s.sentStates.last.timestamp + ms ACK_INTERVAL_MS

section Sender

variable {s : TransportSender S} {now clock timeout srttMs : Nat} {chaff : Bytes}

/-- The timers stamp nothing, and bring the ack forward if they move it. -/
theorem calculateTimers_prompt (h : Prompt s) :
    Prompt (s.calculateTimers now timeout srttMs) ∧
      (s.calculateTimers now timeout srttMs).sentStates.last.timestamp
        = s.sentStates.last.timestamp := by
  have hstamp : (s.calculateTimers now timeout srttMs).sentStates.last.timestamp
      = s.sentStates.last.timestamp := by
    rw [TransportSender.calculateTimers_frame.1, TransportSender.rationalizeStates_last.2]
  refine ⟨?_, hstamp⟩
  have hinterval := sendInterval_le srttMs
  have hframe := TransportSender.rationalizeStates_frame
    (s := s.updateAssumedReceiverState now timeout)
  have hlast := TransportSender.rationalizeStates_last
    (s := s.updateAssumedReceiverState now timeout)
  have hack : (s.updateAssumedReceiverState now timeout).nextAckTime = s.nextAckTime := rfl
  have hsent : (s.updateAssumedReceiverState now timeout).sentStates = s.sentStates := rfl
  rw [Prompt, hstamp]
  unfold TransportSender.calculateTimers TransportSender.paceShutdown
  split
  · simp only [TransportSender.scheduleSend_sentStates, TransportSender.hastenAck_frame, hlast,
      hsent]
    omega
  · simp only [TransportSender.scheduleSend_frame]
    rw [Prompt] at h
    unfold TransportSender.hastenAck
    split
    · next hpending =>
        simp only [hframe.2.2.1, hack] at hpending ⊢
        omega
    · rw [hframe.2.2.1, hack]
      exact h

theorem ack_due (h : Prompt s) (hlate : s.sentStates.last.timestamp + ms ACK_INTERVAL_MS ≤ now) :
    (s.calculateTimers now timeout srttMs).nextAckTime ≤ now := by
  obtain ⟨hp, hstamp⟩ := @calculateTimers_prompt _ _ s now timeout srttMs h
  rw [Prompt, hstamp] at hp
  exact Nat.le_trans hp hlate

theorem tick_prompt (hinv : SenderInv clock s) (hnow : clock ≤ now) (hrange : now < CLOCK_RANGE)
    (h : Prompt s) (remote : Bool) : Prompt (s.tick now timeout srttMs remote chaff).1 := by
  obtain ⟨-, -, hcase⟩ := TransportSender.tick_cases hinv hnow hrange timeout srttMs remote chaff
  rcases hcase with ⟨hquiet, -⟩ | ⟨inst, ref, k, -, hem⟩
  · rw [Prompt, hquiet.sentStates, hquiet.nextAck]
    exact (calculateTimers_prompt h).1
  · have hpaced := hem.paced
    rw [Prompt, hpaced.stamp]
    exact hpaced.before

/-- With the floor assumed, a tick diffs against it. -/
theorem tick_oldNum (hinv : SenderInv clock s) (hnow : clock ≤ now) (hrange : now < CLOCK_RANGE)
    (hzero : (s.calculateTimers now timeout srttMs).assumedReceiverState = 0)
    {inst : Instruction} (hsome : (s.tick now timeout srttMs true chaff).2 = some inst) :
    inst.oldNum = some s.sentStates.first.num := by
  have ht := hinv.calculateTimers hnow hrange timeout srttMs
  have hfirst := @TransportSender.calculateTimers_first _ _ s now timeout srttMs
  generalize htimers : s.calculateTimers now timeout srttMs = t at hzero ht hfirst
  have haim : t.Aimed := .inl hzero
  have hget : (t.sentStates.get t.assumedReceiverState).num = s.sentStates.first.num := by
    rw [hzero, History.get_zero, hfirst]
  unfold TransportSender.tick at hsome
  simp only [htimers, TransportSender.prospectiveResend_zero hzero] at hsome
  split at hsome
  · cases hsome
  · split at hsome
    · cases hsome
    · split at hsome
      · next hempty =>
          have hnil : diffFrom t.currentState (t.sentStates.get t.assumedReceiverState).state
              = [] := by simpa using hempty
          obtain ⟨k, hem⟩ := @TransportSender.sendEmptyAck_emission _ _ t now chaff ht.size haim
            hnil
          rw [← hget, ← hem.oldNum]
          have hacked : (if now ≥ t.nextAckTime then some (t.sendEmptyAck now chaff).2 else none)
              = some inst := by
            by_cases hdue : now ≥ t.nextAckTime
            · simpa [hdue, apply_ite Prod.snd] using hsome
            · simp [hdue, apply_ite Prod.snd] at hsome
          split at hacked
          · rw [Option.some.inj hacked]
          · cases hacked
      · obtain ⟨k, hem⟩ := @TransportSender.sendToReceiver_emission _ _ t now chaff _ ht.size haim
          ht.wrappingSucc_ne rfl
        rw [← hget, ← hem.oldNum, ← Option.some.inj hsome]

/-- Past the horizon of the newest entry the floor is assumed. -/
theorem assumed_of_aged (hinv : SenderInv clock s)
    (haged : s.sentStates.last.timestamp + timeout + ms ACK_DELAY_MS ≤ now) :
    (s.calculateTimers now timeout srttMs).assumedReceiverState = 0 := by
  have hframe := TransportSender.rationalizeStates_frame
    (s := s.updateAssumedReceiverState now timeout)
  simp only [TransportSender.calculateTimers, TransportSender.paceShutdown_frame,
    TransportSender.scheduleSend_frame, TransportSender.hastenAck_frame, hframe]
  change assumeWalk now (timeout + ms ACK_DELAY_MS) s.sentStates.entries.tail = 0
  cases htail : s.sentStates.entries.tail with
  | nil => rfl
  | cons e rest =>
      have hmem : e ∈ s.sentStates.entries :=
        List.mem_of_mem_tail (by rw [htail]; exact List.mem_cons_self)
      have hle := History.time_le_last hinv.times hmem
      rw [assumeWalk_aged (e := e) rfl]
      omega

/-- Late enough, a tick does send, and diffs against the floor: after an ack
interval an acknowledgment is due, and past the retransmission timeout none of the
states above the floor is assumed to have arrived. -/
theorem tick_late (hinv : SenderInv clock s) (hprompt : Prompt s) (hnow : clock ≤ now)
    (hrange : now < CLOCK_RANGE)
    (hlate : s.sentStates.last.timestamp + ms ACK_INTERVAL_MS ≤ now)
    (haged : s.sentStates.last.timestamp + timeout + ms ACK_DELAY_MS ≤ now) :
    ∃ inst, (s.tick now timeout srttMs true chaff).2 = some inst ∧
      inst.oldNum = some s.sentStates.first.num := by
  obtain ⟨inst, hsome⟩ := Option.isSome_iff_exists.mp (@tick_of_ackDue _ _ s now timeout srttMs
    chaff (ack_due hprompt hlate))
  exact ⟨inst, hsome, tick_oldNum hinv hnow hrange (assumed_of_aged hinv haged) hsome⟩

end Sender

theorem Endpoint.Stepped.prompt {act : M → E → M} {incoming : List Instruction}
    {x x' : Endpoint M R E} (hinv : SenderInv x.clock x.transport.sender)
    (h : Prompt x.transport.sender) (hstep : x.Stepped act incoming x') :
    Prompt x'.transport.sender := by
  cases hstep with
  | tick now timeout srttMs remote chaff connection hnow hrange =>
      exact tick_prompt hinv hnow hrange h remote
  | wait now timeout srttMs remote hnow hrange =>
      change Prompt (x.transport.sender.waitTimeMs now timeout srttMs remote).1
      unfold TransportSender.waitTimeMs
      simp only []
      split <;> exact (calculateTimers_prompt h).1
  | shutdown now =>
      change Prompt (x.transport.sender.startShutdown now)
      unfold TransportSender.startShutdown
      split <;> exact h
  | process connection now inst hmem =>
      by_cases hver : inst.protocolVersion = some MORSH_PROTOCOL_VERSION
      · obtain ⟨hsent, -, -, hack, -⟩ := @processInstruction_sender _ _ _
          { x.transport with connection := connection } now inst hver
        rw [Prompt, hack, hsent]
        rcases processAcknowledgmentThrough_cases hinv (inst.ackNum.getD 0) with
          hsame | ⟨-, hcut, -, -, hlast⟩
        · rw [hsame]
          exact h
        · rw [hcut, hlast]
          exact h
      · simp only [processInstruction_mismatch hver]
        exact h
  | _ => exact h

/-! ## The receiver -/

/-- Every diff can be applied, to whatever state. -/
class Decodes (S : Type) [State S] : Prop where
  applies : ∀ a b c : S, ∃ s, applyString b (diffFrom c a) = .ok s

instance [ProstMessage UserMessage] : Decodes UserStream where
  applies a b c := by
    change ∃ s, b.decodeAndApply (ProstMessage.encode _) = .ok s
    simp only [UserStream.decodeAndApply, ProstMessage.decode_encode]
    exact ⟨_, rfl⟩

section Receiver

variable {S : Type} [State S] {r : Receiver S} {now oldNum newNum : Nat} {diff : Bytes}

/-- With its reference held, its diff good and no quench period running, a new
instruction diffed against the state it throws away up to is filed. -/
theorem receive_files (hnew : r.receivedStates.holds newNum = false)
    (hold : r.receivedStates.holds oldNum = true)
    (hquench : (r.processThrowawayUntil oldNum).quenched now = false)
    (happly : ∀ b : S, ∃ s, applyString b diff = .ok s) :
    ∃ outcome, (r.receive now oldNum newNum oldNum diff).2 = .ok outcome ∧
      outcome ≠ .ignored := by
  obtain ⟨e, he, hnum⟩ := History.holds_iff.mp hold
  have hkept : e ∈ (r.receivedStates.cull oldNum).entries :=
    History.mem_cull.mpr ⟨he, by omega⟩
  have hcull : (r.processThrowawayUntil oldNum).receivedStates = r.receivedStates.cull oldNum :=
    rfl
  unfold Receiver.receive
  rw [hnew, hold, if_neg Bool.false_ne_true, Bool.not_true, if_neg Bool.false_ne_true]
  cases hi : (r.receivedStates.cull oldNum).position oldNum with
  | none =>
      have hgone := History.position_none hi
      rw [History.holds_iff.mpr ⟨e, hkept, hnum⟩] at hgone
      cases hgone
  | some i =>
      simp only [hcull, hi, hquench, Bool.false_eq_true, if_false]
      split
      · next error herror =>
          split at herror
          · cases herror
          · obtain ⟨state, hstate⟩ := happly _
            rw [hstate] at herror
            cases herror
      · refine ⟨_, rfl, ?_⟩
        unfold Receiver.file
        split <;> simp

/-- If it is no older than the newest state either, it is the newest
afterwards. -/
theorem receive_newest (hs : Sorted r.receivedStates)
    (hold : r.receivedStates.holds oldNum = true)
    (hquench : (r.processThrowawayUntil oldNum).quenched now = false)
    (happly : ∀ b : S, ∃ s, applyString b diff = .ok s)
    (hle : r.receivedStates.last.num ≤ newNum) :
    (r.receive now oldNum newNum oldNum diff).1.receivedStates.last.num = newNum := by
  obtain ⟨hreceived, -⟩ := Receiver.receive_cases hs now oldNum newNum oldNum diff
  cases hnew : r.receivedStates.holds newNum with
  | true =>
      obtain ⟨e, he, hnum⟩ := History.holds_iff.mp hnew
      have heq : r.receivedStates.last.num = newNum :=
        Nat.le_antisymm hle (hnum ▸ hs.le_last he)
      rw [Receiver.receive, if_pos hnew]
      exact heq
  | false =>
      obtain ⟨outcome, hout, hfiled⟩ := receive_files hnew hold hquench happly
      rw [hout] at hreceived
      generalize (r.receive now oldNum newNum oldNum diff).1.receivedStates = h' at hreceived ⊢
      cases hreceived with
      | refused _ | culled _ _ _ => exact absurd rfl hfiled
      | filed _ _ _ _ _ _ _ _ _ hwhere =>
          rcases hwhere with ⟨-, -, hlast⟩ | ⟨-, hlt, -⟩
          · rw [hlast]
          · omega

end Receiver

/-! ## One exchange -/

section Exchange

variable {V : Type} {A : Account M E V} {x x' : Endpoint M R E} {y y' : Endpoint R M F}

/-- The number a tick announces is given the value of the state as it is. -/
theorem Traced.tick_value {clock now timeout srttMs : Nat} {s : TransportSender M}
    {network : List Instruction} {r : Receiver M} {edits : List E} {uses : List (Use E M)}
    {handed : List Bytes} {remote : Bool} {chaff : Bytes} {inst : Instruction}
    (h : Traced A clock s network r edits uses handed) (hnow : clock ≤ now)
    (hrange : now < CLOCK_RANGE) (hsome : (s.tick now timeout srttMs remote chaff).2 = some inst) :
    ∃ k, inst.newNum = some k ∧
      (s.tick now timeout srttMs remote chaff).1.sentStates.last.num = k ∧
      A.vals (noteSent uses edits (s.tick now timeout srttMs remote chaff)) k
        = some (A.val edits) := by
  obtain ⟨got, -, hlinked⟩ := h.linked
  rcases hlinked.tick hnow hrange timeout srttMs remote chaff with
    ⟨hnone, -⟩ | ⟨inst', k, hsome', hnum, hval, hlast, -⟩
  · cases hnone.symm.trans hsome
  obtain rfl := Option.some.inj (hsome'.symm.trans hsome)
  refine ⟨k, hnum, hlast, ?_⟩
  unfold noteSent
  simp only [hsome, Option.bind_some, hnum]
  have hvals := A.vals_note (u := ⟨k, edits,
    (s.tick now timeout srttMs remote chaff).1.sentStates.last.state⟩) hval
  rw [hvals, Function.update_self]

/-- What every operation of either end keeps. -/
structure Kept (A : Account M E V) (x : Endpoint M R E) (y : Endpoint R M F) : Prop where
  floored : Floored x y
  back : Floored y x
  directed : Directed A x y
  prompt : Prompt x.transport.sender
  promptBack : Prompt y.transport.sender

theorem Kept.left {op : EndpointOp E} (h : Kept A x y) (hstep : x.step A.act y.sent op = some x') :
    Kept A x' y :=
  have hstep := Endpoint.step_cases hstep
  ⟨h.floored.sender_step hstep, h.back.receiver_step h.floored.inv hstep,
    h.directed.sender_step hstep, hstep.prompt h.floored.inv h.prompt, h.promptBack⟩

theorem Kept.right {act : R → F → R} {op : EndpointOp F} (h : Kept A x y)
    (hstep : y.step act x.sent op = some y') : Kept A x y' :=
  have hstep := Endpoint.step_cases hstep
  ⟨h.floored.receiver_step h.back.inv hstep, h.back.sender_step hstep,
    h.directed.receiver_step hstep, h.prompt, hstep.prompt h.back.inv h.promptBack⟩

/-- A retransmission: it is diffed against the floor, and its number stands for
the state as it is. -/
structure Resent (A : Account M E V) (x x' : Endpoint M R E) (inst : Instruction) (k : Nat) :
    Prop where
  sent : x'.sent = x.sent ++ [inst]
  version : inst.protocolVersion = some MORSH_PROTOCOL_VERSION
  oldNum : inst.oldNum = some x.floor
  throwaway : inst.throwawayNum = some x.floor
  newNum : inst.newNum = some k
  diff : ∃ c a : M, inst.diff = some (diffFrom c a)
  last : x'.transport.sender.sentStates.last.num = k
  floor : x'.floor = x.floor
  value : A.vals x'.uses k = some (A.val x.edits)

omit [State R] in
theorem Resent.of_tick (h : Kept A x y) (hremote : x.transport.connection.hasRemoteAddr = true)
    {now timeout : Nat} (srttMs : Nat) (chaff : Bytes) (hnow : x.clock ≤ now)
    (hrange : now < CLOCK_RANGE)
    (hlate : x.transport.sender.sentStates.last.timestamp + ms ACK_INTERVAL_MS ≤ now)
    (haged : x.transport.sender.sentStates.last.timestamp + timeout + ms ACK_DELAY_MS ≤ now) :
    ∃ inst k, Resent A x (x.tick now timeout srttMs chaff) inst k := by
  obtain ⟨inst, hsome, hold⟩ := @tick_late _ _ _ _ _ _ srttMs chaff h.floored.inv h.prompt hnow
    hrange hlate haged
  obtain ⟨hfirst, -, hnew⟩ := @TransportSender.tick_floor _ _ _ _ now timeout srttMs true chaff
    h.floored.inv hnow hrange
  obtain ⟨-, -, hcase⟩ := TransportSender.tick_cases h.floored.inv hnow hrange timeout srttMs true
    chaff
  rcases hcase with ⟨-, hnone⟩ | ⟨inst', ref, k, hsome', hem⟩
  · cases hsome.symm.trans hnone
  obtain rfl := Option.some.inj (hsome'.symm.trans hsome)
  obtain ⟨k', hnum, hlast, hvalue⟩ := Traced.tick_value h.directed hnow hrange hsome
  obtain rfl := Option.some.inj (hem.newNum.symm.trans hnum)
  refine ⟨inst', k, ?_, hem.version, hold, (hnew inst' (by simp [hsome])).1, hnum,
    ⟨_, _, hem.diff⟩, ?_, ?_, ?_⟩
  · simp only [Endpoint.tick, Transport.tick, hremote, hsome]
    rfl
  · simp only [Endpoint.tick, Transport.tick, hremote]
    exact hlast
  · simp only [Endpoint.tick, Transport.tick, hremote, Endpoint.floor]
    exact hfirst
  · simp only [Endpoint.tick, Transport.tick, hremote]
    exact hvalue

omit [State R] in
theorem recv_right {y : Endpoint R M F} {now : Nat} {fresh : Bool} {inst : Instruction}
    (hver : inst.protocolVersion = some MORSH_PROTOCOL_VERSION) :
    (y.recv now fresh (.ok (some inst))).transport.receiver
        = (y.transport.receiver.receive now (inst.oldNum.getD 0) (inst.newNum.getD 0)
            (inst.throwawayNum.getD 0) (inst.diff.getD [])).1 ∧
      (y.recv now fresh (.ok (some inst))).transport.sender.sentStates
        = (y.transport.sender.processAcknowledgmentThrough (inst.ackNum.getD 0)).sentStates ∧
      (y.recv now fresh (.ok (some inst))).transport.connection.hasRemoteAddr
        = (fresh || y.transport.connection.hasRemoteAddr) := by
  unfold Endpoint.recv Transport.processDatagram
  cases fresh <;>
    exact ⟨(processInstruction_receiver hver).1, (processInstruction_sender hver).1, by
      simp [Transport.processInstruction, hver]⟩

omit [State R] in
/-- The peer takes a retransmission in as its newest state, whatever it had
heard before. -/
theorem Resent.received [Decodes M] {inst : Instruction} {k now : Nat} {fresh : Bool}
    (h : Kept A x' y) (hresent : Resent A x x' inst k)
    (hquench : (y.transport.receiver.processThrowawayUntil x.floor).quenched now = false) :
    (y.recv now fresh (.ok (some inst))).received.last.num = k := by
  have hheld := h.floored.held
  rw [hresent.floor] at hheld
  obtain ⟨got, -, hlinked⟩ := h.directed.linked
  obtain ⟨g, hassign, -⟩ := hlinked.receiver.states
  obtain ⟨v, hv, -⟩ := hassign _ y.transport.receiver.receivedStates.last_mem
  have hle := hlinked.sender.used hv
  rw [hresent.last] at hle
  obtain ⟨c, a, hdiff⟩ := hresent.diff
  simp only [Endpoint.received, (recv_right hresent.version).1, hresent.oldNum, hresent.newNum,
    hresent.throwaway, hdiff, Option.getD_some]
  exact receive_newest h.floored.sorted hheld hquench (fun b => Decodes.applies a b c) hle

omit [State R] in
/-- What is handed out then is everything. -/
theorem handed_all {k : Nat} {v : V} (h : Directed A x y) (hlast : y.received.last.num = k)
    (hvalue : A.vals x.uses k = some v) : A.Handed y.getRemoteDiff.1.handed v := by
  obtain ⟨u, hu, hhanded, -⟩ := Traced.getRemoteDiff h
  have hnum : y.transport.receiver.getRemoteStateNum = k := hlast
  rw [hnum] at hu
  have hval : A.vals x.uses k = some (A.val u.edits) := congrArg (Option.map _) hu
  rw [Option.some.inj (hvalue.symm.trans hval)]
  exact hhanded

omit [State M] in
/-- An answer in time acknowledges the newest state heard of. After an ack
interval something is due, and whatever is sent carries the number of the newest
received state. -/
theorem Floored.answer (h : Floored x y)
    (hinv : SenderInv y.clock y.transport.sender) (hprompt : Prompt y.transport.sender)
    (hremote : y.transport.connection.hasRemoteAddr = true)
    {now : Nat} (timeout srttMs : Nat) (chaff : Bytes) (hnow : y.clock ≤ now)
    (hrange : now < CLOCK_RANGE)
    (hlate : y.transport.sender.sentStates.last.timestamp + ms ACK_INTERVAL_MS ≤ now) :
    ∃ inst, (y.tick now timeout srttMs chaff).sent = y.sent ++ [inst] ∧
      inst.protocolVersion = some MORSH_PROTOCOL_VERSION ∧
      inst.ackNum = some y.received.last.num := by
  obtain ⟨-, -, hnew⟩ := @TransportSender.tick_floor _ _ _ _ now timeout srttMs true chaff
    hinv hnow hrange
  obtain ⟨inst, hsome⟩ := Option.isSome_iff_exists.mp (@tick_of_ackDue _ _ y.transport.sender now
    timeout srttMs chaff (ack_due hprompt hlate))
  obtain ⟨-, -, hcase⟩ := TransportSender.tick_cases hinv hnow hrange timeout srttMs true chaff
  rcases hcase with ⟨-, hnone⟩ | ⟨inst', ref, k, hsome', hem⟩
  · cases hsome.symm.trans hnone
  obtain rfl := Option.some.inj (hsome'.symm.trans hsome)
  refine ⟨inst', ?_, hem.version, ?_⟩
  · simp only [Endpoint.tick, Transport.tick, hremote, hsome]
    rfl
  · rw [(hnew inst' (by simp [hsome])).2.1, h.newest]

omit [State M] in
theorem ack_last {s : TransportSender M} {clock : Nat} (hinv : SenderInv clock s) (n : Nat) :
    (s.processAcknowledgmentThrough n).sentStates.last = s.sentStates.last := by
  rcases processAcknowledgmentThrough_cases hinv n with hsame | ⟨-, hcut, -, -, hlast⟩
  · rw [hsame]
  · rw [hcut, hlast]

omit [State M] in
/-- Acknowledging the newest state sent makes it the floor: it is held, so all
below it are dropped, and there is none above it. -/
theorem floor_raised {inst : Instruction} {now : Nat} {fresh : Bool}
    (hinv : SenderInv x.clock x.transport.sender)
    (hver : inst.protocolVersion = some MORSH_PROTOCOL_VERSION)
    (hack : inst.ackNum = some x.transport.sender.sentStates.last.num) :
    (x.recv now fresh (.ok (some inst))).floor = x.transport.sender.sentStates.last.num ∧
      (x.recv now fresh (.ok (some inst))).transport.sender.sentStates.last.num
        = x.transport.sender.sentStates.last.num := by
  have hheld : x.transport.sender.sentStates.holds x.transport.sender.sentStates.last.num = true :=
    History.holds_iff.mpr ⟨_, History.last_mem _, rfl⟩
  have hsent : (x.recv now fresh (.ok (some inst))).transport.sender.sentStates
      = x.transport.sender.sentStates.retainFrom x.transport.sender.sentStates.last.num := by
    rw [(recv_right hver).2.1, hack, Option.getD_some, TransportSender.processAcknowledgmentThrough,
      hheld, Bool.not_true, if_neg Bool.false_ne_true]
  have hlast := @History.retainFrom_last _ x.transport.sender.sentStates _ (Nat.le_refl _)
  have hlow := ((History.mem_retainFrom ⟨_, x.transport.sender.sentStates.last_mem,
    Nat.le_refl _⟩).mp (History.first_mem _)).2
  have hhigh := History.first_le_num (hinv.nums.sublist (History.retainFrom_sublist _))
    (History.last_mem (x.transport.sender.sentStates.retainFrom
      x.transport.sender.sentStates.last.num))
  rw [hlast] at hhigh
  rw [Endpoint.floor, hsent, hlast]
  exact ⟨Nat.le_antisymm hhigh hlow, rfl⟩

end Exchange

/-- One exchange: a tick of the left end, its arrival, `get_remote_diff`, a tick
of the right end and its arrival. -/
structure Round where
  sent : Reading
  arrived : Nat
  replied : Reading
  returned : Nat
  timeout : Nat
  srttMs : Nat
  chaff : Bytes
  replyTimeout : Nat
  replySrttMs : Nat
  replyChaff : Bytes
  /-- Whether the datagrams are fresh enough to attach the peer. -/
  fresh : Bool
  replyFresh : Bool

namespace Round

def ops (round : Round) (s : Session M R E F) : List (SessionOp E F) :=
  [.left (.tick round.sent round.timeout round.srttMs round.chaff),
    .right (.datagram round.arrived round.fresh (some s.left.sent.length)),
    .right .getRemoteDiff,
    .right (.tick round.replied round.replyTimeout round.replySrttMs round.replyChaff),
    .left (.datagram round.returned round.replyFresh (some s.right.sent.length))]

/-- Both ends know where to send and have been quiet for an ack interval, the
left one for a retransmission timeout, and the right one is not refusing states. -/
structure Timely (round : Round) (s : Session M R E F) : Prop where
  attached : s.left.transport.connection.hasRemoteAddr = true
  answerable : (round.fresh || s.right.transport.connection.hasRemoteAddr) = true
  sent : s.left.clock ≤ round.sent.val
  quiet : s.left.transport.sender.sentStates.last.timestamp + ms ACK_INTERVAL_MS ≤ round.sent.val
  aged : s.left.transport.sender.sentStates.last.timestamp + round.timeout + ms ACK_DELAY_MS
    ≤ round.sent.val
  unquenched : (s.right.transport.receiver.processThrowawayUntil s.left.floor).quenched
    round.arrived = false
  replied : s.right.clock ≤ round.replied.val
  replyQuiet : s.right.transport.sender.sentStates.last.timestamp + ms ACK_INTERVAL_MS
    ≤ round.replied.val

/-- Whatever was lost before, after one exchange that gets through the right end
has been handed everything, and the left end knows it. -/
theorem synchronizes {V : Type} {A : Account M E V} {act : R → F → R} [Decodes M]
    {s : Session M R E F} (h : Kept A s.left s.right) {round : Round} (ht : round.Timely s) :
    ∃ s', Run.run (Session.step A.act act) s (round.ops s) = some s' ∧
      Kept A s'.left s'.right ∧ s'.left.edits = s.left.edits ∧
      A.Handed s'.right.handed (A.val s.left.edits) ∧
      s'.left.floor = s'.left.transport.sender.sentStates.last.num ∧
      s'.right.received.last.num = s'.left.floor ∧
      A.vals s'.left.uses s'.left.floor = some (A.val s.left.edits) := by
  obtain ⟨x, y⟩ := s
  obtain ⟨inst, k, hresent⟩ := Resent.of_tick h ht.attached round.srttMs round.chaff ht.sent
    round.sent.isLt ht.quiet ht.aged
  -- the retransmission
  generalize hx₁ : x.tick round.sent.val round.timeout round.srttMs round.chaff = x₁ at hresent
  have htick : x.step A.act y.sent (.tick round.sent round.timeout round.srttMs round.chaff)
      = some x₁ := by
    rw [Endpoint.step, if_neg (Nat.not_lt.mpr ht.sent), hx₁]
  have h₁ : Kept A x₁ y := h.left htick
  -- it arrives
  generalize hy₁ : y.recv round.arrived round.fresh (.ok (some inst)) = y₁
  have harrive : y.step act x₁.sent (.datagram round.arrived round.fresh (some x.sent.length))
      = some y₁ := by
    simp only [Endpoint.step, hresent.sent, List.getElem?_concat_length, hy₁]
  have h₂ : Kept A x₁ y₁ := h₁.right harrive
  have hnewest : y₁.received.last.num = k := hy₁ ▸ hresent.received h₁ ht.unquenched
  have hkept : y₁.clock = y.clock ∧ y₁.sent = y.sent ∧
      y₁.transport.connection.hasRemoteAddr = true ∧
      y₁.transport.sender.sentStates.last.timestamp
        = y.transport.sender.sentStates.last.timestamp := by
    rw [← hy₁, (recv_right hresent.version).2.2, (recv_right hresent.version).2.1]
    exact ⟨rfl, rfl, ht.answerable,
      congrArg (·.timestamp) (ack_last h.back.inv (inst.ackNum.getD 0))⟩
  -- it is handed out
  have hdiff : y₁.step act x₁.sent .getRemoteDiff = some y₁.getRemoteDiff.1 := rfl
  have h₃ : Kept A x₁ y₁.getRemoteDiff.1 := h₂.right hdiff
  have hhanded := handed_all h₂.directed hnewest hresent.value
  have hnewest' : y₁.getRemoteDiff.1.received.last.num = k :=
    Receiver.getRemoteDiff_num.trans hnewest
  -- the answer, and its arrival
  have hreply : y₁.getRemoteDiff.1.clock ≤ round.replied.val :=
    Nat.le_trans (Nat.le_of_eq hkept.1) ht.replied
  obtain ⟨inst', hsent', hver', hack'⟩ := h₃.floored.answer h₃.back.inv h₃.promptBack
    hkept.2.2.1 round.replyTimeout round.replySrttMs round.replyChaff hreply round.replied.isLt
    (hkept.2.2.2 ▸ ht.replyQuiet)
  generalize hy₂ : y₁.getRemoteDiff.1.tick round.replied.val round.replyTimeout
    round.replySrttMs round.replyChaff = y₂ at hsent'
  have hanswer : y₁.getRemoteDiff.1.step act x₁.sent
      (.tick round.replied round.replyTimeout round.replySrttMs round.replyChaff) = some y₂ := by
    rw [Endpoint.step, if_neg (Nat.not_lt.mpr hreply), hy₂]
  have h₄ : Kept A x₁ y₂ := h₃.right hanswer
  generalize hx₂ : x₁.recv round.returned round.replyFresh (.ok (some inst')) = x₂
  have hreturn : x₁.step A.act y₂.sent
      (.datagram round.returned round.replyFresh (some y.sent.length)) = some x₂ := by
    have hlen : y.sent.length = y₁.getRemoteDiff.1.sent.length :=
      (congrArg List.length hkept.2.1).symm
    simp only [Endpoint.step, hsent', hlen, List.getElem?_concat_length, hx₂]
  have h₅ : Kept A x₂ y₂ := h₄.left hreturn
  rw [hnewest', ← hresent.last] at hack'
  obtain ⟨hfloor, hlast⟩ := @floor_raised _ _ _ _ x₁ _ round.returned round.replyFresh
    h₄.floored.inv hver' hack'
  rw [hx₂] at hfloor hlast
  have hhanded' : y₂.handed = y₁.getRemoteDiff.1.handed := hy₂ ▸ rfl
  have hedits : x₁.edits = x.edits := hx₁ ▸ rfl
  have hnewest'' : y₂.received.last.num = k := hy₂ ▸ hnewest'
  refine ⟨⟨x₂, y₂⟩, ?_, h₅, ?_, hhanded' ▸ hhanded, hfloor.trans hlast.symm,
    hnewest''.trans (hfloor.trans hresent.last).symm, ?_⟩
  · simp only [Round.ops, Run.run, Session.step, htick, harrive, hdiff, hanswer, hreturn,
      Option.map_some, Option.bind_some]
  · rw [← hx₂]
    exact hedits
  · rw [hfloor, hresent.last, ← hx₂]
    exact hresent.value

end Round

/-- What both ends keep, they keep along a run. -/
theorem Session.run_kept {V : Type} {A : Account M E V} {actRight : R → F → R}
    {now remoteNow : Nat} (hnow : now < CLOCK_RANGE) (hremote : remoteNow < CLOCK_RANGE)
    {connection remoteConnection : Connection} {init peerInit : M} {remoteInit remotePeerInit : R}
    {f g : A.meaning.Frame} (hinit : A.meaning.rep f init (A.val []))
    (hpeer : A.meaning.rep g peerInit (A.val [])) (hhanded : A.Handed [] (A.val []))
    {ops : List (SessionOp E F)} {s : Session M R E F}
    (hrun : Run.run (Session.step A.act actRight)
      ⟨.start now connection init remotePeerInit,
        .start remoteNow remoteConnection remoteInit peerInit⟩ ops = some s) :
    Kept A s.left s.right := by
  have hstart : Kept A (Endpoint.start (E := E) now connection init remotePeerInit)
      (Endpoint.start (E := F) remoteNow remoteConnection remoteInit peerInit) :=
    ⟨.start hnow .., .start hremote .., Traced.start hinit hpeer hhanded hnow remoteNow,
      Nat.le_add_right _ _, Nat.le_add_right _ _⟩
  refine Run.run_invariant (I := fun s : Session M R E F => Kept A s.left s.right) ?_ hstart hrun
  intro s op s' h hstep
  cases op with
  | left op =>
      obtain ⟨x, hx, rfl⟩ := Option.map_eq_some_iff.mp hstep
      exact h.left hx
  | right op =>
      obtain ⟨y, hy, rfl⟩ := Option.map_eq_some_iff.mp hstep
      exact h.right hy

/-- From any state a session can reach, however much has been lost, one exchange
that gets through is enough: everything ever typed has been handed to the
server, in order and once, and the client knows that it has nothing left to send. -/
theorem one_exchange_synchronizes [ProstMessage UserMessage] (act : R → F → R)
    (now remoteNow : Reading) (connection remoteConnection : Connection)
    (init peerInit : UserStream) (hpeer : peerInit.events <:+ init.events)
    (remoteInit remotePeerInit : R) (ops : List (SessionOp UserEvent F))
    (s : Session UserStream R UserEvent F)
    (hrun : Run.run (Session.step UserStream.push act)
      ⟨.start now connection init remotePeerInit,
        .start remoteNow remoteConnection remoteInit peerInit⟩ ops = some s)
    (round : Round) (htimely : round.Timely s) :
    ∃ s', Run.run (Session.step UserStream.push act) s (round.ops s) = some s' ∧
      s'.left.edits = s.left.edits ∧
      (∃ lists, s'.right.handed.mapM UserStream.eventsOf = .ok lists ∧
        lists.flatten = s.left.edits) ∧
      s'.left.floor = s'.left.transport.sender.sentStates.last.num ∧
      stateEqual s'.left.transport.sender.currentState
        s'.left.transport.sender.sentStates.first.state = true := by
  obtain ⟨front, hfront⟩ := hpeer
  have hnone : UserStream.Decoded init [] (init.events ++ []) := ⟨[], rfl, rfl⟩
  have hkept := Session.run_kept (A := UserStream.account init) now.isLt remoteNow.isLt (f := [])
    (g := front) (List.append_nil _).symm (hfront.trans (List.append_nil _).symm) hnone hrun
  obtain ⟨s', hrun', hkept', hedits, ⟨lists, hlists, hall⟩, hfloor, -, hvalue⟩ :=
    Round.synchronizes hkept htimely
  refine ⟨s', hrun', hedits, ⟨lists, hlists, List.append_cancel_left hall⟩, hfloor, ?_⟩
  obtain ⟨got, -, hlinked⟩ := hkept'.directed.linked
  obtain ⟨(f : List UserEvent), hcur, hassign⟩ := hlinked.sender.states
  obtain ⟨v, hv, hfirst⟩ := hassign _ (History.first_mem _)
  rw [← hedits] at hvalue
  have hv' : v = init.events ++ s'.left.edits := Option.some.inj (hv.symm.trans hvalue)
  have hsame : f ++ s'.left.transport.sender.currentState.events
      = f ++ s'.left.transport.sender.sentStates.first.state.events :=
    Eq.trans hcur (hv'.symm.trans hfirst.symm)
  exact beq_iff_eq.mpr (List.append_cancel_left hsame)

/-- Two keys, each sent once, and nothing arrives. -/
def lostKeys : Option (Session UserStream UserStream UserEvent UserEvent) :=
  Run.run (Session.step UserStream.push UserStream.push)
    ⟨.start (0 : Reading) ⟨true, 0, 0⟩ .new .new, .start (0 : Reading) ⟨false, 0, 0⟩ .new .new⟩
    [.left (.edit (.userByte 97)), .left (.tick 0 1000 250 []), .left (.edit (.userByte 98)),
      .left (.waitTime 10000000 1000 250), .left (.tick 1000000000 1000 250 [])]

/-- An exchange ten seconds later. -/
def lateRound : Round where
  sent := 10000000000
  arrived := 10000000000
  replied := 10000000000
  returned := 10000000000
  timeout := 1000000000
  srttMs := 250
  chaff := []
  replyTimeout := 1000000000
  replySrttMs := 250
  replyChaff := []
  fresh := true
  replyFresh := true

theorem lateRound_timely : lateRound.Timely (lostKeys.get (by decide +kernel)) where
  attached := by decide +kernel
  answerable := by decide +kernel
  sent := by decide +kernel
  quiet := by decide +kernel
  aged := by decide +kernel
  unquenched := by decide +kernel
  replied := by decide +kernel
  replyQuiet := by decide +kernel

theorem one_exchange_synchronizes_lost :
    ∃ s s', lostKeys = some s ∧ s.left.sent.length = 2 ∧ s.right.processed = [] ∧
      Run.run (Session.step UserStream.push UserStream.push) s (lateRound.ops s) = some s' ∧
      ∃ lists, s'.right.handed.mapM UserStream.eventsOf = .ok lists ∧
        lists.flatten = s.left.edits := by
  obtain ⟨s', hrun, -, hlists, -⟩ := one_exchange_synchronizes UserStream.push 0 0 ⟨true, 0, 0⟩
    ⟨false, 0, 0⟩ .new .new ⟨[], rfl⟩ .new .new _ _ (Option.some_get _).symm lateRound
    lateRound_timely
  exact ⟨_, s', (Option.some_get _).symm, by decide +kernel, by decide +kernel, hrun, hlists⟩

end Morsh
