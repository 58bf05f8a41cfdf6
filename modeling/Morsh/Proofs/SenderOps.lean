import Morsh.Proofs.Emission

/-!
# The sender's operations keep its invariant

One lemma per operation. `tick_cases` is the one callers use: it carries the
invariant over the tick and, where the tick emitted, hands out its `Emission`.

Acknowledging culls from below and the floor stays in the history; starting the
shutdown and noting what the peer has said touch neither history nor deadline; a
wait and a tick set the timers first. Only a tick allocates a number. That it is
above all others rests on the pace: 20 ms lie between any two numbers, so the
numbers are far below the end of their range while the clock is within its own.
-/

namespace Morsh

open State

variable {S : Type} [State S] {s : TransportSender S} {clock now n : Nat}

omit [State S] in
theorem History.time_le_last {h : History S}
    (hp : h.entries.Pairwise fun a b => a.timestamp ≤ b.timestamp)
    {e : TimestampedState S} (he : e ∈ h.entries) : e.timestamp ≤ h.last.timestamp := by
  rw [h.entries_eq_dropLast, List.pairwise_append] at hp
  rw [h.entries_eq_dropLast, List.mem_append, List.mem_singleton] at he
  rcases he with hd | rfl
  · exact hp.2.2 e hd _ (by simp)
  · exact Nat.le_refl _

omit [State S] in
theorem SenderInv.wait (hinv : SenderInv clock s) (hnow : clock ≤ now)
    (hrange : now < CLOCK_RANGE) : SenderInv now s :=
  ⟨hinv.nums, hinv.times, hinv.size, Nat.le_trans hinv.past hnow, hrange, hinv.running,
    hinv.pace, hinv.gap⟩

omit [State S] in
/-- The clock runs out before the numbers do: each number took 20 ms, and a clock
of 64-bit nanoseconds has room for far fewer than 2^64 of these. -/
theorem SenderInv.last_lt (hinv : SenderInv clock s)
    (hne : s.sentStates.last.num ≠ SHUTDOWN_NUM) :
    s.sentStates.last.num + 1 < SHUTDOWN_NUM := by
  have hpace := hinv.pace hne
  have hpast := hinv.past
  have hrange := hinv.range
  simp only [ms, SEND_INTERVAL_MIN_MS, CLOCK_RANGE, SHUTDOWN_NUM] at *
  omega

omit [State S] in
theorem SenderInv.last_le (hinv : SenderInv clock s) :
    s.sentStates.last.num ≤ SHUTDOWN_NUM := by
  by_cases hne : s.sentStates.last.num = SHUTDOWN_NUM
  · omega
  · have := hinv.last_lt hne; omega

omit [State S] in
theorem SenderInv.wrappingSucc_last (hinv : SenderInv clock s)
    (hne : s.sentStates.last.num ≠ SHUTDOWN_NUM) :
    wrappingSucc s.sentStates.last.num = s.sentStates.last.num + 1 := by
  have hlt := hinv.last_lt hne
  rw [SHUTDOWN_NUM] at hlt
  exact Nat.mod_eq_of_lt (by omega)

omit [State S] in
theorem SenderInv.wrappingSucc_ne (hinv : SenderInv clock s) :
    wrappingSucc s.sentStates.last.num ≠ s.sentStates.last.num := by
  by_cases hne : s.sentStates.last.num = SHUTDOWN_NUM
  · rw [hne]; decide
  · rw [hinv.wrappingSucc_last hne]; omega

omit [State S] in
/-- The number of a freshly recorded state exceeds every number in the history,
unless both are the shutdown number. -/
theorem SenderInv.fresh_order (hinv : SenderInv clock s)
    (hnum : n = if s.shutdownInProgress then SHUTDOWN_NUM
      else wrappingSucc s.sentStates.last.num)
    {e : TimestampedState S} (he : e ∈ s.sentStates.entries) :
    e.num < n ∨ (e.num = SHUTDOWN_NUM ∧ n = SHUTDOWN_NUM) := by
  have hle := History.num_le_last hinv.nums he
  have hmax := hinv.last_le
  cases hshut : s.shutdownInProgress with
  | true =>
      rw [hshut, if_pos rfl] at hnum
      omega
  | false =>
      have hne := hinv.running hshut
      rw [hshut, if_neg (by simp), hinv.wrappingSucc_last hne] at hnum
      omega

theorem SenderInv.recorded {s' : TransportSender S} (hinv : SenderInv now s)
    (hrec : Recorded s now n s'.sentStates)
    (hdue : s.sentStates.last.num = 0 ∨
      s.sentStates.last.timestamp + ms SEND_INTERVAL_MIN_MS ≤ now)
    (hshut : s'.shutdownInProgress = s.shutdownInProgress)
    (hack : s'.nextAckTime = now + ms ACK_INTERVAL_MS) : SenderInv now s' := by
  have hdelay : ms SEND_INTERVAL_MIN_MS ≤ ms ACK_INTERVAL_MS := by decide
  have hpast := hinv.past
  have hpace := hinv.pace
  generalize hh : s'.sentStates = h' at hrec
  cases hrec with
  | again hnum hequal hshutnum =>
      constructor
      · rw [hh]; exact History.pairwise_stampLast hinv.nums fun _ _ h => h
      · rw [hh]; exact History.pairwise_stampLast hinv.times fun e _ h => Nat.le_trans h hpast
      · rw [hh, History.stampLast_length]; exact hinv.size
      · exact Nat.le_of_eq (by rw [hh, History.stampLast_last])
      · exact hinv.range
      · rw [hh, History.stampLast_last, hshut]; exact hinv.running
      · rw [hh, History.stampLast_last]
        intro hne
        have := hpace hne
        simp only []
        omega
      · rw [hh, History.stampLast_last, hack]
        exact Or.inr (by simp only []; omega)
  | fresh hnum =>
      have hsub := History.evict_sublist
        (h := s.sentStates.push ⟨now, n, clone s.currentState⟩)
      constructor
      · rw [hh]
        refine List.Pairwise.sublist hsub ?_
        rw [History.push_entries, List.pairwise_append]
        exact ⟨hinv.nums, List.pairwise_singleton _ _, fun e he x hx =>
          List.mem_singleton.mp hx ▸ hinv.fresh_order hnum he⟩
      · rw [hh]
        refine List.Pairwise.sublist hsub ?_
        rw [History.push_entries, List.pairwise_append]
        exact ⟨hinv.times, List.pairwise_singleton _ _, fun e he x hx =>
          List.mem_singleton.mp hx ▸
            Nat.le_trans (History.time_le_last hinv.times he) hpast⟩
      · rw [hh]
        refine History.evict_length ?_
        rw [History.push_length]
        exact Nat.succ_le_succ hinv.size
      · exact Nat.le_of_eq (by rw [hh, History.evict_last, History.push_last])
      · exact hinv.range
      · rw [hh, History.evict_last, History.push_last, hshut]
        intro hs
        rw [hs, if_neg (by simp), hinv.wrappingSucc_last (hinv.running hs)] at hnum
        have := hinv.last_lt (hinv.running hs)
        simp only []
        omega
      · rw [hh, History.evict_last, History.push_last]
        intro hne
        simp only [] at hne ⊢
        cases hs : s.shutdownInProgress with
        | true => rw [hs, if_pos rfl] at hnum; exact absurd hnum hne
        | false =>
            have hlast := hinv.running hs
            rw [hs, if_neg (by simp), hinv.wrappingSucc_last hlast] at hnum
            have hstep := hpace hlast
            rw [hnum, Nat.succ_mul]
            rcases hdue with hzero | hgap
            · rw [hzero, Nat.zero_mul]; omega
            · omega
      · rw [hh, History.evict_last, History.push_last, hack]
        exact Or.inr (by simp only []; omega)

namespace TransportSender

/-- Everything a tick does, with the invariant carried across it. The timers are
set first; then nothing is sent and no state recorded, or one instruction is sent,
and `Emission` says what is in it and what was recorded. -/
theorem tick_cases (hinv : SenderInv clock s) (hnow : clock ≤ now)
    (hrange : now < CLOCK_RANGE) (timeout srttMs : Nat) (remote : Bool) (chaff : Bytes) :
    SenderInv now (s.calculateTimers now timeout srttMs) ∧
      SenderInv now (s.tick now timeout srttMs remote chaff).1 ∧
      ((Quiet (s.calculateTimers now timeout srttMs)
          (s.tick now timeout srttMs remote chaff).1 ∧
        (s.tick now timeout srttMs remote chaff).2 = none) ∨
      ∃ inst ref k, (s.tick now timeout srttMs remote chaff).2 = some inst ∧
        Emission (s.calculateTimers now timeout srttMs)
          (s.tick now timeout srttMs remote chaff).1 now inst ref k) := by
  have ht := hinv.calculateTimers hnow hrange timeout srttMs
  have hsent : (s.calculateTimers now timeout srttMs).sentStates
      = s.rationalizeStates.sentStates := calculateTimers_frame.1
  have haim : (s.calculateTimers now timeout srttMs).Aimed := by
    rw [Aimed, hsent, rationalizeStates_frame.2.2.2.2]
    exact calculateTimers_assumed hinv.times
  refine ⟨ht, ?_⟩
  rcases @decide_cases _ _ s now timeout srttMs chaff _ ht.size haim ht.wrappingSucc_ne rfl
    remote with ⟨hq, hnone⟩ | ⟨inst, ref, k, hsome, hem, hdue⟩
  · refine ⟨?_, Or.inl ⟨hq, hnone⟩⟩
    obtain ⟨h₁, -, h₃, -, h₅⟩ := hq
    exact ⟨h₁ ▸ ht.nums, h₁ ▸ ht.times, h₁ ▸ ht.size, h₁ ▸ ht.past, ht.range,
      by rw [h₁, h₃]; exact ht.running, h₁ ▸ ht.pace, by rw [h₁, h₅]; exact ht.gap⟩
  · refine ⟨?_, Or.inr ⟨inst, ref, k, hsome, hem⟩⟩
    refine ht.recorded hem.recorded ?_ hem.shutdown hem.nextAck
    have hlast := rationalizeStates_last (s := s)
    rw [hsent, hlast.1, hlast.2]
    rcases hdue with hack | ⟨d, hd, hge⟩
    · exact calculateTimers_due (t := 0) hinv hnow (Or.inl hack)
    · exact calculateTimers_due hinv hnow (Or.inr ⟨hd, hge⟩)

variable {timeout srttMs : Nat} {remote : Bool} {chaff : Bytes}

theorem calculateTimers_first :
    (s.calculateTimers now timeout srttMs).sentStates.first.num = s.sentStates.first.num := by
  rw [calculateTimers_frame.1, rationalizeStates]
  split
  · rfl
  · simp

theorem waitTimeMs_floor :
    (s.waitTimeMs now timeout srttMs remote).1.sentStates.first.num = s.sentStates.first.num ∧
      (s.waitTimeMs now timeout srttMs remote).1.ackNum = s.ackNum := by
  unfold waitTimeMs
  simp only []
  split <;> exact ⟨calculateTimers_first, calculateTimers_frame.2.2.2⟩

/-- A tick moves neither, and writes both on what it sends; what it diffs
against is not below the first number. -/
theorem tick_floor (hinv : SenderInv clock s) (hnow : clock ≤ now) (hrange : now < CLOCK_RANGE) :
    (s.tick now timeout srttMs remote chaff).1.sentStates.first.num = s.sentStates.first.num ∧
      (s.tick now timeout srttMs remote chaff).1.ackNum = s.ackNum ∧
      ∀ inst ∈ (s.tick now timeout srttMs remote chaff).2.toList,
        inst.throwawayNum = some s.sentStates.first.num ∧ inst.ackNum = some s.ackNum ∧
          ∃ old, inst.oldNum = some old ∧ s.sentStates.first.num ≤ old := by
  obtain ⟨ht, -, hcase⟩ := tick_cases hinv hnow hrange timeout srttMs remote chaff
  have hfirst := @calculateTimers_first _ _ s now timeout srttMs
  have hack := (@calculateTimers_frame _ _ s now timeout srttMs).2.2.2
  rcases hcase with ⟨hq, hnone⟩ | ⟨inst, ref, k, hsome, hem⟩
  · rw [hnone, hq.sentStates, hq.ack]
    exact ⟨hfirst, hack, by simp⟩
  · have hkept : (s.tick now timeout srttMs remote chaff).1.sentStates.first.num
        = (s.calculateTimers now timeout srttMs).sentStates.first.num := by
      have hrec := hem.recorded
      generalize (s.tick now timeout srttMs remote chaff).1.sentStates = h at hrec
      cases hrec with
      | again _ _ _ => exact (History.stampLast_first now).1
      | fresh _ => rw [History.evict_first, History.push_first]
    refine ⟨hkept.trans hfirst, hem.ack.trans hack, fun i hi => ?_⟩
    rw [hsome, Option.toList_some, List.mem_singleton] at hi
    subst hi
    have hle := History.first_le_num ht.nums hem.ref_mem
    rw [hfirst] at hle
    exact ⟨hfirst ▸ hem.throwaway, hack ▸ hem.ackNum, ref.num, hem.oldNum, hle⟩

end TransportSender

omit [State S] in
theorem SenderInv.of_frame {s' : TransportSender S} (hinv : SenderInv clock s)
    (hsent : s'.sentStates = s.sentStates) (hack : s'.nextAckTime = s.nextAckTime)
    (hshut : s'.shutdownInProgress = false → s.shutdownInProgress = false) :
    SenderInv clock s' :=
  ⟨hsent ▸ hinv.nums, hsent ▸ hinv.times, hsent ▸ hinv.size, hsent ▸ hinv.past, hinv.range,
    fun h => by rw [hsent]; exact hinv.running (hshut h), hsent ▸ hinv.pace,
    by rw [hsent, hack]; exact hinv.gap⟩

omit [State S] in
theorem SenderInv.startShutdown (hinv : SenderInv clock s) (t : Nat) :
    SenderInv clock (s.startShutdown t) := by
  unfold TransportSender.startShutdown
  split
  · exact hinv
  · exact hinv.of_frame rfl rfl (by simp)

omit [State S] in
/-- Acknowledging `n` makes it the floor if it is held and does nothing
otherwise. -/
theorem processAcknowledgmentThrough_cases (hinv : SenderInv clock s) (n : Nat) :
    s.processAcknowledgmentThrough n = s ∨
      (s.sentStates.holds n = true ∧
        (s.processAcknowledgmentThrough n).sentStates = s.sentStates.retainFrom n ∧
        (∀ e, e ∈ (s.sentStates.retainFrom n).entries ↔
          e ∈ s.sentStates.entries ∧ n ≤ e.num) ∧
        (s.sentStates.retainFrom n).first.num = n ∧
        (s.sentStates.retainFrom n).last = s.sentStates.last) := by
  unfold TransportSender.processAcknowledgmentThrough
  split
  · exact Or.inl rfl
  · next hholds =>
      simp only [Bool.not_eq_true', Bool.not_eq_false] at hholds
      obtain ⟨e, he, hen⟩ := History.holds_iff.mp hholds
      have hex : ∃ e ∈ s.sentStates.entries, n ≤ e.num := ⟨e, he, by omega⟩
      have hmem : e ∈ (s.sentStates.retainFrom n).entries :=
        (History.mem_retainFrom hex).mpr ⟨he, by omega⟩
      have hlow := History.first_le_num
        (hinv.nums.sublist (History.retainFrom_sublist n)) hmem
      have hhigh := ((History.mem_retainFrom hex).mp (History.first_mem _)).2
      have hle := History.num_le_last hinv.nums he
      exact Or.inr ⟨hholds, rfl, fun x => History.mem_retainFrom hex, by omega,
        History.retainFrom_last (by omega)⟩

omit [State S] in
theorem processAcknowledgmentThrough_frame (n : Nat) :
    (s.processAcknowledgmentThrough n).currentState = s.currentState ∧
      (s.processAcknowledgmentThrough n).shutdownInProgress = s.shutdownInProgress ∧
      (s.processAcknowledgmentThrough n).ackNum = s.ackNum ∧
      (s.processAcknowledgmentThrough n).nextAckTime = s.nextAckTime := by
  unfold TransportSender.processAcknowledgmentThrough
  split <;> exact ⟨rfl, rfl, rfl, rfl⟩

omit [State S] in
theorem SenderInv.ack (hinv : SenderInv clock s) (n : Nat) :
    SenderInv clock (s.processAcknowledgmentThrough n) := by
  obtain ⟨-, hshut, -, hnext⟩ := processAcknowledgmentThrough_frame (s := s) n
  rcases processAcknowledgmentThrough_cases hinv n with h | ⟨-, hsent, -, -, hlast⟩
  · rw [h]; exact hinv
  · have hsub := History.retainFrom_sublist (h := s.sentStates) n
    constructor
    · rw [hsent]; exact hinv.nums.sublist hsub
    · rw [hsent]; exact hinv.times.sublist hsub
    · rw [hsent]; exact Nat.le_trans hsub.length_le hinv.size
    · rw [hsent, hlast]; exact hinv.past
    · exact hinv.range
    · rw [hsent, hlast, hshut]; exact hinv.running
    · rw [hsent, hlast]; exact hinv.pace
    · rw [hsent, hlast, hnext]; exact hinv.gap

theorem SenderInv.new {start : Nat} (hrange : start < CLOCK_RANGE) (init : S) :
    SenderInv start (TransportSender.new start init) := by
  constructor
  · exact List.pairwise_singleton _ _
  · exact List.pairwise_singleton _ _
  · exact Nat.succ_le_succ (Nat.zero_le _)
  · exact Nat.le_refl _
  · exact hrange
  · intro _ h
    cases h
  · intro _; simp [TransportSender.new, History.single, History.last]
  · exact Or.inl rfl

end Morsh
