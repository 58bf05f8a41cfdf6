import Mathlib.Data.List.Nodup
import Morsh.Proofs.Link
import Morsh.Statesync.Wire

/-!
# The receiver against any instructions

Nothing is asked of the peer here: the instructions of a run are arbitrary. The
numbers held stay sorted and the newest is the one acknowledged. That a number
is filed once in a run, culled or not, rests on one fact about the oldest
number held: where no instruction refers past its own number it only rises, and
a number below it is refused for want of a reference.

One instruction does one of the things `Received` lists, and the first part reads
them as statements about numbers: those kept are the ones from some cutoff on, and
at most one is filed. The invariant of a run has two parts. `Holding` is about the
numbers held and the one acknowledged, and needs nothing. `Spent` is about the
numbers inserted so far: each is still held or is below everything held. An
instruction whose old number is not above its new one keeps it, since the
reference must be held for it to be filed; and a number that is spent cannot be
filed again.
-/

namespace Morsh

open State

/-- What `adopt_from` leaves behind is still the state it was. -/
class Adopting (R : Type) [State R] : Prop where
  equal_refl : ∀ a : R, stateEqual a a = true
  adopt_equal : ∀ a : R, stateEqual (adoptFrom (clone a) a).2 a = true

instance [ProstMessage UserMessage] : Adopting UserStream where
  equal_refl a := by simp [stateEqual]
  adopt_equal a := by simp [stateEqual, adoptFrom]

instance {T : Type} [Emulator T] [ProstMessage HostMessage] : Adopting (Complete T) where
  equal_refl a := by simp [stateEqual]
  adopt_equal a := by
    simp only [adoptFrom, Complete.adopt]
    split <;> simp [stateEqual]

variable {M R : Type} [State M] [State R]

/-- The numbers one step adds to a history. -/
def History.inserted (before after : History R) : List Nat :=
  (after.entries.map (·.num)).filter fun n => !before.holds n

namespace Transport

/-- `process_instruction` over a list of instructions and the times they
arrive. -/
def processAll (t : Transport M R) (insts : List (Nat × Instruction)) : Transport M R :=
  insts.foldl (fun t p => (t.processInstruction p.1 p.2).1) t

/-- Every number inserted on the way, oldest first. -/
def insertedBy (t : Transport M R) : List (Nat × Instruction) → List Nat
  | [] => []
  | p :: rest =>
      let t' := (t.processInstruction p.1 p.2).1
      t.receiver.receivedStates.inserted t'.receiver.receivedStates ++ t'.insertedBy rest

end Transport

/-! ## One instruction -/

section Step

variable {r : Receiver R} {now oldNum newNum throwawayNum : Nat} {diff : Bytes} {h' : History R}
  {outcome : Except String RecvOutcome}

omit [State R] in
theorem holds_cull {h : History R} {t n : Nat} :
    (h.cull t).holds n = true ↔ h.holds n = true ∧ min t h.last.num ≤ n := by
  rw [History.holds_iff, History.holds_iff]
  constructor
  · rintro ⟨e, he, rfl⟩
    exact ⟨⟨e, (History.mem_cull.mp he).1, rfl⟩, (History.mem_cull.mp he).2⟩
  · rintro ⟨⟨e, he, rfl⟩, hle⟩
    exact ⟨e, History.mem_cull.mpr ⟨he, hle⟩, rfl⟩

omit [State R] in
theorem holds_setState {h : History R} {i n : Nat} {s : R} :
    (h.setState i s).holds n = h.holds n := by
  have hany : ∀ l : List (TimestampedState R),
      (l.any fun e => e.num == n) = (l.map (·.num)).any (· == n) := by
    intro l
    rw [List.any_map]
    rfl
  rw [History.holds, History.holds, hany, hany, History.setState_nums]

/-- The numbers held afterwards: those from some cutoff on, and the new one if
it was filed. -/
theorem Received.numbers (h : Received r now oldNum newNum throwawayNum diff h' outcome) :
    ∃ cutoff, (∀ n, h'.holds n = true ↔ r.receivedStates.holds n = true ∧ cutoff ≤ n) ∨
      r.receivedStates.holds newNum = false ∧ r.receivedStates.holds oldNum = true ∧
        cutoff ≤ oldNum ∧
        ∀ n, h'.holds n = true ↔ n = newNum ∨ r.receivedStates.holds n = true ∧ cutoff ≤ n := by
  cases h with
  | refused _ => exact ⟨0, Or.inl fun n => by simp⟩
  | culled _ _ _ => exact ⟨_, Or.inl fun n => holds_cull⟩
  | malformed i hi _ =>
      refine ⟨min throwawayNum r.receivedStates.last.num, Or.inl fun n => ?_⟩
      rw [History.lend, holds_setState]
      exact holds_cull
  | filed hnew i hi state happly _ hsorted hmem _ hwhere =>
      obtain ⟨hget, hnum, -⟩ := History.position_some hi
      have hold := holds_cull.mp (History.holds_iff.mpr ⟨_, hget, hnum⟩)
      refine ⟨min throwawayNum r.receivedStates.last.num, Or.inr ⟨hnew, hold.1, hold.2, ?_⟩⟩
      intro n
      have hlent : ((r.receivedStates.cull throwawayNum).lend i).2.holds n = true ↔
          r.receivedStates.holds n = true ∧ min throwawayNum r.receivedStates.last.num ≤ n := by
        rw [History.lend, holds_setState]
        exact holds_cull
      rw [← hlent, History.holds_iff, History.holds_iff]
      constructor
      · rintro ⟨e, he, rfl⟩
        rcases (hmem e).mp he with rfl | he
        · exact Or.inl rfl
        · exact Or.inr ⟨e, he, rfl⟩
      · rintro (rfl | ⟨e, he, rfl⟩)
        · exact ⟨_, (hmem _).mpr (Or.inl rfl), rfl⟩
        · exact ⟨e, (hmem e).mpr (Or.inr he), rfl⟩

theorem Received.sorted (h : Received r now oldNum newNum throwawayNum diff h' outcome)
    (hs : Sorted r.receivedStates) : Sorted h' := by
  cases h with
  | refused _ => exact hs
  | culled _ _ _ => exact hs.cull _
  | malformed i _ _ => exact (hs.cull _).setState i _
  | filed _ _ _ _ _ _ hsorted _ _ _ => exact hsorted

theorem Received.newest (h : Received r now oldNum newNum throwawayNum diff h' outcome) :
    r.receivedStates.last.num < h'.last.num ∧ outcome = .ok (.newState newNum) ∨
      h'.last.num = r.receivedStates.last.num ∧ ∀ k, outcome ≠ .ok (.newState k) := by
  cases h with
  | refused _ => exact Or.inr ⟨rfl, fun k hk => by cases hk⟩
  | culled _ _ _ => exact Or.inr ⟨by rw [History.cull_last], fun k hk => by cases hk⟩
  | malformed i _ _ =>
      refine Or.inr ⟨?_, fun k hk => by cases hk⟩
      rw [History.lend, History.setState_last, History.cull_last]
  | filed _ _ _ _ _ _ _ _ _ hwhere =>
      rcases hwhere with ⟨rfl, hlt, hlast⟩ | ⟨rfl, -, hlast⟩
      · exact Or.inl ⟨hlast ▸ hlt, rfl⟩
      · exact Or.inr ⟨hlast, fun k hk => by cases hk⟩

/-- A call that files nothing adds no state and leaves those it keeps what they
were. -/
theorem Received.kept [Adopting R]
    (h : Received r now oldNum newNum throwawayNum diff h' outcome)
    (hout : outcome = .ok .ignored ∨ ∃ e, outcome = .error e) :
    ∀ x ∈ h'.entries, ∃ e ∈ r.receivedStates.entries, x.num = e.num ∧ x.timestamp = e.timestamp ∧
      stateEqual x.state e.state = true := by
  cases h with
  | refused _ => exact fun x hx => ⟨x, hx, rfl, rfl, Adopting.equal_refl _⟩
  | culled _ _ _ =>
      exact fun x hx => ⟨x, (History.mem_cull.mp hx).1, rfl, rfl, Adopting.equal_refl _⟩
  | malformed i hi _ =>
      obtain ⟨hget, -, hlt⟩ := History.position_some hi
      intro x hx
      rcases History.mem_setState hlt hx with rfl | hx
      · exact ⟨_, (History.mem_cull.mp hget).1, rfl, rfl, Adopting.adopt_equal _⟩
      · exact ⟨x, (History.mem_cull.mp hx).1, rfl, rfl, Adopting.equal_refl _⟩
  | filed _ _ _ _ _ _ _ _ _ hwhere =>
      rcases hwhere with ⟨rfl, -⟩ | ⟨rfl, -⟩ <;> simp at hout

end Step

/-! ## A run -/

/-- The invariant of a run, with the numbers inserted so far. -/
structure Holding (t : Transport M R) : Prop where
  sorted : Sorted t.receiver.receivedStates
  ack : t.sender.ackNum = t.receiver.receivedStates.last.num

variable {t : Transport M R} {now : Nat} {inst : Instruction}

variable (now inst) in
omit [State M] in
/-- One instruction: the history read back, and the number acknowledged. -/
theorem processInstruction_received (hs : Sorted t.receiver.receivedStates) :
    (t.processInstruction now inst).1.receiver.receivedStates = t.receiver.receivedStates ∧
        (t.processInstruction now inst).1.sender.ackNum = t.sender.ackNum ∧
        (∃ e, (t.processInstruction now inst).2 = .error e) ∨
      Received t.receiver now (inst.oldNum.getD 0) (inst.newNum.getD 0)
          (inst.throwawayNum.getD 0) (inst.diff.getD [])
          (t.processInstruction now inst).1.receiver.receivedStates
          (t.processInstruction now inst).2 ∧
        ((∃ k, (t.processInstruction now inst).2 = .ok (.newState k) ∧
            (t.processInstruction now inst).1.sender.ackNum
              = (t.processInstruction now inst).1.receiver.receivedStates.last.num) ∨
          (∀ k, (t.processInstruction now inst).2 ≠ .ok (.newState k)) ∧
            (t.processInstruction now inst).1.sender.ackNum = t.sender.ackNum) := by
  by_cases hver : inst.protocolVersion = some MORSH_PROTOCOL_VERSION
  · obtain ⟨hrec, hout⟩ := @processInstruction_receiver _ _ _ t now inst hver
    obtain ⟨-, -, -, -, hack⟩ := @processInstruction_sender _ _ _ t now inst hver
    have hreceived := (Receiver.receive_cases hs now (inst.oldNum.getD 0) (inst.newNum.getD 0)
      (inst.throwawayNum.getD 0) (inst.diff.getD [])).1
    rw [← hrec, ← hout] at hreceived
    exact Or.inr ⟨hreceived, hack⟩
  · refine Or.inl ?_
    rw [Transport.processInstruction, if_pos hver]
    exact ⟨rfl, rfl, _, rfl⟩

omit [State M] in
theorem Holding.step (h : Holding t) :
    Holding (t.processInstruction now inst).1 ∧
      t.sender.ackNum ≤ (t.processInstruction now inst).1.sender.ackNum := by
  obtain ⟨hsorted, hack⟩ := h
  rcases processInstruction_received now inst hsorted with
    ⟨hsame, hackSame, -⟩ | ⟨hreceived, hcase⟩
  · exact ⟨⟨hsame ▸ hsorted, by rw [hackSame, hack, hsame]⟩, Nat.le_of_eq hackSame.symm⟩
  · refine ⟨⟨hreceived.sorted hsorted, ?_⟩, ?_⟩
    · rcases hcase with ⟨-, -, hnew⟩ | ⟨hout, hackSame⟩
      · exact hnew
      · rcases hreceived.newest with ⟨-, heq⟩ | ⟨hlast, -⟩
        · exact absurd heq (hout _)
        · rw [hackSame, hack, hlast]
    · rcases hcase with ⟨k, hout, hnew⟩ | ⟨-, hackSame⟩
      · rcases hreceived.newest with ⟨hlt, -⟩ | ⟨-, hnone⟩
        · rw [hnew, hack]
          exact Nat.le_of_lt hlt
        · exact absurd hout (hnone k)
      · exact Nat.le_of_eq hackSame.symm

/-- A number inserted is held, or below everything held. -/
def Spent (log : List Nat) (h : History R) : Prop :=
  ∀ n ∈ log, h.holds n = true ∨ ∀ k, h.holds k = true → n < k

omit [State R] in
theorem mem_inserted {before after : History R} {n : Nat} :
    n ∈ before.inserted after ↔ after.holds n = true ∧ before.holds n = false := by
  rw [History.inserted, List.mem_filter, List.mem_map, History.holds_iff]
  simp

omit [State R] in
theorem inserted_nodup {before after : History R} (hs : Sorted after) :
    (before.inserted after).Nodup := by
  refine List.Nodup.filter _ (List.Pairwise.map _ (fun a b hab => ?_) hs)
  exact Nat.ne_of_lt hab

variable (now) in
omit [State M] in
/-- An instruction that does not refer past its own number inserts no number a
second time. -/
theorem Spent.step {log : List Nat} (h : Spent log t.receiver.receivedStates) (hnodup : log.Nodup)
    (hs : Sorted t.receiver.receivedStates) (hle : inst.oldNum.getD 0 ≤ inst.newNum.getD 0) :
    Spent (log ++ t.receiver.receivedStates.inserted
        (t.processInstruction now inst).1.receiver.receivedStates)
      (t.processInstruction now inst).1.receiver.receivedStates ∧
    (log ++ t.receiver.receivedStates.inserted
        (t.processInstruction now inst).1.receiver.receivedStates).Nodup := by
  have hsorted' : Sorted (t.processInstruction now inst).1.receiver.receivedStates := by
    rcases processInstruction_received now inst hs with
      ⟨hsame, -⟩ | ⟨hreceived, -⟩
    · exact hsame ▸ hs
    · exact hreceived.sorted hs
  have hnumbers : ∃ cutoff,
      (∀ n, (t.processInstruction now inst).1.receiver.receivedStates.holds n = true ↔
        t.receiver.receivedStates.holds n = true ∧ cutoff ≤ n) ∨
      t.receiver.receivedStates.holds (inst.newNum.getD 0) = false ∧
        t.receiver.receivedStates.holds (inst.oldNum.getD 0) = true ∧
        cutoff ≤ inst.oldNum.getD 0 ∧
        ∀ n, (t.processInstruction now inst).1.receiver.receivedStates.holds n = true ↔
          n = inst.newNum.getD 0 ∨ t.receiver.receivedStates.holds n = true ∧ cutoff ≤ n := by
    rcases processInstruction_received now inst hs with
      ⟨hsame, -⟩ | ⟨hreceived, -⟩
    · exact ⟨0, Or.inl fun n => by simp [hsame]⟩
    · exact hreceived.numbers
  obtain ⟨cutoff, hnumbers⟩ := hnumbers
  refine ⟨fun n hn => ?_, ?_⟩
  · rcases List.mem_append.mp hn with hn | hn
    · rcases hnumbers with hall | ⟨hnew, hold, hcut, hall⟩
      · rcases h n hn with hheld | hbelow
        · by_cases hc : cutoff ≤ n
          · exact Or.inl ((hall n).mpr ⟨hheld, hc⟩)
          · exact Or.inr fun k hk => by have := ((hall k).mp hk).2; omega
        · exact Or.inr fun k hk => hbelow k ((hall k).mp hk).1
      · rcases h n hn with hheld | hbelow
        · by_cases hc : cutoff ≤ n
          · exact Or.inl ((hall n).mpr (Or.inr ⟨hheld, hc⟩))
          · refine Or.inr fun k hk => ?_
            rcases (hall k).mp hk with rfl | ⟨-, hk⟩ <;> omega
        · refine Or.inr fun k hk => ?_
          rcases (hall k).mp hk with rfl | ⟨hk, -⟩
          · exact Nat.lt_of_lt_of_le (hbelow _ hold) hle
          · exact hbelow k hk
    · exact Or.inl (mem_inserted.mp hn).1
  · refine List.nodup_append.mpr ⟨hnodup, inserted_nodup hsorted', fun a ha b hb hab => ?_⟩
    subst hab
    obtain ⟨hafter, hbefore⟩ := mem_inserted.mp hb
    rcases hnumbers with hall | ⟨hnew, hold, hcut, hall⟩
    · rw [((hall a).mp hafter).1] at hbefore
      cases hbefore
    · rcases (hall a).mp hafter with rfl | ⟨hheld, -⟩
      · -- the number is spent, so it is below the reference, which it is not
        rcases h _ ha with hheld | hbelow
        · rw [hheld] at hnew
          cases hnew
        · exact absurd (hbelow _ hold) (Nat.not_lt.mpr hle)
      · rw [hheld] at hbefore
        cases hbefore

omit [State M] in
theorem Spent.run {log : List Nat} (h : Spent log t.receiver.receivedStates) (hnodup : log.Nodup)
    (hs : Holding t) (insts : List (Nat × Instruction))
    (hle : ∀ p ∈ insts, p.2.oldNum.getD 0 ≤ p.2.newNum.getD 0) :
    (log ++ t.insertedBy insts).Nodup := by
  induction insts generalizing t log with
  | nil => simpa [Transport.insertedBy] using hnodup
  | cons p insts ih =>
      obtain ⟨hspent, hnodup'⟩ := h.step p.1 hnodup hs.sorted (hle p List.mem_cons_self)
      have hrest := ih hspent hnodup' hs.step.1 fun q hq => hle q (List.mem_cons_of_mem p hq)
      rwa [List.append_assoc] at hrest

omit [State M] in
theorem Holding.run (h : Holding t) (insts : List (Nat × Instruction)) :
    Holding (t.processAll insts) := by
  induction insts generalizing t with
  | nil => exact h
  | cons p insts ih => exact ih h.step.1

/-- Whatever instructions arrive: the numbers held are sorted, the newest of
them is the one acknowledged and it never falls; a call that is ignored or
fails adds nothing and changes nothing it keeps; and if no instruction refers
past its own number, none is inserted twice. -/
theorem Transport.receiver_invariant [Adopting R] (connection : Connection) (start : Nat)
    (init : M) (remote : R) (insts : List (Nat × Instruction)) :
    let t : Transport M R := (Transport.new connection start init remote).processAll insts
    t.receiver.receivedStates.entries ≠ [] ∧ Sorted t.receiver.receivedStates ∧
    t.sender.ackNum = t.receiver.receivedStates.last.num ∧ (insts = [] → t.sender.ackNum = 0) ∧
    (∀ now inst, t.sender.ackNum ≤ (t.processInstruction now inst).1.sender.ackNum ∧
      ((t.processInstruction now inst).2 = .ok .ignored ∨
          (∃ e, (t.processInstruction now inst).2 = .error e) →
        ∀ x ∈ (t.processInstruction now inst).1.receiver.receivedStates.entries,
          ∃ e ∈ t.receiver.receivedStates.entries, x.num = e.num ∧ x.timestamp = e.timestamp ∧
            stateEqual x.state e.state = true)) ∧
    ((∀ p ∈ insts, p.2.oldNum.getD 0 ≤ p.2.newNum.getD 0) →
      (0 :: (Transport.new connection start init remote).insertedBy insts).Nodup) := by
  have hnew : Holding (Transport.new (M := M) connection start init remote) :=
    ⟨List.pairwise_singleton _ _, rfl⟩
  have hrun := hnew.run insts
  refine ⟨History.ne _, hrun.sorted, hrun.ack, fun hnil => hnil ▸ rfl, fun now inst => ⟨hrun.step.2,
    fun hout => ?_⟩, fun hle => ?_⟩
  · rcases processInstruction_received now inst hrun.sorted with
      ⟨hsame, -⟩ | ⟨hreceived, -⟩
    · rw [hsame]
      exact fun x hx => ⟨x, hx, rfl, rfl, Adopting.equal_refl _⟩
    · exact hreceived.kept hout
  · have hspent : Spent [0]
        (Transport.new (M := M) connection start init remote).receiver.receivedStates := by
      intro n hn
      rw [List.mem_singleton.mp hn]
      exact Or.inl rfl
    exact hspent.run (List.nodup_singleton 0) hnew insts hle

section Witness

/-- An instruction with the fields the receiver reads. -/
def numbered (oldNum newNum throwawayNum : Nat) (diff : Bytes) : Instruction where
  protocolVersion := some MORSH_PROTOCOL_VERSION
  oldNum := some oldNum
  newNum := some newNum
  ackNum := none
  throwawayNum := some throwawayNum
  diff := some diff
  chaff := none

/-- States 3 and 2 arrive out of order, a forged instruction throws all but the
newest away, and 2 arrives again; the last diff does not parse. -/
def shuffled : List (Nat × Instruction) :=
  [(1, numbered 0 1 0 []), (2, numbered 1 3 0 []), (3, numbered 1 2 0 []),
    (4, numbered 3 5 (2 ^ 64 - 1) []), (5, numbered 1 2 0 []), (6, numbered 3 4 0 []),
    (7, numbered 5 6 5 [255])]

/-- Two queues of keys, one each way. -/
def quiet : Transport UserStream UserStream := Transport.new ⟨true, 0, 0⟩ 0 .new .new

theorem Transport.receiver_invariant_shuffled :
    quiet.insertedBy shuffled = [1, 3, 2, 5, 4] ∧
    (quiet.processAll shuffled).receiver.receivedStates.entries.map (·.num) = [5] ∧
    (quiet.processAll shuffled).sender.ackNum = 5 ∧ (0 :: quiet.insertedBy shuffled).Nodup := by
  have hle : ∀ p ∈ shuffled, p.2.oldNum.getD 0 ≤ p.2.newNum.getD 0 := by decide
  have hinv := Transport.receiver_invariant (M := UserStream) ⟨true, 0, 0⟩ 0 .new
    UserStream.new shuffled
  exact ⟨by decide +kernel, by decide +kernel, by decide +kernel, hinv.2.2.2.2.2 hle⟩

end Witness

end Morsh
