import Morsh.Network.SenderRun
import Morsh.Proofs.Agreement
import Morsh.Proofs.Delivery
import Morsh.Proofs.Fragment
import Morsh.Statesync.Complete

/-!
# Same numbering, same diff

The sender's numbers stand for values once and for all, so where a diff depends
on the values of its two states only, the two numbers of an instruction fix its
diff. The frames of the two states do not matter: cutting a common prefix off
both leaves the diff what it was.

`Explains` attaches to an instruction two states of the values its numbers stand
for, whose diff it carries. The invariant of a run is that everything emitted is
explained; a later assignment of values agrees with an earlier one, so an
explanation stays one. Two instructions with the same numbers are then explained
by states of the same values, and `Determined` says that their diffs are equal.

For a stream of input the diff of two values is what the later one has on top,
whatever was cut off in front. For a state without a prefix a value is a class of
`state_equal`, and it must be an equality that the diff respects. The fragmenter
compares everything but the diff, and this is why it may.
-/

namespace Morsh

open State

variable {E S V : Type} [State S]

namespace Valuation

variable {m : Valuation S V} {vals vals' : Nat → Option V}

/-- A diff depends on the values of its two states only. -/
def Determined (m : Valuation S V) : Prop :=
  ∀ {f g : m.Frame} {a c a' c' : S} {va vc : V}, m.rep f a va → m.rep f c vc → m.rep g a' va →
    m.rep g c' vc → m.le va vc → diffFrom c a = diffFrom c' a'

/-- The diff is one from a state of the old number's value to a state of the
new number's. -/
def Explains (m : Valuation S V) (vals : Nat → Option V) (inst : Instruction) : Prop :=
  ∃ a n va vn f old new, inst.oldNum = some a ∧ inst.newNum = some n ∧ vals a = some va ∧
    vals n = some vn ∧ m.le va vn ∧ m.rep f old va ∧ m.rep f new vn ∧
    inst.diff = some (diffFrom new old)

theorem Explains.mono {inst : Instruction} (h : m.Explains vals inst)
    (hext : Extends vals vals') : m.Explains vals' inst := by
  obtain ⟨a, n, va, vn, f, old, new, h₁, h₂, ha, hn, hrest⟩ := h
  exact ⟨a, n, va, vn, f, old, new, h₁, h₂, hext _ _ ha, hext _ _ hn, hrest⟩

theorem Explains.same_diff (hdet : m.Determined) {i j : Instruction} (hi : m.Explains vals i)
    (hj : m.Explains vals j) (hold : i.oldNum = j.oldNum) (hnew : i.newNum = j.newNum) :
    i.diff = j.diff := by
  obtain ⟨a, n, va, vn, f, old, new, h₁, h₂, ha, hn, hle, hrep, hrep', hdiff⟩ := hi
  obtain ⟨a', n', va', vn', f', old', new', h₁', h₂', ha', hn', -, hrep₁, hrep₂, hdiff'⟩ := hj
  obtain rfl : a = a' := Option.some.inj (h₁.symm.trans (hold.trans h₁'))
  obtain rfl : n = n' := Option.some.inj (h₂.symm.trans (hnew.trans h₂'))
  obtain rfl : va = va' := Option.some.inj (ha.symm.trans ha')
  obtain rfl : vn = vn' := Option.some.inj (hn.symm.trans hn')
  rw [hdiff, hdiff', hdet hrep hrep' hrep₁ hrep₂ hle]

/-! ## Runs -/

/-- The invariant of a run: the numbers have values, and they explain what was
emitted. -/
def Numbered (m : Valuation S V) (r : SenderRun S) : Prop :=
  ∃ vals cur, SenderInv r.clock r.sender ∧ m.SenderSynced vals cur r.sender ∧
    ∀ p ∈ r.emitted, m.Explains vals p.2

/-- An edit moves every reading of the state to one and the same later value. -/
def Follows (m : Valuation S V) (act : S → E → S) : Prop :=
  ∀ s v e, ∃ v', m.le v v' ∧ ∀ f, m.rep f s v → m.rep f (act s e) v'

variable {act : S → E → S} {r r' : SenderRun S}

theorem Numbered.tick (h : m.Numbered r) {now : Nat} (hnow : r.clock ≤ now)
    (hrange : now < CLOCK_RANGE) (timeout srttMs : Nat) (remote : Bool) (chaff : Bytes) :
    m.Numbered ⟨now, (r.sender.tick now timeout srttMs remote chaff).1,
      r.emitted ++ (r.sender.tick now timeout srttMs remote chaff).2.toList.map
        fun inst => (now, inst)⟩ := by
  obtain ⟨vals, cur, hinv, hsync, hall⟩ := h
  have hinv' := (TransportSender.tick_cases hinv hnow hrange timeout srttMs remote chaff).2.1
  rcases hsync.tick_recorded hinv hnow hrange timeout srttMs remote chaff with
    ⟨hnone, hs⟩ | ⟨inst, ref, k, hsome, htimers, -, hem, hval, hs⟩
  · refine ⟨vals, cur, hinv', hs, ?_⟩
    rw [hnone, Option.toList_none, List.map_nil, List.append_nil]
    exact hall
  · have hext := extends_update hval
    refine ⟨_, cur, hinv', hs, fun p hp => ?_⟩
    rw [hsome, Option.toList_some, List.map_singleton, List.mem_append, List.mem_singleton] at hp
    rcases hp with hp | rfl
    · exact (hall p hp).mono hext
    · obtain ⟨f, hcur, hassign⟩ := htimers.states
      obtain ⟨va, hva, hrep⟩ := hassign ref hem.ref_mem
      exact ⟨ref.num, k, va, cur, f, ref.state, _, hem.oldNum, hem.newNum, hext _ _ hva,
        Function.update_self .., htimers.top hva, hrep, hcur, hem.diff⟩

theorem Numbered.of_frame (h : m.Numbered r) {s' : TransportSender S}
    (hsent : s'.sentStates = r.sender.sentStates)
    (hcur : s'.currentState = r.sender.currentState)
    (hack : s'.nextAckTime = r.sender.nextAckTime)
    (hshut : s'.shutdownInProgress = false → r.sender.shutdownInProgress = false) :
    m.Numbered { r with sender := s' } := by
  obtain ⟨vals, cur, hinv, hsync, hall⟩ := h
  exact ⟨vals, cur, hinv.of_frame hsent hack hshut, hsync.of_frame hsent hcur, hall⟩

theorem Numbered.step (hfollows : m.Follows act) {op : SenderOp E} (h : m.Numbered r)
    (hstep : SenderRun.settledStep act r op = some r') : m.Numbered r' := by
  cases op with
  | edit e =>
      simp only [SenderRun.settledStep] at hstep
      split at hstep
      · cases hstep
      · next hrun =>
          cases hstep
          obtain ⟨vals, cur, hinv, hsync, hall⟩ := h
          obtain ⟨cur', hle, hrep⟩ := hfollows r.sender.currentState cur e
          exact ⟨vals, cur', hinv.of_frame rfl rfl fun hs => hs,
            hsync.edit hrep hle (hsync.running hinv (by simpa using hrun)), hall⟩
  | tick now timeout srttMs remote chaff =>
      simp only [SenderRun.settledStep, SenderRun.step] at hstep
      split at hstep
      · cases hstep
      · cases hstep
        exact h.tick (by omega) now.isLt timeout srttMs remote chaff
  | waitTime now timeout srttMs remote =>
      simp only [SenderRun.settledStep, SenderRun.step] at hstep
      split at hstep
      · cases hstep
      · cases hstep
        obtain ⟨vals, cur, hinv, hsync, hall⟩ := h
        refine ⟨vals, cur, ?_, ?_, hall⟩
        · unfold TransportSender.waitTimeMs
          simp only []
          split <;> exact hinv.calculateTimers (by omega) now.isLt timeout srttMs
        · unfold TransportSender.waitTimeMs
          simp only []
          split <;> exact hsync.calculateTimers hinv.nums now timeout srttMs
  | acknowledge num =>
      cases hstep
      obtain ⟨vals, cur, hinv, hsync, hall⟩ := h
      exact ⟨vals, cur, hinv.ack num, hsync.ack hinv num, hall⟩
  | startShutdown now =>
      cases hstep
      unfold TransportSender.startShutdown
      split
      · exact h
      · exact h.of_frame rfl rfl rfl (by simp)
  | setAckNum _ | setDataAck | remoteHeard _ =>
      cases hstep
      exact h.of_frame rfl rfl rfl fun hs => hs

theorem Numbered.start (now : Reading) {init : S} {f : m.Frame} {v : V} (hrep : m.rep f init v) :
    m.Numbered (SenderRun.start now init) :=
  ⟨_, v, .new now.isLt init, .new now hrep, fun p hp => by cases hp⟩

/-- In a run, the two numbers of an instruction fix its diff. Every instruction
carries a diff between the values of its two numbers, a number keeps its value for
good, and the diff is determined by the values. -/
theorem Numbered.same_diff (hfollows : m.Follows act) (hdet : m.Determined) (now : Reading)
    {init : S} {f : m.Frame} {v : V} (hrep : m.rep f init v) {ops : List (SenderOp E)}
    (hrun : Run.run (SenderRun.settledStep act) (SenderRun.start now init) ops = some r)
    {p q : Nat × Instruction} (hp : p ∈ r.emitted) (hq : q ∈ r.emitted)
    (hold : p.2.oldNum = q.2.oldNum) (hnew : p.2.newNum = q.2.newNum) : p.2.diff = q.2.diff := by
  obtain ⟨vals, cur, -, -, hall⟩ := Run.run_invariant (I := m.Numbered)
    (fun _ _ _ h hstep => h.step hfollows hstep) (.start now hrep) hrun
  exact (hall p hp).same_diff hdet (hall q hq) hold hnew

end Valuation

/-! ## The two kinds of state -/

/-- `state_equal` is an equality the diff respects. -/
class EqualDiffs (S : Type) [State S] : Prop where
  equal_refl : ∀ a : S, stateEqual a a = true
  equal_symm : ∀ {a b : S}, stateEqual a b = true → stateEqual b a = true
  equal_trans : ∀ {a b c : S}, stateEqual a b = true → stateEqual b c = true →
    stateEqual a c = true
  clone_equal : ∀ a : S, stateEqual (clone a) a = true
  diff_equal : ∀ {a b c d : S}, stateEqual a b = true → stateEqual c d = true →
    diffFrom c a = diffFrom d b

instance {T : Type} [Emulator T] [ProstMessage HostMessage] : EqualDiffs (Complete T) where
  equal_refl a := by simp [stateEqual]
  equal_symm h := by
    simp only [stateEqual, decide_eq_true_eq] at h ⊢
    exact ⟨h.1.symm, h.2.symm⟩
  equal_trans h h' := by
    simp only [stateEqual, decide_eq_true_eq] at h h' ⊢
    exact ⟨h.1.trans h'.1, h.2.trans h'.2⟩
  clone_equal a := by simp [stateEqual, clone, Complete.cloneState]
  diff_equal := by
    intro a b c d h h'
    simp only [stateEqual, decide_eq_true_eq] at h h'
    change ProstMessage.encode (Complete.diffMessage c a)
      = ProstMessage.encode (Complete.diffMessage d b)
    rw [Complete.diffMessage, Complete.diffMessage, h.1, h.2, h'.1, h'.2]

namespace EqualDiffs

variable [EqualDiffs S]

instance setoid (S : Type) [State S] [EqualDiffs S] : Setoid S where
  r a b := stateEqual a b = true
  iseqv := ⟨equal_refl, equal_symm, equal_trans⟩

/-- Every state stands for its class. -/
def valuation (hpre : hasPrefix S = false) : Valuation S (Quotient (setoid S)) where
  Frame := Unit
  rep _ s v := Quotient.mk _ s = v
  le _ _ := True
  le_refl _ := trivial
  le_trans _ _ := trivial
  clone h := (Quotient.sound (clone_equal _)).trans h
  equal ha hb _ heq := ha.symm.trans ((Quotient.sound heq).trans hb)
  trim h := by rw [hpre] at h; cases h

theorem valuation_determined (hpre : hasPrefix S = false) :
    (valuation hpre).Determined := by
  intro _ _ a c a' c' va vc ha hc ha' hc' _
  exact diff_equal (Quotient.exact (ha.trans ha'.symm)) (Quotient.exact (hc.trans hc'.symm))

theorem valuation_follows (hpre : hasPrefix S = false) :
    (valuation hpre).Follows fun _ (e : S) => e :=
  fun _ _ e => ⟨Quotient.mk _ e, trivial, fun _ _ => rfl⟩

end EqualDiffs

namespace UserStream

variable [ProstMessage UserMessage]

omit [ProstMessage UserMessage] in
theorem events_append {f va more : List UserEvent} {a c : UserStream} (ha : f ++ a.events = va)
    (hc : f ++ c.events = va ++ more) : c = ⟨a.events ++ more⟩ := by
  rw [← ha, List.append_assoc] at hc
  obtain ⟨events⟩ := c
  exact congrArg UserStream.mk (List.append_cancel_left hc)

theorem meaning_determined : meaning.toValuation.Determined := by
  intro f g a c a' c' va vc ha hc ha' hc' hle
  obtain ⟨more, rfl⟩ := hle
  rw [events_append ha hc, events_append ha' hc']
  exact (encodeDiffFrom_append a.events more).trans (encodeDiffFrom_append a'.events more).symm

theorem meaning_follows : meaning.toValuation.Follows push := by
  intro s v e
  refine ⟨v ++ [e], List.prefix_append _ _, fun (f : List UserEvent) h => ?_⟩
  change f ++ (s.events ++ [e]) = v ++ [e]
  rw [← List.append_assoc]
  exact congrArg (· ++ [e]) h

end UserStream

/-- Instructions of one run that agree in their two numbers agree in their
diff, and one the fragmenter takes for the last one is the last one. -/
def SameNumbersSameDiff (emitted : List (Nat × Instruction)) : Prop :=
  ∀ p ∈ emitted, ∀ q ∈ emitted,
    (p.2.oldNum = q.2.oldNum → p.2.newNum = q.2.newNum → p.2.diff = q.2.diff) ∧
    ∀ (f : Fragmenter) (maxPayload : Nat), f.lastInstruction = some p.2 →
      f.isNewInstruction q.2 maxPayload = false → p.2 = q.2

theorem SameNumbersSameDiff.intro {emitted : List (Nat × Instruction)}
    (h : ∀ p ∈ emitted, ∀ q ∈ emitted, p.2.oldNum = q.2.oldNum → p.2.newNum = q.2.newNum →
      p.2.diff = q.2.diff) : SameNumbersSameDiff emitted := by
  intro p hp q hq
  refine ⟨h p hp q hq, fun f maxPayload hlast hnew => ?_⟩
  obtain ⟨last, hlast', -, hsame⟩ := Fragmenter.isNewInstruction_false hnew
  rw [hlast] at hlast'
  cases hlast'
  have hequal : { p.2 with diff := q.2.diff } = q.2 := hsame
  have hold : p.2.oldNum = q.2.oldNum := by rw [← hequal]
  have hnum : p.2.newNum = q.2.newNum := by rw [← hequal]
  rw [← h p hp q hq hold hnum] at hequal
  exact hequal

/-- Over a stream of user input, and over any state without a prefix whose diff
respects `state_equal`: the numbers of an instruction fix its diff. -/
theorem same_numbers_same_diff [ProstMessage UserMessage] :
    (∀ (now : Reading) (init : UserStream) (ops : List (SenderOp UserEvent))
      (r : SenderRun UserStream),
      Run.run (SenderRun.settledStep UserStream.push) (SenderRun.start now init) ops = some r →
      SameNumbersSameDiff r.emitted) ∧
    ∀ (S : Type) [State S] [EqualDiffs S], hasPrefix S = false →
      ∀ (now : Reading) (init : S) (ops : List (SenderOp S)) (r : SenderRun S),
      Run.run (SenderRun.settledStep fun _ e => e) (SenderRun.start now init) ops = some r →
      SameNumbersSameDiff r.emitted := by
  refine ⟨fun now init ops r hrun => .intro fun p hp q hq hold hnew => ?_,
    fun S _ _ hpre now init ops r hrun => .intro fun p hp q hq hold hnew => ?_⟩
  · exact Valuation.Numbered.same_diff UserStream.meaning_follows UserStream.meaning_determined
      now (f := []) (List.nil_append _) hrun hp hq hold hnew
  · exact Valuation.Numbered.same_diff (EqualDiffs.valuation_follows hpre)
      (EqualDiffs.valuation_determined hpre) now (f := ()) rfl hrun hp hq hold hnew

section Witness

/-- A key retransmitted until it is acknowledged, an empty ack, and a shutdown
announced twice. -/
def repeated : Option (SenderRun UserStream) :=
  Run.run (SenderRun.settledStep UserStream.push) (SenderRun.start 0 .new)
    [.remoteHeard 0, .edit (.userByte 97), .tick 0 1000000000 250 true [],
      .tick 1100000000 1000000000 250 true [], .acknowledge 1, .waitTime 1200000000 1000 250 true,
      .tick 4100000000 1000 250 true [], .startShutdown 4200000000,
      .tick 4300000000 1000 250 true [], .tick 4500000000 1000 250 true []]

instance : EqualDiffs Register where
  equal_refl := LawfulState.equal_refl
  equal_symm := LawfulState.equal_symm
  equal_trans := LawfulState.equal_trans
  clone_equal := LawfulState.clone_equal
  diff_equal h h' := by rw [eq_of_beq h, eq_of_beq h']

/-- A register changed, retransmitted and changed back. -/
def restored : Option (SenderRun Register) :=
  Run.run (SenderRun.settledStep fun _ e => e) (SenderRun.start 0 ⟨0⟩)
    [.remoteHeard 0, .edit ⟨1⟩, .tick 0 1000000000 250 true [],
      .tick 1100000000 1000000000 250 true [], .edit ⟨0⟩, .waitTime 1200000000 1000 250 true,
      .tick 1400000000 1000000000 250 true []]

theorem same_numbers_same_diff_repeated :
    (∃ r, repeated = some r ∧
      r.emitted.map (fun p => (p.2.oldNum, p.2.newNum)) =
        [(some 0, some 1), (some 0, some 1), (some 1, some 2), (some 1, some SHUTDOWN_NUM),
          (some 1, some SHUTDOWN_NUM)] ∧
      SameNumbersSameDiff r.emitted) ∧
    ∃ r, restored = some r ∧ r.emitted.length = 2 ∧ SameNumbersSameDiff r.emitted :=
  ⟨⟨repeated.get (by decide +kernel), (Option.some_get _).symm, by decide +kernel,
      same_numbers_same_diff.1 _ _ _ _ (Option.some_get _).symm⟩,
    restored.get (by decide +kernel), (Option.some_get _).symm, by decide +kernel,
    same_numbers_same_diff.2 _ rfl _ _ _ _ (Option.some_get _).symm⟩

end Witness

end Morsh
