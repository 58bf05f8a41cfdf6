import Morsh.Proofs.Channel

/-!
# The two ends agree on every numbered state

For a state without a prefix the value is the state up to `state_equal`, and
there is only one frame. The laws are the ones the `State` trait documents.

Taking the quotient is what makes such a state an `Account`. Two states the code
takes for the same have one value, so a number that is announced again for a
state that only looks the same keeps its value. Of the diff only two laws are
used: it takes its reference to an equal of the state it was made of, and what it
makes of a reference depends on the reference up to `state_equal`. The theorem is
then the general one about accounts, read at the receiver's states and at the
states the sender's diffs were made of.

`Register` is the smallest state with these laws. The screen of the program is
none: where only its colors change it breaks the one on empty diffs.
-/

namespace Morsh

open State

/-- The laws of a synchronizable state. -/
class LawfulState (S : Type) [State S] : Prop where
  equal_refl : ∀ a : S, stateEqual a a = true
  equal_symm : ∀ {a b : S}, stateEqual a b = true → stateEqual b a = true
  equal_trans : ∀ {a b c : S}, stateEqual a b = true → stateEqual b c = true →
    stateEqual a c = true
  clone_equal : ∀ a : S, stateEqual (clone a) a = true
  /-- Adopting a resource changes neither state. -/
  adopt_equal : ∀ a : S, stateEqual (adoptFrom (clone a) a).1 a = true ∧
    stateEqual (adoptFrom (clone a) a).2 a = true
  round_trip : ∀ a c : S, ∃ s, applyString a (diffFrom c a) = .ok s ∧ stateEqual s c = true
  empty_diff : ∀ {a c : S}, diffFrom c a = [] → stateEqual a c = true
  apply_equal : ∀ {a b s t : S} {diff : Bytes}, stateEqual a b = true →
    applyString a diff = .ok s → applyString b diff = .ok t → stateEqual s t = true

namespace LawfulState

variable {S : Type} [State S] [LawfulState S]

/-- States up to `state_equal`. -/
instance setoid (S : Type) [State S] [LawfulState S] : Setoid S where
  r a b := stateEqual a b = true
  iseqv := ⟨equal_refl, equal_symm, equal_trans⟩

/-- Every state stands for its class. -/
def meaning (hpre : hasPrefix S = false) : Meaning S (Quotient (setoid S)) where
  Frame := Unit
  rep _ s v := Quotient.mk _ s = v
  le _ _ := True
  le_refl _ := trivial
  le_trans _ _ := trivial
  clone h := (Quotient.sound (clone_equal _)).trans h
  equal ha hb _ heq := ha.symm.trans ((Quotient.sound heq).trans hb)
  empty ha hc _ hdiff := ha.symm.trans ((Quotient.sound (empty_diff hdiff)).trans hc)
  apply := by
    intro _ _ a b c s va vc ha hc _ hb hs
    obtain ⟨t, ht, hequal⟩ := round_trip a c
    have hab : stateEqual a b = true := Quotient.exact (ha.trans hb.symm)
    exact (Quotient.sound (equal_trans (equal_symm (apply_equal hab ht hs)) hequal)).trans hc
  adopt h :=
    ⟨(Quotient.sound (adopt_equal _).1).trans h, (Quotient.sound (adopt_equal _).2).trans h⟩
  trim h := by rw [hpre] at h; cases h

/-- A channel whose edits replace the state. -/
def account (hpre : hasPrefix S = false) (init : S) : Account S S (Quotient (setoid S)) where
  meaning := meaning hpre
  act _ e := e
  val edits := Quotient.mk _ (edits.getLastD init)
  Handed _ _ := True
  edit_rep := by
    intro _ s es e _
    change Quotient.mk _ e = Quotient.mk _ ((es ++ [e]).getLastD init)
    rw [List.getLastD_concat]
  edit_le := trivial
  handed_step _ _ _ _ := trivial

/-- Every state the receiver holds is the one the sender recorded under its
number when it first used it, and every diff is computed from the state its old
number names. -/
theorem received_states_agree {M : Type} [State M] (hpre : hasPrefix S = false)
    (now : Reading) (remoteNow : Nat) (connection : Connection) (init remoteInit : S)
    (hinit : stateEqual init remoteInit = true) (remoteState : M) (ops : List (ChannelOp S))
    (ch : Channel S S M)
    (hrun : Run.run (Channel.step fun _ e => e)
      (Channel.start now remoteNow connection init remoteInit remoteState) ops = some ch) :
    (∀ e ∈ ch.remote.receiver.receivedStates.entries,
      ∃ u, useOf ch.uses e.num = some u ∧ stateEqual e.state u.state = true) ∧
    ∀ (now timeout srttMs : Nat) (remote : Bool) (chaff : Bytes) (inst : Instruction),
      ch.clock ≤ now → now < CLOCK_RANGE →
      (ch.sender.tick now timeout srttMs remote chaff).2 = some inst →
      ∃ ref ∈ ch.sender.sentStates.entries, inst.oldNum = some ref.num ∧
        inst.diff = some (diffFrom ch.sender.currentState ref.state) ∧
        ∃ u, useOf ch.uses ref.num = some u ∧ stateEqual ref.state u.state = true := by
  have hstart : Channel.Synced (account hpre init)
      (Channel.start now remoteNow connection init remoteInit remoteState) :=
    Traced.start (f := ()) (g := ()) rfl (Quotient.sound (equal_symm hinit)) trivial now.isLt
      remoteNow
  have hsync := Channel.run_synced hstart hrun
  obtain ⟨got, -, hlinked⟩ := hsync.linked
  -- an entry whose value is the one assigned to its number is the recorded state
  have hnamed : ∀ {f} {e : TimestampedState S},
      (∃ v, (account hpre init).vals ch.uses e.num = some v ∧
        (account hpre init).meaning.rep f e.state v) →
      ∃ u, useOf ch.uses e.num = some u ∧ stateEqual e.state u.state = true := by
    rintro f e ⟨v, hv, hrep⟩
    obtain ⟨u, hu, rfl⟩ := Option.map_eq_some_iff.mp hv
    obtain ⟨-, f', hrec⟩ := hsync.recorded u (List.mem_of_find?_eq_some hu)
    exact ⟨u, hu, Quotient.exact (hrep.trans hrec.symm)⟩
  refine ⟨fun e he => ?_, fun now timeout srttMs remote chaff inst hnow hrange hsome => ?_⟩
  · obtain ⟨g, hassign, -⟩ := hlinked.receiver.states
    exact hnamed (hassign e he)
  · obtain ⟨-, -, hcase⟩ :=
      TransportSender.tick_cases hlinked.inv hnow hrange timeout srttMs remote chaff
    rcases hcase with ⟨-, hnone⟩ | ⟨inst', ref, k, hsome', hem⟩
    · rw [hnone] at hsome; cases hsome
    · obtain rfl := Option.some.inj (hsome'.symm.trans hsome)
      obtain ⟨hsent, hcur, -, -⟩ :=
        @TransportSender.calculateTimers_frame _ _ ch.sender now timeout srttMs
      have hrat : ch.sender.rationalizeStates = ch.sender := by
        rw [TransportSender.rationalizeStates, hpre]
        exact if_pos rfl
      have href := hem.ref_mem
      have hdiff := hem.diff
      rw [hsent, hrat] at href
      rw [hcur, hrat] at hdiff
      obtain ⟨f, -, hassign⟩ := hlinked.sender.states
      exact ⟨ref, href, hem.oldNum, hdiff, hnamed (hassign ref href)⟩

end LawfulState

/-- A register, sent whole whenever it has changed. -/
structure Register where
  value : UInt8
  deriving DecidableEq, Repr

instance : State Register where
  hasPrefix := false
  clone s := s
  diffFrom s existing := if s = existing then [] else [s.value]
  applyString s
    | [] => .ok s
    | value :: _ => .ok ⟨value⟩
  subtract s _ := s
  stateEqual a b := a == b
  adoptFrom s source := (s, source)

instance : LawfulState Register where
  equal_refl a := beq_self_eq_true a
  equal_symm h := by rw [eq_of_beq h]; exact beq_self_eq_true _
  equal_trans h h' := by rw [eq_of_beq h, eq_of_beq h']; exact beq_self_eq_true _
  clone_equal a := beq_self_eq_true a
  adopt_equal a := ⟨beq_self_eq_true a, beq_self_eq_true a⟩
  round_trip a c := by
    change ∃ s, State.applyString a (if c = a then [] else [c.value]) = .ok s ∧ (s == c) = true
    by_cases h : c = a
    · rw [if_pos h]; exact ⟨a, rfl, by simp [h]⟩
    · rw [if_neg h]; exact ⟨c, rfl, by simp⟩
  empty_diff := by
    intro a c (h : (if c = a then [] else [c.value]) = [])
    change (a == c) = true
    by_cases hc : c = a
    · simp [hc]
    · rw [if_neg hc] at h; cases h
  apply_equal := by
    intro a b s t diff h hs ht
    rw [eq_of_beq h, ht] at hs
    cases hs
    exact beq_self_eq_true _

/-- A register changed twice, the second change arriving first. -/
def rewritten : Option (Channel Register Register Register) :=
  Run.run (Channel.step fun _ e => e)
    (Channel.start (0 : Reading) 0 ⟨true, 0, 0⟩ ⟨0⟩ ⟨0⟩ ⟨0⟩)
    [.edit ⟨1⟩, .tick 0 1000 250 true [], .edit ⟨2⟩, .waitTime 10000000 1000 250 true,
      .tick 1000000000 1000 250 true [], .deliver 1 0, .deliver 0 5]

theorem received_states_agree_rewritten :
    ∃ ch, rewritten = some ch ∧
      ch.remote.receiver.receivedStates.entries.map (fun e => (e.num, e.state))
        = [(0, ⟨0⟩), (1, ⟨1⟩), (2, ⟨2⟩)] ∧
      ∀ e ∈ ch.remote.receiver.receivedStates.entries,
        ∃ u, useOf ch.uses e.num = some u ∧ stateEqual e.state u.state = true :=
  ⟨rewritten.get (by decide +kernel), (Option.some_get _).symm, by decide +kernel,
    (LawfulState.received_states_agree rfl 0 0 _ _ _ (by decide) _ _ _
      (Option.some_get _).symm).1⟩

end Morsh
