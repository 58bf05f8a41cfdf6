import Morsh.Proofs.World

/-!
# The state sent under the shutdown number

Shutdown ends the editing, so whatever is first recorded under the shutdown
number is the final state. This needs neither the peer nor any law of the
state: the value of every state is taken to be one and the same, and what is
left of the record is which numbers have been used.

The trivial account is what shows it: with one value for all states nothing is
left to be proved about diffs, and the lemmas about the record give that the
shutdown number has no value while shutdown has not begun. From then on there
are no edits, so the state the number is first used for is the current one, and
stays it. The same account serves wherever a session is followed in one
direction only.
-/

namespace Morsh

open State

variable {M R E : Type} [State M] [State R] {act : M → E → M}

/-- Every state has the same value. -/
def Meaning.trivial (S : Type) [State S] : Meaning S Unit where
  Frame := Unit
  rep _ _ _ := True
  le _ _ := True
  le_refl _ := True.intro
  le_trans _ _ := True.intro
  clone _ := True.intro
  equal _ _ _ _ := rfl
  empty _ _ _ _ := rfl
  apply _ _ _ _ _ := True.intro
  adopt _ := ⟨True.intro, True.intro⟩
  trim _ _ _ _ _ := ⟨(), fun _ _ _ _ => True.intro⟩

def Account.trivial (act : M → E → M) : Account M E Unit where
  meaning := .trivial M
  act := act
  val _ := ()
  Handed _ _ := True
  edit_rep _ := True.intro
  edit_le := True.intro
  handed_step _ _ _ _ := True.intro

/-- Without a prefix to cut off, only an edit changes the state. -/
theorem calculateTimers_current {s : TransportSender M} (hpre : hasPrefix M = false)
    {now timeout srttMs : Nat} :
    (s.calculateTimers now timeout srttMs).currentState = s.currentState := by
  obtain ⟨-, hcur, -, -⟩ := @TransportSender.calculateTimers_frame _ _ s now timeout srttMs
  rw [hcur, TransportSender.rationalizeStates, hpre]
  rfl

theorem waitTimeMs_current {s : TransportSender M} (hpre : hasPrefix M = false)
    {now timeout srttMs : Nat} {remote : Bool} :
    (s.waitTimeMs now timeout srttMs remote).1.currentState = s.currentState := by
  simp only [TransportSender.waitTimeMs]
  split <;> exact calculateTimers_current hpre

namespace Endpoint

/-- The state is what the edits make of the initial one, and so is what the
shutdown number was first used for. -/
structure Finished (act : M → E → M) (init : M) (x : Endpoint M R E) : Prop where
  traced : ∃ y : Endpoint R M Unit, Directed (.trivial act) x y
  current : x.transport.sender.currentState = x.edits.foldl act init
  final : ∀ u ∈ x.uses, u.num = SHUTDOWN_NUM →
    u.edits = x.edits ∧ u.state = clone x.transport.sender.currentState

variable {init : M} {x x' : Endpoint M R E} {incoming : List Instruction}

theorem Finished.start {now : Nat} {connection : Connection} {remoteInit : R}
    (hnow : now < CLOCK_RANGE) :
    Finished act init (Endpoint.start now connection init remoteInit) := by
  refine ⟨⟨.start 0 connection remoteInit init, ?_⟩, rfl, fun u hu hnum => ?_⟩
  · exact Traced.start (f := ()) (g := ()) True.intro True.intro True.intro hnow 0
  · rw [List.mem_singleton.mp hu] at hnum
    cases hnum

omit [State R] in
theorem Finished.unused (h : Finished act init x)
    (hrun : x.transport.sender.shutdownInProgress = false) :
    ∀ u ∈ x.uses, u.num ≠ SHUTDOWN_NUM := by
  intro u hu hnum
  obtain ⟨y, hdir⟩ := h.traced
  obtain ⟨got, -, hlinked⟩ := hdir.linked
  have hnone := hlinked.sender.running hlinked.inv hrun
  have hfind := List.find?_eq_none.mp (Option.map_eq_none_iff.mp hnone) u hu
  exact hfind (by simpa using hnum)

omit [State R] in
/-- The first state recorded under a number is the current one. A tick records a
copy of the current state, and notes it only if the number has not been used; a
number that is sent again is not noted again. -/
theorem Finished.recorded (h : Finished act init x) (hpre : hasPrefix M = false) {now : Nat}
    (hnow : x.clock ≤ now) (hrange : now < CLOCK_RANGE) (timeout srttMs : Nat) (remote : Bool)
    (chaff : Bytes) {u : Use E M}
    (hu : u ∈ noteSent x.uses x.edits (x.transport.sender.tick now timeout srttMs remote chaff)) :
    u ∈ x.uses ∨ u.edits = x.edits ∧ u.state = clone x.transport.sender.currentState := by
  obtain ⟨y, hdir⟩ := h.traced
  obtain ⟨got, -, hlinked⟩ := hdir.linked
  have htimers := hlinked.calculateTimers hnow hrange timeout srttMs
  unfold noteSent at hu
  obtain ⟨-, -, hcase⟩ :=
    TransportSender.tick_cases hlinked.inv hnow hrange timeout srttMs remote chaff
  rcases hcase with ⟨-, hnone⟩ | ⟨inst, ref, k, hsome, hem⟩
  · rw [hnone] at hu
    exact Or.inl hu
  · rw [hsome, Option.bind_some, hem.newNum] at hu
    simp only [] at hu
    rcases mem_note hu with hold | ⟨rfl, hunused⟩
    · exact Or.inl hold
    · refine Or.inr ⟨rfl, ?_⟩
      have hrec := hem.recorded
      generalize (x.transport.sender.tick now timeout srttMs remote chaff).1.sentStates = sent
        at hrec ⊢
      cases hrec with
      | again hnum _ _ =>
          -- the number of an entry of the history has been used
          obtain ⟨f, -, hassign⟩ := htimers.sender.states
          obtain ⟨v, hv, -⟩ := hassign _ (History.last_mem _)
          obtain ⟨w, hw, -⟩ := Option.map_eq_some_iff.mp hv
          rw [← hnum, hunused] at hw
          cases hw
      | fresh _ =>
          change (History.evict _).last.state = _
          rw [History.evict_last, History.push_last, calculateTimers_current hpre]

omit [State R] in
theorem Finished.tick_current (h : Finished act init x) (hpre : hasPrefix M = false) {now : Nat}
    (hnow : x.clock ≤ now) (hrange : now < CLOCK_RANGE) {timeout srttMs : Nat} {remote : Bool}
    {chaff : Bytes} :
    (x.transport.sender.tick now timeout srttMs remote chaff).1.currentState
      = x.transport.sender.currentState := by
  obtain ⟨y, hdir⟩ := h.traced
  obtain ⟨got, -, hlinked⟩ := hdir.linked
  obtain ⟨-, -, hcase⟩ :=
    TransportSender.tick_cases hlinked.inv hnow hrange timeout srttMs remote chaff
  rcases hcase with ⟨hq, -⟩ | ⟨inst, ref, k, -, hem⟩
  · exact hq.current.trans (calculateTimers_current hpre)
  · exact hem.current.trans (calculateTimers_current hpre)

/-- A step edits the state and the record of the edits, or neither. -/
theorem Finished.step_cases (h : Finished act init x) (hpre : hasPrefix M = false)
    (hstep : x.Stepped act incoming x') :
    (x'.transport.sender.currentState = x.transport.sender.currentState ∧ x'.edits = x.edits ∧
      ∀ u ∈ x'.uses, u ∈ x.uses ∨
        u.edits = x.edits ∧ u.state = clone x.transport.sender.currentState) ∨
    ∃ e, x.transport.sender.shutdownInProgress = false ∧
      x'.transport.sender.currentState = act x.transport.sender.currentState e ∧
      x'.edits = x.edits ++ [e] ∧ x'.uses = x.uses := by
  cases hstep with
  | idle connection => exact Or.inl ⟨rfl, rfl, fun u hu => Or.inl hu⟩
  | edit hrun e => exact Or.inr ⟨e, hrun, rfl, rfl, rfl⟩
  | tick now timeout srttMs remote chaff connection hnow hrange =>
      exact Or.inl ⟨h.tick_current hpre hnow hrange, rfl,
        fun u hu => h.recorded hpre hnow hrange timeout srttMs remote chaff hu⟩
  | wait now timeout srttMs remote hnow hrange =>
      exact Or.inl ⟨waitTimeMs_current hpre, rfl, fun u hu => Or.inl hu⟩
  | shutdown now =>
      refine Or.inl ⟨?_, rfl, fun u hu => Or.inl hu⟩
      simp only [TransportSender.startShutdown]
      split <;> rfl
  | process connection now inst hmem =>
      refine Or.inl ⟨?_, rfl, fun u hu => Or.inl hu⟩
      by_cases hver : inst.protocolVersion = some MORSH_PROTOCOL_VERSION
      · exact (processInstruction_sender hver).2.1
      · simp only [processInstruction_mismatch hver]
  | diff => exact Or.inl ⟨rfl, rfl, fun u hu => Or.inl hu⟩

theorem Finished.step (hpre : hasPrefix M = false) (h : Finished act init x)
    (hstep : x.Stepped act incoming x') : Finished act init x' := by
  have htraced : ∃ y : Endpoint R M Unit, Directed (.trivial act) x' y :=
    let ⟨y, hdir⟩ := h.traced
    ⟨y, hdir.sender_step hstep⟩
  rcases h.step_cases hpre hstep with ⟨hcur, hedits, huses⟩ | ⟨e, hrun, hcur, hedits, huses⟩
  · refine ⟨htraced, by rw [hcur, hedits, h.current], fun u hu hnum => ?_⟩
    rw [hcur, hedits]
    rcases huses u hu with hold | hnew
    · exact h.final u hold hnum
    · exact hnew
  · refine ⟨htraced, ?_, fun u hu hnum => ?_⟩
    · rw [hcur, hedits, List.foldl_append, ← h.current]
      rfl
    · -- shutdown has not begun, so its number is unused
      exact absurd hnum (h.unused hrun u (huses ▸ hu))

end Endpoint

end Morsh
