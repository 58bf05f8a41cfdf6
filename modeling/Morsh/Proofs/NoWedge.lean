import Morsh.Proofs.Floor

/-!
# A session never wedges

What `Floored` says of the two directions of a session, and of the input
direction what became of the events the client has dropped: they are part of
the state the server holds under the client's floor, of which the server itself
has at most dropped what it had already handed out.

Both directions are followed at once, since each needs of the other only that its
sender keeps its invariant: an ack is written on what the receiver sends. The
second half is about values. What the client has dropped is a front of its input,
the client's floor stands for at least that, and the server holds a state under
that number; what the server has cut off that state it had handed out.
-/

namespace Morsh

open State

variable {M R E F : Type} [State M] [State R]

/-- The direction from `x` to `y` can always make progress. -/
structure NoWedge (x : Endpoint M R E) (y : Endpoint R M F) : Prop where
  floor_held : y.received.holds x.floor = true
  shutdown_held : x.transport.sender.shutdownAcknowledged = true →
    y.received.holds SHUTDOWN_NUM = true
  /-- Only an accepted state is acknowledged. -/
  ack_accepted : y.received.holds y.transport.sender.ackNum = true
  throwaway_le_old : ∀ inst ∈ x.sent, ∃ t old, inst.throwawayNum = some t ∧
    inst.oldNum = some old ∧ t ≤ old
  /-- An instruction diffed against the floor passes both reference checks as
  long as no instruction with a later floor has been processed. -/
  reference_held : ∀ inst ∈ x.sent, inst.oldNum = inst.throwawayNum →
    (∀ d ∈ y.processed, d.throwawayNum.getD 0 ≤ inst.throwawayNum.getD 0) →
    y.received.holds (inst.oldNum.getD 0) = true ∧
      (y.transport.receiver.processThrowawayUntil
        (inst.throwawayNum.getD 0)).receivedStates.holds (inst.oldNum.getD 0) = true

omit [State M] [State R] in
theorem Floored.noWedge {x : Endpoint M R E} {y : Endpoint R M F} (h : Floored x y) :
    NoWedge x y := by
  refine ⟨h.held, fun hack => ?_, ?_, h.ordered, fun inst hi hold hd => ?_⟩
  · have hfloor : x.floor = SHUTDOWN_NUM := eq_of_beq hack
    exact hfloor ▸ h.held
  · rw [h.newest]
    exact History.holds_iff.mpr ⟨_, History.last_mem _, rfl⟩
  · have hheld := h.reference inst hi hold hd
    obtain ⟨e, he, hen⟩ := History.holds_iff.mp hheld
    refine ⟨hheld, History.holds_iff.mpr ⟨e, ?_, hen⟩⟩
    rw [hold] at hen
    exact History.mem_cull.mpr ⟨he, by omega⟩

theorem Session.run_floored {actLeft : M → E → M} {actRight : R → F → R} {now remoteNow : Nat}
    (hnow : now < CLOCK_RANGE) (hremote : remoteNow < CLOCK_RANGE)
    {connection remoteConnection : Connection} {init peerInit : M} {remoteInit remotePeerInit : R}
    {ops : List (SessionOp E F)} {s : Session M R E F}
    (hrun : Run.run (Session.step actLeft actRight)
      ⟨.start now connection init remotePeerInit,
        .start remoteNow remoteConnection remoteInit peerInit⟩ ops = some s) :
    Floored s.left s.right ∧ Floored s.right s.left := by
  refine Run.run_invariant (I := fun s : Session M R E F =>
    Floored s.left s.right ∧ Floored s.right s.left) ?_ ⟨.start hnow .., .start hremote ..⟩ hrun
  rintro s op s' ⟨hl, hr⟩ hstep
  cases op with
  | left op =>
      obtain ⟨hstepped, hsame⟩ := Session.step_left hstep
      rw [hsame]
      exact ⟨hl.sender_step hstepped, hr.receiver_step hl.inv hstepped⟩
  | right op =>
      obtain ⟨hstepped, hsame⟩ := Session.step_right hstep
      rw [hsame]
      exact ⟨hl.receiver_step hr.inv hstepped, hr.sender_step hstepped⟩

theorem Session.run_directed {V : Type} {A : Account M E V} {actRight : R → F → R}
    {now remoteNow : Nat} (hnow : now < CLOCK_RANGE)
    {connection remoteConnection : Connection} {init peerInit : M} {remoteInit remotePeerInit : R}
    {f g : A.meaning.Frame} (hinit : A.meaning.rep f init (A.val []))
    (hpeer : A.meaning.rep g peerInit (A.val [])) (hhanded : A.Handed [] (A.val []))
    {ops : List (SessionOp E F)} {s : Session M R E F}
    (hrun : Run.run (Session.step A.act actRight)
      ⟨.start now connection init remotePeerInit,
        .start remoteNow remoteConnection remoteInit peerInit⟩ ops = some s) :
    Directed A s.left s.right := by
  have hstart : Directed A
      (Endpoint.start (E := E) now connection init remotePeerInit)
      (Endpoint.start (E := F) remoteNow remoteConnection remoteInit peerInit) :=
    Traced.start hinit hpeer hhanded hnow remoteNow
  refine Run.run_invariant (I := fun s : Session M R E F => Directed A s.left s.right) ?_
    hstart hrun
  intro s op s' h hstep
  cases op with
  | left op =>
      obtain ⟨hstepped, hsame⟩ := Session.step_left hstep
      rw [hsame]
      exact h.sender_step hstepped
  | right op =>
      obtain ⟨hstepped, hsame⟩ := Session.step_right hstep
      rw [hsame]
      exact h.receiver_step hstepped

namespace UserStream

variable [ProstMessage UserMessage]

/-- The events `x` has dropped, against the state `y` holds under `x`'s floor. -/
def DroppedHeld (init : UserStream) (x : Endpoint UserStream R UserEvent)
    (y : Endpoint R UserStream F) : Prop :=
  ∃ dropped lists cut e, dropped ++ x.transport.sender.currentState.events
      = init.events ++ x.edits ∧
    e ∈ y.received.entries ∧ e.num = x.floor ∧ dropped <+: cut ++ e.state.events ∧
    y.handed.mapM eventsOf = .ok lists ∧ cut <+: init.events ++ lists.flatten

omit [State R] in
theorem droppedHeld {init : UserStream} {x : Endpoint UserStream R UserEvent}
    {y : Endpoint R UserStream F} (hfloor : Floored x y) (h : Directed (account init) x y) :
    DroppedHeld init x y := by
  obtain ⟨e, he, hen⟩ := History.holds_iff.mp hfloor.held
  obtain ⟨got, ⟨lists, hlists, hgot⟩, hlinked⟩ := h.linked
  obtain ⟨f, hcur, hassign⟩ := hlinked.sender.states
  obtain ⟨g, hassign', hlast⟩ := hlinked.receiver.states
  obtain ⟨v, hv, hfirst⟩ := hassign _ (History.first_mem _)
  obtain ⟨w, hw, hheld⟩ := hassign' e he
  have hvw : v = w := by
    rw [hen] at hw
    exact Option.some.inj (hv.symm.trans hw)
  refine ⟨f, lists, g, e, hcur, he, hen, ?_, hlists, ?_⟩
  · exact ⟨_, hfirst.trans (hvw.trans hheld.symm)⟩
  · exact ⟨_, hlast.trans hgot.symm⟩

end UserStream

/-- In every reachable state of a session each floor is held by the peer, only
accepted states are acknowledged, no instruction throws away the state it is
diffed against, and one diffed against the floor finds it; and what a client
has dropped from its queue, the server holds. -/
theorem session_never_wedges [ProstMessage UserMessage] :
    (∀ (M R E F : Type) [State M] [State R] (actLeft : M → E → M) (actRight : R → F → R)
      (now remoteNow : Reading) (connection remoteConnection : Connection) (init peerInit : M)
      (remoteInit remotePeerInit : R) (ops : List (SessionOp E F)) (s : Session M R E F),
      Run.run (Session.step actLeft actRight)
        ⟨.start now connection init remotePeerInit,
          .start remoteNow remoteConnection remoteInit peerInit⟩ ops = some s →
      NoWedge s.left s.right ∧ NoWedge s.right s.left) ∧
    (∀ (R F : Type) [State R] (actRight : R → F → R) (now remoteNow : Reading)
      (connection remoteConnection : Connection) (init : UserStream)
      (remoteInit remotePeerInit : R) (ops : List (SessionOp UserEvent F))
      (s : Session UserStream R UserEvent F),
      Run.run (Session.step UserStream.push actRight)
        ⟨.start now connection init remotePeerInit,
          .start remoteNow remoteConnection remoteInit init⟩ ops = some s →
      UserStream.DroppedHeld init s.left s.right) := by
  refine ⟨?_, ?_⟩
  · intro M R E F _ _ actLeft actRight now remoteNow _ _ _ _ _ _ ops s hrun
    obtain ⟨hl, hr⟩ := Session.run_floored now.isLt remoteNow.isLt hrun
    exact ⟨hl.noWedge, hr.noWedge⟩
  · intro R F _ actRight now remoteNow _ _ init _ _ ops s hrun
    have hnone : UserStream.Decoded init [] (init.events ++ []) := ⟨[], rfl, rfl⟩
    have hdir := Session.run_directed (A := UserStream.account init) now.isLt (f := [])
      (g := []) (List.append_nil _).symm (List.append_nil _).symm hnone hrun
    exact UserStream.droppedHeld (Session.run_floored now.isLt remoteNow.isLt hrun).1 hdir

/-- A key is sent, processed and acknowledged, and dropped from the queue. -/
def acknowledged : Option (Session UserStream UserStream UserEvent UserEvent) :=
  Run.run (Session.step UserStream.push UserStream.push)
    ⟨.start (0 : Reading) ⟨true, 0, 0⟩ .new .new, .start (0 : Reading) ⟨false, 0, 0⟩ .new .new⟩
    [.left (.edit (.userByte 97)), .left (.tick 0 1000 250 []), .right (.datagram 0 true (some 0)),
      .right .getRemoteDiff, .right (.tick 0 1000 250 []), .left (.datagram 5 true (some 0)),
      .left (.waitTime 1000000 1000 250)]

theorem session_never_wedges_acknowledged :
    ∃ s, acknowledged = some s ∧ s.left.floor = 1 ∧
      s.left.transport.sender.currentState.events = [] ∧
      (NoWedge s.left s.right ∧ NoWedge s.right s.left) ∧
      UserStream.DroppedHeld .new s.left s.right :=
  ⟨acknowledged.get (by decide +kernel), (Option.some_get _).symm, by decide +kernel,
    by decide +kernel,
    session_never_wedges.1 _ _ _ _ _ _ 0 0 _ _ _ _ _ _ _ _ (Option.some_get _).symm,
    session_never_wedges.2 _ _ _ 0 0 _ _ _ _ _ _ _ (Option.some_get _).symm⟩

end Morsh
