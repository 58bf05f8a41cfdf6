import Morsh.Proofs.Agreement
import Morsh.Proofs.Final
import Morsh.Proofs.NoWedge

/-!
# A clean stop loses nothing

A side leaves its loop when the peer has acknowledged its shutdown, or when it
has acknowledged the peer's. Either way the peer has taken in the last state of
whichever side was shutting down, and that state is final.

`Noted` is the one new invariant: the last ack a side has sent names a state it
holds. With what is known of the floor, either condition shows that the peer's
newest number is the shutdown number; numbers do not go beyond it. A value has
been assigned to it, and by then the sender was shutting down, so the value is the
one of all edits there will ever be. What that means depends on the state. For a
stream of input the next read hands out the rest of it, whatever the server's own
states are; for a state known by its diffs the peer holds an equal of it.
-/

namespace Morsh

open State

variable {M R E F V : Type} [State M] [State R]

/-! ## The ack noted by the fragmenter -/

/-- The last ack sent names a state that had been received. -/
def Noted (y : Endpoint R M F) : Prop :=
  y.transport.connection.fragmenterLastAckSent ≤ y.received.last.num

omit [State R] in
theorem recv_noted {y : Endpoint R M F} {now : Nat} {fresh : Bool}
    {incoming : Except String (Option Instruction)} :
    (y.recv now fresh incoming).transport.connection.fragmenterLastAckSent
      = y.transport.connection.fragmenterLastAckSent := by
  unfold Endpoint.recv Transport.processDatagram Transport.processInstruction
  cases fresh <;> simp only [Bool.false_eq_true, if_false, if_true] <;> repeat' split
  all_goals rfl

theorem Noted.step {x : Endpoint M R E} {y y' : Endpoint R M F} {act : R → F → R}
    {op : EndpointOp F} (hfloor : Floored x y) (hinv : SenderInv y.clock y.transport.sender)
    (h : Noted y) (hstep : y.step act x.sent op = some y') : Noted y' := by
  have hrise : y.received.last.num ≤ y'.received.last.num :=
    (Endpoint.step_cases hstep).remoteNum_le hfloor.sorted
  suffices hack : y'.transport.connection.fragmenterLastAckSent ≤ y.received.last.num from
    Nat.le_trans hack hrise
  cases op with
  | tick now timeout srttMs chaff =>
      simp only [Endpoint.step] at hstep
      split at hstep
      · cases hstep
      next hnow =>
      cases hstep
      obtain ⟨-, -, hnew⟩ := @TransportSender.tick_floor _ _ _ _ now.val timeout srttMs
        y.transport.connection.hasRemoteAddr chaff hinv (Nat.not_lt.mp hnow) now.isLt
      simp only [Endpoint.tick, Transport.tick]
      split
      · next inst hsome =>
          have hack := (hnew inst (by simp [hsome])).2.1
          simp only [hack, Option.getD_some, hfloor.newest, Nat.le_refl]
      · exact h
  | datagram now fresh index =>
      cases index with
      | none =>
          cases hstep
          exact Nat.le_trans (Nat.le_of_eq recv_noted) h
      | some index =>
          simp only [Endpoint.step] at hstep
          split at hstep
          · cases hstep
          · cases hstep
            exact Nat.le_trans (Nat.le_of_eq recv_noted) h
  | edit e | waitTime now timeout srttMs =>
      simp only [Endpoint.step] at hstep
      split at hstep
      · cases hstep
      · cases hstep
        exact h
  | startShutdown _ | getRemoteDiff =>
      cases hstep
      exact h

/-! ## Both directions -/

/-- What a session keeps in the direction from `x` to `y`. -/
structure Tracked (A : Account M E V) (x : Endpoint M R E) (y : Endpoint R M F) : Prop where
  floored : Floored x y
  directed : Directed A x y
  noted : Noted y

namespace Tracked

variable {A : Account M E V} {x x' : Endpoint M R E} {y y' : Endpoint R M F}

theorem sender_step {op : EndpointOp E} (h : Tracked A x y)
    (hstep : x.step A.act y.sent op = some x') : Tracked A x' y :=
  ⟨h.floored.sender_step (Endpoint.step_cases hstep),
    h.directed.sender_step (Endpoint.step_cases hstep), h.noted⟩

theorem receiver_step {act : R → F → R} {op : EndpointOp F} (h : Tracked A x y)
    (hinv : SenderInv y.clock y.transport.sender) (hstep : y.step act x.sent op = some y') :
    Tracked A x y' :=
  ⟨h.floored.receiver_step hinv (Endpoint.step_cases hstep),
    h.directed.receiver_step (Endpoint.step_cases hstep), h.noted.step h.floored hinv hstep⟩

omit [State R] in
theorem received_le (h : Tracked A x y) : y.received.last.num ≤ SHUTDOWN_NUM := by
  obtain ⟨got, -, hlinked⟩ := h.directed.linked
  obtain ⟨g, hassign, -⟩ := hlinked.receiver.states
  obtain ⟨v, hv, -⟩ := hassign _ y.transport.receiver.receivedStates.last_mem
  exact Nat.le_trans (hlinked.sender.used hv) hlinked.inv.last_le

omit [State R] in
/-- Either reason to stop shows that the state sent under the shutdown number
has been taken in. -/
theorem newest (h : Tracked A x y) (hstop : x.transport.sender.shutdownAcknowledged = true ∨
    y.transport.counterpartyShutdownAckSent = true) :
    y.received.last.num = SHUTDOWN_NUM := by
  refine Nat.le_antisymm h.received_le ?_
  rcases hstop with hacked | hsent
  · have hfloor : x.floor = SHUTDOWN_NUM := eq_of_beq hacked
    obtain ⟨e, he, hnum⟩ := History.holds_iff.mp h.floored.held
    exact hfloor ▸ hnum ▸ h.floored.sorted.le_last he
  · have hnoted : y.transport.connection.fragmenterLastAckSent = SHUTDOWN_NUM := eq_of_beq hsent
    exact hnoted ▸ h.noted

omit [State R] in
/-- Once it has, the sender is shutting down, and that state is the last one it
will ever have. -/
theorem final (h : Tracked A x y) (hnum : y.received.last.num = SHUTDOWN_NUM) :
    x.transport.sender.shutdownInProgress = true ∧
      A.vals x.uses SHUTDOWN_NUM = some (A.val x.edits) := by
  obtain ⟨got, -, hlinked⟩ := h.directed.linked
  obtain ⟨g, hassign, -⟩ := hlinked.receiver.states
  obtain ⟨v, hv, -⟩ := hassign _ y.transport.receiver.receivedStates.last_mem
  have hlast : y.transport.receiver.receivedStates.last.num = SHUTDOWN_NUM := hnum
  rw [hlast] at hv
  refine ⟨?_, hlinked.sender.final hv ▸ hv⟩
  cases hrun : x.transport.sender.shutdownInProgress with
  | true => rfl
  | false => cases (hlinked.sender.running hlinked.inv hrun).symm.trans hv

end Tracked

omit [State R] in
/-- The peer of a `UserStream` that has stopped for either reason is handed
everything by its next `get_remote_diff`. -/
theorem UserStream.handed_at_stop [ProstMessage UserMessage] {init : UserStream}
    {x : Endpoint UserStream R UserEvent} {y : Endpoint R UserStream F}
    (h : Tracked (account init) x y) (hnum : y.received.last.num = SHUTDOWN_NUM) :
    ∃ lists, y.getRemoteDiff.1.handed.mapM eventsOf = .ok lists ∧ lists.flatten = x.edits := by
  obtain ⟨u, hu, ⟨lists, hlists, hgot⟩, -⟩ := Traced.getRemoteDiff h.directed
  have hvals := (h.final hnum).2
  have hremote : y.transport.receiver.getRemoteStateNum = SHUTDOWN_NUM := hnum
  rw [hremote] at hu
  have hval : (account init).val u.edits = (account init).val x.edits := by
    simpa only [Account.vals, hu, Option.map_some, Option.some.injEq] using hvals
  exact ⟨lists, hlists, List.append_cancel_left (hgot.trans hval)⟩

omit [State R] in
/-- The newest state held by the peer of a state without a prefix is then the
current one. -/
theorem LawfulState.current_at_stop {S : Type} [State S] [LawfulState S]
    (hpre : hasPrefix S = false) {init : S} {x : Endpoint S R S} {y : Endpoint R S F}
    (h : Tracked (account hpre init) x y) (hnum : y.received.last.num = SHUTDOWN_NUM) :
    stateEqual y.received.last.state x.transport.sender.currentState = true := by
  obtain ⟨got, -, hlinked⟩ := h.directed.linked
  obtain ⟨f, hcur, -⟩ := hlinked.sender.states
  obtain ⟨g, hassign, -⟩ := hlinked.receiver.states
  obtain ⟨v, hv, hrep⟩ := hassign _ y.transport.receiver.receivedStates.last_mem
  have hlast : y.transport.receiver.receivedStates.last.num = SHUTDOWN_NUM := hnum
  rw [hlast] at hv
  obtain rfl := Option.some.inj (hv.symm.trans (h.final hnum).2)
  exact Quotient.exact (hrep.trans hcur.symm)

variable {W : Type} {A : Account M E V} {B : Account R F W}

/-- Both directions are tracked along a run. -/
theorem Session.run_tracked {now remoteNow : Nat} (hnow : now < CLOCK_RANGE)
    (hremote : remoteNow < CLOCK_RANGE) {connection remoteConnection : Connection}
    (hack : connection.fragmenterLastAckSent = 0)
    (hack' : remoteConnection.fragmenterLastAckSent = 0) {init peerInit : M}
    {remoteInit remotePeerInit : R} {f g : A.meaning.Frame} {f' g' : B.meaning.Frame}
    (hinit : A.meaning.rep f init (A.val [])) (hpeer : A.meaning.rep g peerInit (A.val []))
    (hhanded : A.Handed [] (A.val [])) (hinit' : B.meaning.rep f' remoteInit (B.val []))
    (hpeer' : B.meaning.rep g' remotePeerInit (B.val [])) (hhanded' : B.Handed [] (B.val []))
    {ops : List (SessionOp E F)} {s : Session M R E F}
    (hrun : Run.run (Session.step A.act B.act)
      ⟨.start now connection init remotePeerInit,
        .start remoteNow remoteConnection remoteInit peerInit⟩ ops = some s) :
    Tracked A s.left s.right ∧ Tracked B s.right s.left := by
  have hstart : Tracked A (Endpoint.start (E := E) now connection init remotePeerInit)
      (Endpoint.start (E := F) remoteNow remoteConnection remoteInit peerInit) :=
    ⟨.start hnow .., Traced.start hinit hpeer hhanded hnow remoteNow,
      Nat.le_trans (Nat.le_of_eq hack') (Nat.zero_le _)⟩
  have hstart' : Tracked B (Endpoint.start (E := F) remoteNow remoteConnection remoteInit peerInit)
      (Endpoint.start (E := E) now connection init remotePeerInit) :=
    ⟨.start hremote .., Traced.start hinit' hpeer' hhanded' hremote now,
      Nat.le_trans (Nat.le_of_eq hack) (Nat.zero_le _)⟩
  refine Run.run_invariant (I := fun s : Session M R E F =>
    Tracked A s.left s.right ∧ Tracked B s.right s.left) ?_ ⟨hstart, hstart'⟩ hrun
  rintro s op s' ⟨hl, hr⟩ hstep
  cases op with
  | left op =>
      obtain ⟨x, hx, rfl⟩ := Option.map_eq_some_iff.mp hstep
      exact ⟨hl.sender_step hx, hr.receiver_step hl.floored.inv hx⟩
  | right op =>
      obtain ⟨y, hy, rfl⟩ := Option.map_eq_some_iff.mp hstep
      exact ⟨hl.receiver_step hr.floored.inv hy, hr.sender_step hy⟩

/-- Whichever side leaves its loop cleanly once the client has acted to end the
session, and for whichever of the two reasons: the client had begun to shut down,
and all that was ever typed is in the server's hands with its next read. -/
theorem clean_stop_loses_nothing [ProstMessage UserMessage] (act : R → F → R)
    (now remoteNow : Reading) (attached remoteAttached : Bool) (heard remoteHeard : Nat)
    (init peerInit : UserStream) (hpeer : peerInit.events <:+ init.events)
    (remoteInit remotePeerInit : R) (ops : List (SessionOp UserEvent F))
    (s : Session UserStream R UserEvent F)
    (hrun : Run.run (Session.step UserStream.push act)
      ⟨.start now ⟨attached, heard, 0⟩ init remotePeerInit,
        .start remoteNow ⟨remoteAttached, remoteHeard, 0⟩ remoteInit peerInit⟩ ops = some s)
    (hstop : s.left.transport.sender.shutdownAcknowledged = true ∨
      s.right.transport.counterpartyShutdownAckSent = true) :
    s.left.transport.sender.shutdownInProgress = true ∧
      ∃ lists, s.right.getRemoteDiff.1.handed.mapM UserStream.eventsOf = .ok lists ∧
        lists.flatten = s.left.edits := by
  obtain ⟨front, hfront⟩ := hpeer
  have hnone : UserStream.Decoded init [] (init.events ++ []) := ⟨[], rfl, rfl⟩
  -- whatever the server sends, the input direction keeps its record
  obtain ⟨hinput, -⟩ := @Session.run_tracked _ _ _ _ _ _ _ _ (UserStream.account init)
    (Account.trivial act) _ _ now.isLt remoteNow.isLt ⟨attached, heard, 0⟩
    ⟨remoteAttached, remoteHeard, 0⟩ rfl rfl init peerInit remoteInit remotePeerInit [] front () ()
    (List.append_nil _).symm (hfront.trans (List.append_nil _).symm) hnone trivial trivial trivial
    _ _ hrun
  have hnum := hinput.newest hstop
  exact ⟨(hinput.final hnum).1, UserStream.handed_at_stop hinput hnum⟩

/-- The other direction, for a state that is known by its diffs: when the server
has acted to end the session, its peer's newest state is the last it had. -/
theorem clean_stop_keeps_last_state {S : Type} [State S] [LawfulState S]
    (hpre : hasPrefix S = false) (act : M → E → M) (now remoteNow : Reading)
    (attached remoteAttached : Bool) (heard remoteHeard : Nat) (init peerInit : M)
    (remoteInit remotePeerInit : S) (hremote : stateEqual remoteInit remotePeerInit = true)
    (ops : List (SessionOp E S)) (s : Session M S E S)
    (hrun : Run.run (Session.step act fun _ e => e)
      ⟨.start now ⟨attached, heard, 0⟩ init remotePeerInit,
        .start remoteNow ⟨remoteAttached, remoteHeard, 0⟩ remoteInit peerInit⟩ ops = some s)
    (hstop : s.right.transport.sender.shutdownAcknowledged = true ∨
      s.left.transport.counterpartyShutdownAckSent = true) :
    s.right.transport.sender.shutdownInProgress = true ∧
      stateEqual s.left.received.last.state s.right.transport.sender.currentState = true := by
  obtain ⟨-, hscreen⟩ := @Session.run_tracked _ _ _ _ _ _ _ _ (Account.trivial act)
    (LawfulState.account hpre remoteInit) _ _ now.isLt remoteNow.isLt ⟨attached, heard, 0⟩
    ⟨remoteAttached, remoteHeard, 0⟩ rfl rfl init peerInit remoteInit remotePeerInit () () () ()
    trivial trivial trivial rfl (Quotient.sound (LawfulState.equal_symm hremote)) trivial _ _ hrun
  have hnum := hscreen.newest hstop
  exact ⟨(hscreen.final hnum).1, LawfulState.current_at_stop hpre hscreen hnum⟩

/-- A client types a key and quits; the server takes both in and quits too. -/
def parted : Option (Session UserStream Register UserEvent Register) :=
  Run.run (Session.step UserStream.push fun _ e => e)
    ⟨.start (0 : Reading) ⟨true, 0, 0⟩ .new ⟨0⟩, .start (0 : Reading) ⟨false, 0, 0⟩ ⟨0⟩ .new⟩
    [.left (.edit (.userByte 97)), .left (.startShutdown 0), .left (.tick 1000000000 1000 250 []),
      .right (.datagram 0 true (some 0)), .right (.edit ⟨7⟩), .right (.startShutdown 0),
      .right (.tick 1000000000 1000 250 []), .left (.datagram 5 true (some 0)),
      .left (.tick 2000000000 1000 250 [])]

theorem parted_isSome : parted.isSome = true := by decide +kernel

/-- The client may stop, and everything typed has come. -/
theorem clean_stop_loses_nothing_parted :
    (parted.get parted_isSome).left.transport.sender.shutdownAcknowledged = true ∧
      ∃ lists, (parted.get parted_isSome).right.getRemoteDiff.1.handed.mapM UserStream.eventsOf
          = .ok lists ∧
        lists.flatten = (parted.get parted_isSome).left.edits := by
  have hstop : (parted.get parted_isSome).left.transport.sender.shutdownAcknowledged = true := by
    decide +kernel
  exact ⟨hstop, (clean_stop_loses_nothing (R := Register) (fun _ e => e) 0 0 true false 0 0 .new
    .new ⟨[], rfl⟩ ⟨0⟩ ⟨0⟩ _ _ (Option.some_get parted_isSome).symm (.inl hstop)).2⟩

/-- It has acknowledged the server's shutdown too, and holds the server's last
state. -/
theorem clean_stop_keeps_last_state_parted :
    (parted.get parted_isSome).left.transport.counterpartyShutdownAckSent = true ∧
      stateEqual (parted.get parted_isSome).left.received.last.state (⟨7⟩ : Register) = true := by
  have hstop : (parted.get parted_isSome).left.transport.counterpartyShutdownAckSent = true := by
    decide +kernel
  have hlast : (parted.get parted_isSome).right.transport.sender.currentState = ⟨7⟩ := by
    decide +kernel
  have hequal := (clean_stop_keeps_last_state (S := Register) rfl UserStream.push 0 0 true false 0 0
    .new .new ⟨0⟩ ⟨0⟩ (by decide) _ (parted.get parted_isSome) (Option.some_get _).symm
    (.inr hstop)).2
  rw [hlast] at hequal
  exact ⟨hstop, hequal⟩

end Morsh
