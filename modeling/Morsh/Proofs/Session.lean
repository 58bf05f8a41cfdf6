import Morsh.Network.Session
import Morsh.Proofs.Account

/-!
# Both directions of a session

Every operation of an endpoint acts on its transport in one of a few ways, and
`Endpoint.step_cases` lists them once. What travels from `x` to `y` is then
kept by each step of `x` and by each step of `y`; `Directed` is the record of
that direction, and it is one of several such invariants.

An invariant of the direction from `x` to `y` has two step lemmas, one for a step
of the sender and one for a step of the receiver, and a run lemma that takes turns
between them. `Stepped` is what these are proved from: it lists what an operation
can do to a transport, without the clock of the call, the choice of the datagram
or whether it was fresh, so a case analysis has seven cases and none about the
arguments.
-/

namespace Morsh

open State

variable {M R E F V : Type} [State M] [State R]

namespace Endpoint

/-- What one operation does to an endpoint. -/
inductive Stepped (act : M → E → M) (incoming : List Instruction) (x : Endpoint M R E) :
    Endpoint M R E → Prop
  /-- The connection aside, nothing. -/
  | idle (connection : Connection) :
      Stepped act incoming x { x with transport := { x.transport with connection := connection } }
  | edit (hrun : x.transport.sender.shutdownInProgress = false) (e : E) :
      Stepped act incoming x { x with
        transport := { x.transport with
          sender := x.transport.sender.setCurrentState (act x.transport.sender.currentState e) }
        edits := x.edits ++ [e] }
  | tick (now timeout srttMs : Nat) (remote : Bool) (chaff : Bytes) (connection : Connection)
      (hnow : x.clock ≤ now) (hrange : now < CLOCK_RANGE) :
      Stepped act incoming x { x with
        clock := now
        transport := { x.transport with
          connection := connection
          sender := (x.transport.sender.tick now timeout srttMs remote chaff).1 }
        sent := x.sent ++ (x.transport.sender.tick now timeout srttMs remote chaff).2.toList
        uses := noteSent x.uses x.edits
          (x.transport.sender.tick now timeout srttMs remote chaff) }
  | wait (now timeout srttMs : Nat) (remote : Bool) (hnow : x.clock ≤ now)
      (hrange : now < CLOCK_RANGE) :
      Stepped act incoming x { x with
        clock := now
        transport := { x.transport with
          sender := (x.transport.sender.waitTimeMs now timeout srttMs remote).1 } }
  | shutdown (now : Nat) :
      Stepped act incoming x { x with
        transport := { x.transport with sender := x.transport.sender.startShutdown now } }
  | process (connection : Connection) (now : Nat) (inst : Instruction) (hmem : inst ∈ incoming) :
      Stepped act incoming x { x with
        transport := ({ x.transport with connection := connection }.processInstruction now
          inst).1
        processed := x.processed ++ [inst] }
  | diff :
      Stepped act incoming x { x with
        transport := { x.transport with receiver := x.transport.receiver.getRemoteDiff.1 }
        handed := x.handed ++ [x.transport.receiver.getRemoteDiff.2] }

variable {act : M → E → M} {incoming : List Instruction} {x : Endpoint M R E}

theorem Stepped.of_recv (now : Nat) (fresh : Bool)
    {datagram : Except String (Option Instruction)}
    (hmem : ∀ inst, datagram = .ok (some inst) → inst ∈ incoming) :
    Stepped act incoming x (x.recv now fresh datagram) := by
  have hfresh : ∃ connection, (if fresh then
      { x.transport with connection := { x.transport.connection with hasRemoteAddr := true } }
    else x.transport) = { x.transport with connection := connection } := by
    cases fresh with
    | false => exact ⟨x.transport.connection, rfl⟩
    | true => exact ⟨_, rfl⟩
  obtain ⟨connection, hconn⟩ := hfresh
  unfold Endpoint.recv Transport.processDatagram
  simp only [hconn]
  cases datagram with
  | error e => exact .idle connection
  | ok incoming =>
      cases incoming with
      | none => exact .idle connection
      | some inst => exact .process connection now inst (hmem inst rfl)

theorem step_cases {x' : Endpoint M R E} {op : EndpointOp E}
    (hstep : step act incoming x op = some x') : Stepped act incoming x x' := by
  cases op with
  | edit e =>
      simp only [step] at hstep
      split at hstep
      · cases hstep
      · next hrun =>
          cases hstep
          exact .edit (by simpa using hrun) e
  | tick now timeout srttMs chaff =>
      simp only [step] at hstep
      split at hstep
      · cases hstep
      · next hlt =>
          cases hstep
          exact .tick now.val timeout srttMs x.transport.connection.hasRemoteAddr chaff _
            (by omega) now.isLt
  | waitTime now timeout srttMs =>
      simp only [step] at hstep
      split at hstep
      · cases hstep
      · next hlt =>
          cases hstep
          exact .wait now.val timeout srttMs x.transport.connection.hasRemoteAddr (by omega)
            now.isLt
  | startShutdown now =>
      cases hstep
      exact .shutdown now
  | datagram now fresh index =>
      cases index with
      | none =>
          cases hstep
          exact .of_recv now fresh (by simp)
      | some index =>
          simp only [step] at hstep
          split at hstep
          · cases hstep
          · next inst hinst =>
              cases hstep
              refine .of_recv now fresh fun i hi => ?_
              cases hi
              exact List.mem_of_getElem? hinst
  | getRemoteDiff =>
      cases hstep
      exact .diff

theorem Stepped.useOf_eq {x' : Endpoint M R E} {num : Nat} {u : Use E M}
    (hstep : x.Stepped act incoming x') (hu : useOf x.uses num = some u) :
    useOf x'.uses num = some u := by
  cases hstep with
  | tick now timeout srttMs remote chaff connection hnow hrange =>
      simp only [noteSent]
      split
      · rw [useOf_note, hu]
      · exact hu
  | _ => exact hu

/-- The receiving half is left alone, takes in an instruction or hands out what
is new. -/
theorem Stepped.receiver_cases {x' : Endpoint M R E} (hstep : x.Stepped act incoming x') :
    x'.transport.receiver = x.transport.receiver ∨
      (∃ now, ∃ inst ∈ incoming, x'.transport.receiver
        = (x.transport.receiver.receive now (inst.oldNum.getD 0) (inst.newNum.getD 0)
            (inst.throwawayNum.getD 0) (inst.diff.getD [])).1) ∨
      x'.transport.receiver = x.transport.receiver.getRemoteDiff.1 := by
  cases hstep with
  | process connection now inst hmem =>
      by_cases hver : inst.protocolVersion = some MORSH_PROTOCOL_VERSION
      · exact .inr (.inl ⟨now, inst, hmem,
          (processInstruction_receiver (t := { x.transport with connection := connection })
            hver).1⟩)
      · left
        simp only [processInstruction_mismatch hver]
  | diff => exact .inr (.inr rfl)
  | _ => exact .inl rfl

theorem Stepped.remoteNum_le {x' : Endpoint M R E} (hstep : x.Stepped act incoming x')
    (hsorted : Sorted x.transport.receiver.receivedStates) :
    x.transport.getRemoteStateNum ≤ x'.transport.getRemoteStateNum := by
  simp only [Transport.getRemoteStateNum, Receiver.getRemoteStateNum]
  rcases hstep.receiver_cases with hsame | ⟨now, inst, -, hreceived⟩ | hdiff
  · exact Nat.le_of_eq (by rw [hsame])
  · rw [hreceived]
    exact (Receiver.receive_cases hsorted now _ _ _ _).1.last_le
  · exact Nat.le_of_eq (by rw [hdiff, Receiver.getRemoteDiff_num])

end Endpoint

namespace Session

variable {actLeft : M → E → M} {actRight : R → F → R} {s s' : Session M R E F}

theorem step_left {op : EndpointOp E} (h : step actLeft actRight s (.left op) = some s') :
    s.left.Stepped actLeft s.right.sent s'.left ∧ s'.right = s.right := by
  obtain ⟨x, hx, rfl⟩ := Option.map_eq_some_iff.mp h
  exact ⟨Endpoint.step_cases hx, rfl⟩

theorem step_right {op : EndpointOp F} (h : step actLeft actRight s (.right op) = some s') :
    s.right.Stepped actRight s.left.sent s'.right ∧ s'.left = s.left := by
  obtain ⟨y, hy, rfl⟩ := Option.map_eq_some_iff.mp h
  exact ⟨Endpoint.step_cases hy, rfl⟩

end Session

/-! ## The record of one direction -/

variable {A : Account M E V} {act' : R → F → R}

/-- The record of what travels from `x` to `y`. -/
def Directed (A : Account M E V) (x : Endpoint M R E) (y : Endpoint R M F) : Prop :=
  Traced A x.clock x.transport.sender x.sent y.transport.receiver x.edits x.uses y.handed

theorem Directed.sender_step {x x' : Endpoint M R E} {y : Endpoint R M F}
    {incoming : List Instruction} (h : Directed A x y) (hstep : x.Stepped A.act incoming x') :
    Directed A x' y := by
  cases hstep with
  | idle connection => exact h
  | edit hrun e => exact Traced.edit h hrun e
  | tick now timeout srttMs remote chaff connection hnow hrange =>
      exact Traced.tick h hnow hrange timeout srttMs remote chaff
  | wait now timeout srttMs remote hnow hrange =>
      exact Traced.waitTimeMs h hnow hrange timeout srttMs remote
  | shutdown now => exact Traced.startShutdown h now
  | process connection now inst hmem =>
      by_cases hver : inst.protocolVersion = some MORSH_PROTOCOL_VERSION
      · obtain ⟨hsent, hcur, hshut, hnext, -⟩ := @processInstruction_sender _ _ _
          { x.transport with connection := connection } now inst hver
        obtain ⟨hcur', hshut', -, hnext'⟩ :=
          processAcknowledgmentThrough_frame (s := x.transport.sender) (inst.ackNum.getD 0)
        exact (Traced.ack h (inst.ackNum.getD 0)).of_frame hsent (hcur.trans hcur'.symm)
          (hnext.trans hnext'.symm) (fun hs => by rw [hshut', ← hshut]; exact hs)
      · simp only [Directed, processInstruction_mismatch hver]
        exact h
  | diff => exact h

theorem Directed.receiver_step {x : Endpoint M R E} {y y' : Endpoint R M F}
    (h : Directed A x y) (hstep : y.Stepped act' x.sent y') : Directed A x y' := by
  cases hstep with
  | idle connection => exact h
  | edit hrun e => exact h
  | tick now timeout srttMs remote chaff connection hnow hrange => exact h
  | wait now timeout srttMs remote hnow hrange => exact h
  | shutdown now => exact h
  | process connection now inst hmem =>
      exact Traced.deliver (t := { y.transport with connection := connection }) h hmem now
  | diff =>
      obtain ⟨u, -, -, htraced⟩ := Traced.getRemoteDiff h
      exact htraced

end Morsh
