import Morsh.Proofs.Server
import Morsh.Proofs.Delivery
import Morsh.Server.World

/-!
# Both directions of a client and a server

The input direction reads a queue whose first event, the window size the client
pushed before it built its transport, is part of state 0 at the client's end
only; to the server it is a prefix cut off before anything was sent. The host
direction reads a screen by its dimensions.

So there are two accounts, one for each direction, and `step_client` and
`step_server` turn a step of either end into operations of its endpoint, for which
the record is known to be kept. What the server adds is its phase: until the
client's first state has come it has no child, has handed out nothing and does not
shut down (`Waited`). `Input` is this and the record, and the run lemma is by
induction over the operations of both ends in any order.
-/

namespace Morsh

open State

variable {T : Type} [Emulator T] [ProstMessage HostMessage] [ProstMessage UserMessage]

namespace Server

variable {V F : Type} {x : Endpoint (Complete T) UserStream HostEdit}

theorem Reaches.directed_sender {A : Account (Complete T) HostEdit V}
    (hact : A.act = HostEdit.apply) {y : Endpoint UserStream (Complete T) F}
    {x' : Endpoint (Complete T) UserStream HostEdit} (h : Directed A x y)
    (hreach : Reaches y.sent x x') : Directed A x' y := by
  induction hreach with
  | refl => exact h
  | tail _ hstep ih => exact ih.sender_step (hact ▸ hstep)

theorem Reaches.directed_receiver {A : Account UserStream F V}
    {y : Endpoint UserStream (Complete T) F} {x' : Endpoint (Complete T) UserStream HostEdit}
    (h : Directed A y x) (hreach : Reaches y.sent x x') : Directed A y x' := by
  induction hreach with
  | refl => exact h
  | tail _ hstep ih => exact ih.receiver_step hstep

end Server

namespace World

variable {w w' : World T}

theorem step_client {op : EndpointOp UserEvent} (h : w.step (.client op) = some w') :
    w.client.Stepped UserStream.push w.server.endpoint.sent w'.client ∧ w'.server = w.server := by
  obtain ⟨x, hx, rfl⟩ := Option.map_eq_some_iff.mp h
  exact ⟨Endpoint.step_cases hx, rfl⟩

theorem step_server {op : ServerOp} (h : w.step (.server op) = some w') :
    (∀ inst, Server.incoming op = some inst → inst ∈ w.client.sent) ∧
      w.server.step op = some w'.server ∧ w'.client = w.client := by
  simp only [step] at h
  split at h
  · next hmem =>
      obtain ⟨s, hs, rfl⟩ := Option.map_eq_some_iff.mp h
      exact ⟨fun inst hi => hmem inst hi, hs, rfl⟩
  · cases h

end World

/-! ## What the server keeps by itself -/

namespace Server

/-- Before the client's first state nothing has been handed out, there is no
child yet and shutdown has not begun. -/
structure Waited (s : Server T) : Prop where
  shutdown : s.phase = .waiting → s.shutdownInProgress = false
  handed : s.phase = .waiting → s.endpoint.handed = []
  pty : s.phase = .waiting → s.pty = .spawn

omit [Emulator T] [ProstMessage HostMessage] [ProstMessage UserMessage] in
theorem Waited.of_phase {s : Server T} (h : s.phase ≠ .waiting) : s.Waited :=
  ⟨fun hw => absurd hw h, fun hw => absurd hw h, fun hw => absurd hw h⟩

omit [Emulator T] [ProstMessage HostMessage] in
/-- A datagram does not begin a shutdown. -/
theorem recv_shutdown {x : Endpoint (Complete T) UserStream HostEdit} {now : Nat} {fresh : Bool}
    {datagram : Except String (Option Instruction)} :
    (x.recv now fresh datagram).transport.sender.shutdownInProgress
        = x.transport.sender.shutdownInProgress ∧
      (x.recv now fresh datagram).handed = x.handed := by
  refine ⟨?_, rfl⟩
  have hfresh : (if fresh then
      { x.transport with connection := { x.transport.connection with hasRemoteAddr := true } }
    else x.transport).sender = x.transport.sender := by
    split <;> rfl
  unfold Endpoint.recv Transport.processDatagram
  simp only []
  cases datagram with
  | error e => simp only [hfresh]
  | ok incoming =>
      cases incoming with
      | none => simp only [hfresh]
      | some inst =>
          by_cases hver : inst.protocolVersion = some MORSH_PROTOCOL_VERSION
          · simp only [(processInstruction_sender hver).2.2.1, hfresh]
          · simp only [processInstruction_mismatch hver, hfresh]

theorem Waited.step {s s' : Server T} {op : ServerOp} (hw : s.Waited)
    (h : s.step op = some s') : s'.Waited := by
  cases op with
  | pty op =>
      simp only [Server.step] at h
      split at h
      · cases h
      · next hphase =>
          obtain ⟨p, -, rfl⟩ := Option.map_eq_some_iff.mp h
          exact .of_phase hphase
  | await now fresh datagram =>
      simp only [Server.step] at h
      split at h
      · next hphase =>
          cases h
          exact ⟨fun _ => recv_shutdown.1.trans (hw.shutdown hphase.1),
            fun _ => recv_shutdown.2.trans (hw.handed hphase.1), fun _ => hw.pty hphase.1⟩
      · cases h
  | giveUp =>
      simp only [Server.step] at h
      split at h
      · cases h; exact .of_phase (by simp)
      · cases h
  | connect =>
      simp only [Server.step] at h
      split at h
      · cases h
        refine .of_phase ?_
        unfold connect
        simp only []
        split <;> simp
      · cases h
  | select now timeout srttMs branch =>
      simp only [Server.step] at h
      split at h
      · obtain ⟨s₁, -, rfl⟩ := Option.map_eq_some_iff.mp h
        exact .of_phase (by simp)
      · cases h
  | input now =>
      simp only [Server.step] at h
      split at h
      · cases h; exact .of_phase (by simp)
      · cases h
  | housekeeping now =>
      simp only [Server.step] at h
      split at h
      · cases h
        refine .of_phase ?_
        simp only []
        split <;> simp
      · cases h
  | tick now timeout srttMs chaff =>
      simp only [Server.step] at h
      split at h
      · cases h; exact .of_phase (by simp)
      · cases h

end Server

/-! ## Runs -/

namespace World

/-- What every run keeps of the input direction and of the server's start. -/
structure Input (init : UserStream) (w : World T) : Prop where
  directed : Directed (UserStream.account init) w.client w.server.endpoint
  waited : w.server.Waited

theorem Input.step {init : UserStream} {w w' : World T} {op : WorldOp} (h : Input init w)
    (hstep : w.step op = some w') : Input init w' := by
  cases op with
  | client op =>
      obtain ⟨hstepped, hsame⟩ := step_client hstep
      exact ⟨hsame ▸ h.directed.sender_step hstepped, hsame ▸ h.waited⟩
  | server op =>
      obtain ⟨hmem, hserver, hsame⟩ := step_server hstep
      have hreach := Server.step_reaches h.waited.shutdown hserver hmem
      exact ⟨hsame ▸ hreach.directed_receiver h.directed, h.waited.step hserver⟩

variable {now serverNow : Nat} {cols rows : Nat} {screen terminal : Complete T}

/-- The client's stream starts with its window size, which the server's start
leaves out: the two are the same value in different frames. -/
theorem Input.start (hnow : now < CLOCK_RANGE) :
    Input (firstStream cols rows) (World.start now serverNow cols rows screen terminal) :=
  ⟨Traced.start (f := []) (g := (firstStream cols rows).events) (List.append_nil _).symm
      rfl (show UserStream.Decoded _ [] _ from ⟨[], rfl, rfl⟩) hnow serverNow,
    fun _ => rfl, fun _ => rfl, fun _ => rfl⟩

theorem run_input (hnow : now < CLOCK_RANGE) {ops : List WorldOp} {w : World T}
    (hrun : Run.run step (World.start now serverNow cols rows screen terminal) ops = some w) :
    Input (firstStream cols rows) w :=
  Run.run_invariant (fun _ _ _ h hstep => h.step hstep) (.start hnow) hrun

/-- The host direction, under any account of the server's edits. Steps of the
client are receiver steps; a step of the server is a few calls of its endpoint,
each a sender step. -/
theorem run_host {V : Type} {A : Account (Complete T) HostEdit V} (hact : A.act = HostEdit.apply)
    (hnow : now < CLOCK_RANGE) (hserver : serverNow < CLOCK_RANGE) {f g : A.meaning.Frame}
    (hterminal : A.meaning.rep f terminal (A.val []))
    (hscreen : A.meaning.rep g screen (A.val [])) (hhanded : A.Handed [] (A.val []))
    {ops : List WorldOp} {w : World T}
    (hrun : Run.run step (World.start now serverNow cols rows screen terminal) ops = some w) :
    Directed A w.server.endpoint w.client := by
  have hinit : Directed A (World.start now serverNow cols rows screen terminal).server.endpoint
      (World.start now serverNow cols rows screen terminal).client :=
    Traced.start hterminal hscreen hhanded hserver now
  refine (Run.run_invariant (I := fun w : World T => Input (firstStream cols rows) w ∧
    Directed A w.server.endpoint w.client) ?_ ⟨.start hnow, hinit⟩ hrun).2
  rintro w op w' ⟨hinput, hdir⟩ hstep
  refine ⟨hinput.step hstep, ?_⟩
  cases op with
  | client op =>
      obtain ⟨hstepped, hsame⟩ := step_client hstep
      exact hsame ▸ hdir.receiver_step hstepped
  | server op =>
      obtain ⟨hmem, hserverstep, hsame⟩ := step_server hstep
      exact hsame ▸ (Server.step_reaches hinput.waited.shutdown hserverstep hmem).directed_sender
        hact hdir

end World

end Morsh
