import Morsh.Proofs.Dimensions
import Morsh.Statesync.Wire

/-!
# The window size at the start

The client queues its window size before it builds its transport, so the event
is part of its state 0 and of no diff; and the two ends start the host
direction from screens of their own sizes. Both come right on a terminal of 80
by 24 and on no other.

What the server takes at the start is read off the first diff it is handed: all
events from the client's start to the first use of the number it has accepted. The
resize the client pushed before is in its state 0, which the server takes for the
empty stream, so it is in no diff. The value of the input direction is the same on
both sides, in two frames, and that the sizes agree on a terminal of 80 by 24 is
that both sides start from that size. On any other a client that says nothing is
enough to tell them apart, and the run for it is built step by step.
-/

namespace Morsh

open State

namespace World

variable {T : Type} [Emulator T] [ProstMessage HostMessage] [ProstMessage UserMessage]
  {init : UserStream} {w : World T}

omit [Emulator T] [ProstMessage HostMessage] in
/-- The first diff the server takes is everything pushed between the client's
start and the first use of the accepted number. -/
theorem Input.first_events (h : Input init w) (hphase : w.server.phase = .waiting) :
    ∃ u, useOf w.client.uses w.server.endpoint.transport.getRemoteStateNum = some u ∧
      UserStream.eventsOf w.server.endpoint.getRemoteDiff.2 = .ok u.edits := by
  obtain ⟨u, hu, hdecoded, -⟩ := Traced.getRemoteDiff h.directed
  have hnone : w.server.endpoint.handed = [] := h.waited.handed hphase
  rw [hnone] at hdecoded
  obtain ⟨lists, hlists, hval⟩ := hdecoded
  have hone : lists.flatten = u.edits := List.append_cancel_left hval
  refine ⟨u, hu, ?_⟩
  change UserStream.eventsOf w.server.endpoint.transport.receiver.getRemoteDiff.2 = _
  rw [List.nil_append, List.mapM_cons] at hlists
  generalize UserStream.eventsOf w.server.endpoint.transport.receiver.getRemoteDiff.2 = r
    at hlists ⊢
  cases r with
  | error e => cases hlists
  | ok events =>
      cases hlists
      exact congrArg Except.ok ((List.append_nil events).symm.trans hone)

/-- What `wait_for_client` returns: the last size the client asked for since
its start, or 80 by 24. -/
theorem Input.connect_size (h : Input init w) {w' : World T}
    (hstep : w.step (.server .connect) = some w') :
    ∃ u, useOf w.client.uses w.server.endpoint.transport.getRemoteStateNum = some u ∧
      w'.server.ptySize = some (Server.sizeAfter .initial u.edits) := by
  obtain ⟨-, hserver, -⟩ := step_server hstep
  simp only [Server.step] at hserver
  split at hserver
  · next hphase =>
      obtain ⟨u, hu, hevents⟩ := h.first_events hphase.1
      refine ⟨u, hu, ?_⟩
      rw [← Option.some.inj hserver]
      unfold Server.connect
      simp only [hevents]
      split <;> rfl
  · cases hserver

omit [ProstMessage HostMessage] [ProstMessage UserMessage] in
theorem sizeAfter_of_no_resize {size : PtySize} {events : List UserEvent}
    (h : ∀ width height, .resize width height ∉ events) : Server.sizeAfter size events = size := by
  induction events with
  | nil => rfl
  | cons e events ih =>
      cases e with
      | userByte byte =>
          exact ih fun width height hmem => h width height (List.mem_cons_of_mem _ hmem)
      | resize width height => exact absurd List.mem_cons_self (h width height)

/-! ## A run in which the user does nothing -/

variable {cols rows : Nat} {now serverNow : Nat} {screen terminal : Complete T}

omit [ProstMessage HostMessage] [ProstMessage UserMessage] in
theorem subtractPrefix_self (s : UserStream) : s.subtractPrefix s = .new := by
  have h := UserStream.commonPrefixLen_append s.events []
  rw [List.append_nil] at h
  rw [UserStream.subtractPrefix, h, List.drop_length]
  rfl

omit [ProstMessage HostMessage] in
theorem encodeDiffFrom_new : UserStream.new.encodeDiffFrom .new = [] :=
  ProstMessage.encode_default (M := UserMessage)

omit [ProstMessage HostMessage] in
theorem calculateTimers_new (s : UserStream) (timeout srttMs : Nat) :
    (TransportSender.new now s).calculateTimers now timeout srttMs
      = { TransportSender.new now .new with nextSendTime := none } := by
  have hcut : State.subtract s s = UserStream.new := subtractPrefix_self s
  have hprefix : hasPrefix UserStream = true := rfl
  have hclone (x : UserStream) : State.clone x = x := rfl
  have hupdate : (TransportSender.new now s).updateAssumedReceiverState now timeout
      = TransportSender.new now s := rfl
  have hrat : (TransportSender.new now s).rationalizeStates = TransportSender.new now .new := by
    simp only [TransportSender.rationalizeStates, hprefix, TransportSender.new, History.single,
      History.mapState, History.first, List.map_cons, List.map_nil, List.head_cons, hclone, hcut,
      Bool.not_true, Bool.false_eq_true, if_false]
  rw [TransportSender.calculateTimers, hupdate, hrat]
  rfl

omit [ProstMessage HostMessage] [ProstMessage UserMessage] in
theorem tick_of_idle {S : Type} [State S] {s t : TransportSender S} {timeout srttMs : Nat}
    {chaff : Bytes} (htimers : s.calculateTimers now timeout srttMs = t)
    (hsend : t.nextSendTime = none) (hack : t.nextAckTime ≤ now)
    (hassumed : t.assumedReceiverState = 0)
    (hdiff : diffFrom t.currentState (t.sentStates.get 0).state = []) :
    (s.tick now timeout srttMs true chaff).2 = some (t.sendEmptyAck now chaff).2 := by
  rw [TransportSender.tick, htimers]
  simp [hsend, hack, hassumed, hdiff, TransportSender.attemptProspectiveResendOptimization]

omit [ProstMessage HostMessage] in
/-- The first packet of a client: an empty diff from state 0 to state 1. -/
theorem tick_new (s : UserStream) (timeout srttMs : Nat) (chaff : Bytes) :
    ((TransportSender.new now s).tick now timeout srttMs true chaff).2
      = some ⟨some MORSH_PROTOCOL_VERSION, some 0, some 1, some 0, some 0, some [],
        some chaff⟩ := by
  rw [tick_of_idle (calculateTimers_new s timeout srttMs) rfl (Nat.le_refl now) rfl
    encodeDiffFrom_new]
  rfl

omit [Emulator T] [ProstMessage HostMessage] [ProstMessage UserMessage] in
theorem tick_sends {M R E : Type} [State M] [State R] (x : Endpoint M R E) (timeout srttMs : Nat)
    (chaff : Bytes) :
    (x.tick now timeout srttMs chaff).sent
      = x.sent ++ (x.transport.sender.tick now timeout srttMs
          x.transport.connection.hasRemoteAddr chaff).2.toList := rfl

omit [Emulator T] [ProstMessage HostMessage] in
/-- A server that hears the first packet has the client's first state. -/
theorem recv_first (x : Endpoint (Complete T) UserStream HostEdit) (receivedAt heardAt : Nat)
    (chaff : Bytes) (hreceiver : x.transport.receiver = .new receivedAt .new) :
    (x.recv heardAt true (.ok (some
      ⟨some MORSH_PROTOCOL_VERSION, some 0, some 1, some 0, some 0, some [], some chaff⟩))
        ).transport.getRemoteStateNum = 1 := by
  unfold Endpoint.recv Transport.processDatagram Transport.getRemoteStateNum
  simp only [if_true]
  rw [(processInstruction_receiver rfl).1, hreceiver]
  rfl

/-- A client that sends its first packet and a server that receives it. So the
server connects before anything has been typed. -/
theorem connects (now serverNow : Reading) (cols rows : Nat) (screen terminal : Complete T) :
    ∃ (ops : List WorldOp) (w w' : World T),
      Run.run step (start now serverNow cols rows screen terminal) ops = some w ∧
      w.client.edits = [] ∧ w.step (.server .connect) = some w' := by
  let w₀ : World T := start now serverNow cols rows screen terminal
  let w₁ : World T := { w₀ with client := w₀.client.tick now.val 1000 250 [] }
  let packet : Instruction :=
    ⟨some MORSH_PROTOCOL_VERSION, some 0, some 1, some 0, some 0, some [], some []⟩
  let w₂ : World T := { w₁ with
    server := { w₁.server with endpoint := w₁.server.endpoint.recv serverNow true (.ok packet) } }
  have hsent : packet ∈ w₁.client.sent := by
    have hsender : w₀.client.transport.sender = .new now.val (firstStream cols rows) := rfl
    have hfirst : ((TransportSender.new now.val (firstStream cols rows)).tick now.val 1000 250 true
        []).2 = some packet := tick_new _ 1000 250 []
    rw [show w₁.client = w₀.client.tick now.val 1000 250 [] from rfl, tick_sends, hsender]
    exact List.mem_append_right _ (Option.mem_toList.mpr hfirst)
  have htick : w₀.step (.client (.tick now 1000 250 [])) = some w₁ := by
    have hclock : ¬now.val < w₀.client.clock := lt_irrefl _
    rw [step, Endpoint.step, if_neg hclock]
    rfl
  have hrecv : w₁.step (.server (.await serverNow true (.ok packet))) = some w₂ := by
    have hmem : ∀ inst ∈ Server.incoming (.await serverNow true (.ok packet)),
        inst ∈ w₁.client.sent := fun inst hi => Option.some.inj hi ▸ hsent
    rw [step, if_pos hmem, Server.step, if_pos ⟨rfl, rfl⟩]
    rfl
  have hnum : w₂.server.endpoint.transport.getRemoteStateNum = 1 :=
    recv_first w₁.server.endpoint serverNow serverNow [] rfl
  refine ⟨[_, _], w₂, { w₂ with server := w₂.server.connect },
    Run.run_cons.mpr ⟨w₁, htick, Run.run_cons.mpr ⟨w₂, hrecv, rfl⟩⟩, rfl, ?_⟩
  rw [step, if_pos (fun inst hi => (Option.some_ne_none inst hi.symm).elim), Server.step,
    if_pos ⟨rfl, by rw [hnum]; exact one_ne_zero⟩]
  rfl

/-- Connected without a word from the user, the server takes 80 by 24. -/
theorem connects_initial (now serverNow : Reading) (cols rows : Nat)
    (screen terminal : Complete T) :
    ∃ (ops : List WorldOp) (w w' : World T) (u : Use UserEvent UserStream),
      Run.run step (start now serverNow cols rows screen terminal) ops = some w ∧
      w.step (.server .connect) = some w' ∧
      useOf w.client.uses w.server.endpoint.transport.getRemoteStateNum = some u ∧
      u.edits = [] ∧ w'.server.ptySize = some .initial := by
  obtain ⟨ops, w, w', hrun, hedits, hconnect⟩ := connects now serverNow cols rows screen terminal
  have hinput := run_input now.isLt hrun
  obtain ⟨u, hu, hsize⟩ := hinput.connect_size hconnect
  have hnone : u.edits = [] := by
    have hprefix := (hinput.directed.recorded u (List.mem_of_find?_eq_some hu)).1
    rw [hedits] at hprefix
    exact List.prefix_nil.mp hprefix
  rw [hnone] at hsize
  exact ⟨ops, w, w', u, hrun, hconnect, hu, hnone, hsize⟩

variable [LawfulEmulator T]

/-- The size the server starts from is the size asked for since the client's
start, and 80 by 24 where none was. So the two ends agree, on that size and on
the dimensions of every numbered screen, in every run exactly where the
client's terminal is of 80 by 24. -/
theorem startup_sizes_agree {cols rows : Nat} (hcols : 1 ≤ cols ∧ cols ≤ 65535)
    (hrows : 1 ≤ rows ∧ rows ≤ 65535) (now serverNow : Reading) {screen terminal : Complete T}
    (hscreen : Complete.new cols rows = .ok screen)
    (hterminal : Complete.new 80 24 = .ok terminal) :
    (∀ (ops : List WorldOp) (w w' : World T),
      Run.run step (start now serverNow cols rows screen terminal) ops = some w →
      w.step (.server .connect) = some w' →
      ∃ u, useOf w.client.uses w.server.endpoint.transport.getRemoteStateNum = some u ∧
        w'.server.ptySize = some (Server.sizeAfter .initial u.edits)) ∧
    ((∀ (ops : List WorldOp) (w : World T),
      Run.run step (start now serverNow cols rows screen terminal) ops = some w →
      (∀ w' u, w.step (.server .connect) = some w' →
        useOf w.client.uses w.server.endpoint.transport.getRemoteStateNum = some u →
        (∀ width height, .resize width height ∉ u.edits) →
        w'.server.ptySize.map (fun size => (size.cols, size.rows)) = some (cols, rows)) ∧
      ∀ e ∈ w.client.transport.receiver.receivedStates.entries, 1 ≤ e.num →
        ∃ u, useOf w.server.endpoint.uses e.num = some u ∧
          e.state.dimensions = u.state.dimensions) ↔
      cols = 80 ∧ rows = 24) := by
  refine ⟨fun ops w w' hrun hconnect => (run_input now.isLt hrun).connect_size hconnect,
    fun h => ?_, ?_⟩
  · obtain ⟨ops, w, w', u, hrun, hconnect, hu, hnone, hsize⟩ :=
      connects_initial now serverNow cols rows screen terminal
    have hagree := (h ops w hrun).1 w' u hconnect hu (by simp [hnone])
    rw [hsize] at hagree
    obtain ⟨hc, hr⟩ := Prod.mk.inj (Option.some.inj hagree)
    exact ⟨hc.symm, hr.symm⟩
  · rintro ⟨rfl, rfl⟩ ops w hrun
    refine ⟨fun w' u hconnect hu hquiet => ?_, fun e he _ => ?_⟩
    · obtain ⟨v, hv, hsize⟩ := (run_input now.isLt hrun).connect_size hconnect
      obtain rfl : v = u := Option.some.inj (hv.symm.trans hu)
      rw [hsize, sizeAfter_of_no_resize hquiet]
      rfl
    · have hdirected := run_host (A := Complete.dimensionsAccount T) (f := ()) (g := ()) rfl
        now.isLt serverNow.isLt (Complete.Sized.new (by decide) (by decide) hterminal)
        (Complete.Sized.new (by decide) (by decide) hscreen) trivial hrun
      obtain ⟨got, -, hlinked⟩ := hdirected.linked
      obtain ⟨g, hassign, -⟩ := hlinked.receiver.states
      obtain ⟨v, hv, -, hdim⟩ := hassign e he
      obtain ⟨u, hu, rfl⟩ := Option.map_eq_some_iff.mp hv
      obtain ⟨-, f, -, hrec⟩ := hdirected.recorded u (List.mem_of_find?_eq_some hu)
      exact ⟨u, hu, hdim.trans hrec.symm⟩

end World

/-! ## On concrete terminals -/

namespace World

open VtTerminal in
/-- A client on a terminal of 100 by 30 is given 80 by 24. -/
theorem startup_size_ignored :
    ∃ (ops : List WorldOp) (w w' : World VtTerminal) (u : Use UserEvent UserStream),
      Run.run step (start (0 : Reading) (0 : Reading) 100 30 (opened 100 30) (opened 80 24)) ops
        = some w ∧
      w.step (.server .connect) = some w' ∧
      useOf w.client.uses w.server.endpoint.transport.getRemoteStateNum = some u ∧
      u.edits = [] ∧
      w'.server.ptySize.map (fun size => (size.cols, size.rows)) = some (80, 24) := by
  obtain ⟨ops, w, w', u, hrun, hconnect, hu, hnone, hsize⟩ :=
    connects_initial 0 0 100 30 (opened 100 30) (opened 80 24)
  exact ⟨ops, w, w', u, hrun, hconnect, hu, hnone, by rw [hsize]; rfl⟩

open VtTerminal in
/-- A client that says nothing, and a server that hears it. -/
def greeting : Option (World VtTerminal) :=
  Run.run step (start (0 : Reading) (0 : Reading) 100 30 (opened 100 30) (opened 80 24))
    [.client (.tick 0 1000 250 []),
      .server (.await 0 true (.ok (some
        ⟨some MORSH_PROTOCOL_VERSION, some 0, some 1, some 0, some 0, some [], some []⟩)))]

open VtTerminal in
theorem startup_sizes_agree_greeting :
    ∃ w w', greeting = some w ∧ w.step (.server .connect) = some w' ∧
      ∃ u, useOf w.client.uses w.server.endpoint.transport.getRemoteStateNum = some u ∧
        w'.server.ptySize = some (Server.sizeAfter .initial u.edits) :=
  ⟨greeting.get (by decide +kernel),
    ((greeting.get (by decide +kernel)).step (.server .connect)).get (by decide +kernel),
    (Option.some_get _).symm, (Option.some_get _).symm,
    (startup_sizes_agree (by decide) (by decide) 0 0 (new_opened (by decide) (by decide))
      (new_opened (by decide) (by decide))).1 _ _ _ (Option.some_get _).symm
      (Option.some_get _).symm⟩

end World

end Morsh
