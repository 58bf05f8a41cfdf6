import Morsh.Proofs.EchoSource
import Morsh.Proofs.Expiry

/-!
# What an echo ack vouches for

Along a run of client and server every echo ack the client has accepted was
made by the server in one of its rounds of housekeeping, out of a state of the
client that had been registered for the echo timeout. A prediction expires with
the first state that can hold its byte, so where the ack has reached that
number the state it names holds the byte, and so does every later one.

The proof follows the ack backwards. What a client holds as the server's state
was sent by the server (`Acked`), so its echo ack was produced by a round of
housekeeping (`Vouched`), and the frame it names had then been in the history of
the server for the echo timeout: it was registered by a step that had processed
the client's state of that number. `LastProcessed` says what that state held: the
edits up to the first use of its number, and they are what the child has been
handed in all. On the client's side a chunk that is typed comes after everything
in earlier states, and `After` says that every number past the one it expires
with was first used with the chunk in it.

So the ack does not say that the state processed last has been up for the
timeout, only that the one it names has: the run at the end has the server
produce the ack in the very moment it takes in a later key.
-/

namespace Morsh

open State

/-! ## The states sent since -/

namespace Endpoint

variable {M R E : Type} [State M] [State R] {act : M → E → M} {incoming : List Instruction}
  {x x' : Endpoint M R E} {n : Nat} {done : List E}

/-- These edits have been made, and every number past `n` was used after them. -/
structure After (n : Nat) (done : List E) (x : Endpoint M R E) : Prop where
  edits : done <+: x.edits
  uses : ∀ u ∈ x.uses, n < u.num → done <+: u.edits

theorem After.step (h : After n done x) (hstep : x.Stepped act incoming x') : After n done x' := by
  cases hstep with
  | edit _ e => exact ⟨h.edits.trans (List.prefix_append ..), h.uses⟩
  | tick now timeout srttMs remote chaff connection hnow hrange =>
      refine ⟨h.edits, fun u hu hlt => ?_⟩
      simp only [noteSent] at hu
      split at hu
      · rcases mem_note hu with hold | ⟨rfl, -⟩
        · exact h.uses u hold hlt
        · exact h.edits
      · exact h.uses u hu hlt
  | _ => exact ⟨h.edits, h.uses⟩

end Endpoint

namespace Server

variable {T : Type} [Emulator T] [ProstMessage HostMessage] [ProstMessage UserMessage]

theorem Reaches.remoteNum_le {init : UserStream} {y : Endpoint UserStream (Complete T) UserEvent}
    {x x' : Endpoint (Complete T) UserStream HostEdit}
    (h : Directed (UserStream.account init) y x) (hreach : Reaches y.sent x x') :
    x.transport.getRemoteStateNum ≤ x'.transport.getRemoteStateNum := by
  induction hreach with
  | refl => exact Nat.le_refl _
  | tail hreach hstep ih =>
      obtain ⟨got, -, hlinked⟩ := (Reaches.directed_receiver h hreach).linked
      exact Nat.le_trans ih (hstep.remoteNum_le hlinked.receiver.sorted)

variable {s s' : Server T} {op : ServerOp}

/-- The wait for the client ends with its first state, or for good. -/
theorem step_waiting (hphase : s.phase = .waiting) (hstep : s.step op = some s') :
    s'.phase = .waiting ∨ s'.phase = .stopped ∨ op = .connect ∧ s'.phase = .select := by
  cases op with
  | await now fresh datagram =>
      simp only [step] at hstep
      split at hstep
      · cases hstep
        exact .inl hphase
      · cases hstep
  | giveUp =>
      simp only [step, if_pos hphase] at hstep
      cases hstep
      exact .inr (.inl rfl)
  | connect =>
      simp only [step] at hstep
      split at hstep
      · cases hstep
        unfold connect
        dsimp only
        split
        · exact .inr (.inl rfl)
        · exact .inr (.inr ⟨rfl, rfl⟩)
      · cases hstep
  | _ => simp [step, hphase] at hstep

theorem step_input {now : Nat} (hstep : s.step (.input now) = some s') :
    s'.phase = .housekeeping := by
  simp only [step] at hstep
  split at hstep
  · rw [← Option.some.inj hstep]
  · cases hstep

theorem step_housekeeping {now : Nat} (hstep : s.step (.housekeeping now) = some s') :
    s.phase = .housekeeping := by
  simp only [step] at hstep
  split at hstep
  · assumption
  · cases hstep

theorem step_stopped (hphase : s.phase = .stopped) (hstep : s.step op = some s') :
    s'.phase = .stopped := by
  cases op with
  | pty ptyOp =>
      simp only [step] at hstep
      split at hstep
      · cases hstep
      · obtain ⟨p, -, rfl⟩ := Option.map_eq_some_iff.mp hstep
        exact hphase
  | _ => simp [step, hphase] at hstep

end Server

/-! ## Along a run -/

namespace World

variable {T : Type} [Emulator T] [ProstMessage HostMessage] [ProstMessage UserMessage]
  {init w w' : World T} {ops ops' : List WorldOp} {op : WorldOp}
  {uses : List (Use UserEvent UserStream)} {stream : UserStream}

/-- After `before` and with the step at `time` the server has processed the
client's state `num` and registered it, which leads to `v`. -/
def Registers (init : World T) (before : List WorldOp) (num time : Nat) (v : World T) : Prop :=
  ∃ u, Run.run step init before = some u ∧ u.step (.server (.input time)) = some v ∧
    v.server.lastRemoteNum = num ∧
    v.server.host.inputHistory = u.server.host.inputHistory ++ [(num, time)]

/-- After `before` the run is in `v`, and there the server produces the echo
ack, by housekeeping at `time`. -/
def Produces (init : World T) (before : List WorldOp) (ack time : Nat) (v : World T) : Prop :=
  Run.run step init before = some v ∧ ∃ v', v.step (.server (.housekeeping time)) = some v' ∧
    v'.server.shutdownInProgress = false ∧ v'.server.host.echoAck = ack

/-- Along the operations the frame was registered. -/
def Registered (init : World T) (ops : List WorldOp) (p : Nat × Nat) : Prop :=
  ∃ before v, before ++ [.server (.input p.2)] <+: ops ∧ Registers init before p.1 p.2 v

/-- Along the operations the echo ack was produced. -/
def Produced (init : World T) (ops : List WorldOp) (ack : Nat) : Prop :=
  ∃ before time v, before ++ [.server (.housekeeping time)] <+: ops ∧
    Produces init before ack time v

/-- The state the server processed last is the one first used with these edits,
and they are what it has been handed in all. -/
def LastProcessed (uses : List (Use UserEvent UserStream)) (s : Server T)
    (u : Use UserEvent UserStream) : Prop :=
  useOf uses s.lastRemoteNum = some u ∧
    ∃ lists, s.endpoint.handed.mapM UserStream.eventsOf = .ok lists ∧ lists.flatten = u.edits

theorem Registered.mono {p : Nat × Nat} (h : Registered init ops p) (hle : ops <+: ops') :
    Registered init ops' p := by
  obtain ⟨before, v, hbefore, hregisters⟩ := h
  exact ⟨before, v, hbefore.trans hle, hregisters⟩

/-- An echo ack of 0 vouches for nothing; any other was produced. -/
def Vouched (init : World T) (ops : List WorldOp) (ack : Nat) : Prop :=
  ack = 0 ∨ Produced init ops ack

theorem Vouched.mono {ack : Nat} (h : Vouched init ops ack) (hle : ops <+: ops') :
    Vouched init ops' ack := by
  rcases h with hzero | ⟨before, time, v, hbefore, hproduces⟩
  · exact .inl hzero
  · exact .inr ⟨before, time, v, hbefore.trans hle, hproduces⟩

/-- Where the frames of the history and the echo acks around come from. -/
structure Acked (init : World T) (ops : List WorldOp) (w : World T) : Prop where
  recent : w.server.lastRemoteNum ≤ w.server.remoteNum
  history : ∀ p ∈ w.server.host.inputHistory,
    p.1 ≤ w.server.lastRemoteNum ∧ Registered init ops p
  host : Vouched init ops w.server.host.echoAck
  sent : ∀ inst ∈ w.server.endpoint.sent, ∃ a c : Complete T,
    inst.diff = some (diffFrom c a) ∧ Vouched init ops c.echoAck
  received : ∀ e ∈ w.client.transport.receiver.receivedStates.entries,
    Vouched init ops e.state.echoAck

/-- What a client has accepted after a step, given what it has been sent. -/
theorem Acked.receives (h : Acked init ops w)
    (hsorted : Sorted w.client.transport.receiver.receivedStates)
    {x : Endpoint UserStream (Complete T) UserEvent}
    (hstep : w.client.Stepped UserStream.push w.server.endpoint.sent x) :
    ∀ e ∈ x.transport.receiver.receivedStates.entries, Vouched init ops e.state.echoAck := by
  rcases hstep.receiver_cases with hsame | ⟨now, inst, hmem, hreceived⟩ | hdiff
  · rw [hsame]
    exact h.received
  · obtain ⟨a, c, hinst, hvouched⟩ := h.sent inst hmem
    rw [hreceived]
    refine (Receiver.receive_cases hsorted now _ _ _ _).1.acks h.received ⟨a, c, ?_, hvouched⟩
    rw [hinst, Option.getD_some]
  · rw [hdiff]
    exact h.received

theorem Acked.step {terminal : Complete T} (h : Acked init ops w)
    (hrun : Run.run World.step init ops = some w) (hinput : Input stream w)
    (hfin : Endpoint.Finished HostEdit.apply terminal w.server.endpoint)
    (hdir : Directed (.trivial HostEdit.apply) w.server.endpoint w.client)
    (hstep : w.step op = some w') : Acked init (ops ++ [op]) w' := by
  have hle : ops <+: ops ++ [op] := List.prefix_append ..
  cases op with
  | client op =>
      obtain ⟨hstepped, hsame⟩ := step_client hstep
      obtain ⟨got, -, hlinked⟩ := hdir.linked
      refine ⟨hsame ▸ h.recent, fun p hp => ?_, hsame ▸ h.host.mono hle, fun inst hinst => ?_,
        fun e he => (h.receives hlinked.receiver.sorted hstepped e he).mono hle⟩
      · rw [hsame] at hp ⊢
        exact (h.history p hp).imp_right fun hregistered => hregistered.mono hle
      · rw [hsame] at hinst
        obtain ⟨a, c, hdiff, hvouched⟩ := h.sent inst hinst
        exact ⟨a, c, hdiff, hvouched.mono hle⟩
  | server op =>
      obtain ⟨hmem, hserver, hsame⟩ := step_server hstep
      have hnum : w.server.remoteNum ≤ w'.server.remoteNum :=
        (Server.step_reaches hinput.waited.shutdown hserver hmem).remoteNum_le hinput.directed
      have hreceived : ∀ e ∈ w'.client.transport.receiver.receivedStates.entries,
          Vouched init (ops ++ [.server op]) e.state.echoAck := by
        rw [hsame]
        exact fun e he => (h.received e he).mono hle
      have hold : ∀ p ∈ w.server.host.inputHistory, ∀ n, w.server.lastRemoteNum ≤ n →
          p.1 ≤ n ∧ Registered init (ops ++ [.server op]) p := fun p hp n hn =>
        ⟨Nat.le_trans (h.history p hp).1 hn, (h.history p hp).2.mono hle⟩
      have hsent : ∀ inst ∈ w.server.endpoint.sent, ∃ a c : Complete T,
          inst.diff = some (diffFrom c a) ∧ Vouched init (ops ++ [.server op]) c.echoAck := by
        intro inst hinst
        obtain ⟨a, c, hdiff, hvouched⟩ := h.sent inst hinst
        exact ⟨a, c, hdiff, hvouched.mono hle⟩
      cases Server.step_marked hfin hserver with
      | mute hmute hlast _ =>
          have hrecent : w.server.lastRemoteNum ≤ w'.server.lastRemoteNum := by
            rcases hlast with hlast | hlast
            · exact Nat.le_of_eq hlast.symm
            · exact hlast ▸ h.recent
          refine ⟨?_, fun p hp => hold p (hmute.history ▸ hp) _ hrecent,
            hmute.echoAck ▸ h.host.mono hle, hmute.sent ▸ hsent, hreceived⟩
          rcases hlast with hlast | hlast
          · exact hlast ▸ Nat.le_trans h.recent hnum
          · exact hlast ▸ hnum
      | ticked _ hhost hlast hticked =>
          refine ⟨hlast ▸ Nat.le_trans h.recent hnum, ?_, hhost ▸ h.host.mono hle,
            fun inst hinst => ?_, hreceived⟩
          · rw [hhost, hlast]
            exact fun p hp => hold p hp _ (Nat.le_refl _)
          · rcases hticked inst hinst with hearlier | ⟨a, hdiff⟩
            · exact hsent inst hearlier
            · exact ⟨a, w.server.host, hdiff, h.host.mono hle⟩
      | registered hlast hnew hack hhistory hsame' =>
          refine ⟨hlast ▸ hnum, fun p hp => ?_, hack ▸ h.host.mono hle, hsame' ▸ hsent,
            hreceived⟩
          rw [hlast]
          rcases List.mem_append.mp (hhistory ▸ hp) with hp | hp
          · exact hold p hp _ h.recent
          · rw [List.mem_singleton.mp hp]
            exact ⟨Nat.le_refl _, ops, w', List.prefix_rfl, w, hrun, hstep, hlast, hhistory⟩
      | asked hlast hrunning hhost hsame' =>
          refine ⟨hlast ▸ Nat.le_trans h.recent hnum, fun p hp => ?_,
            .inr ⟨ops, _, w, List.prefix_rfl, hrun, w', hstep, hrunning, rfl⟩, hsame' ▸ hsent,
            hreceived⟩
          rw [hhost] at hp
          exact hold p (List.mem_of_mem_filter hp) _ (Nat.le_of_eq hlast.symm)

/-- The frame an echo ack names had been registered for the echo timeout when
the ack was produced, and no later state had been processed before it. -/
theorem Acked.registered {terminal : Complete T} {before : List WorldOp} {ack time : Nat}
    (h : Acked init before w)
    (hfin : Endpoint.Finished HostEdit.apply terminal w.server.endpoint)
    (hproduces : Produces init before ack time w) (hack : ack ≠ 0) :
    w.server.phase = .housekeeping ∧ ack ≤ w.server.lastRemoteNum ∧
      ∃ registeredAt, registeredAt + ms ECHO_TIMEOUT_MS ≤ time ∧
        Registered init before (ack, registeredAt) := by
  obtain ⟨-, w', hstep, hrunning, rfl⟩ := hproduces
  obtain ⟨-, hserver, -⟩ := step_server hstep
  refine ⟨Server.step_housekeeping hserver, ?_⟩
  cases Server.step_marked hfin hserver with
  | mute _ _ hshut =>
      rw [hshut time rfl] at hrunning
      cases hrunning
  | ticked hop _ _ _ => exact absurd rfl (hop time)
  | asked _ _ hhost _ =>
      have hnewest : w'.server.host.echoAck
          = Complete.newestEchoAck w.server.host.inputHistory time := by
        rw [hhost]
        rfl
      rw [hnewest] at hack ⊢
      obtain ⟨p, hp, hechoed, hnum⟩ := (Complete.newestEchoAck_attained _ time).resolve_left hack
      obtain ⟨hle, hregistered⟩ := h.history p hp
      rw [← hnum]
      have hpast : 0 < ms ECHO_TIMEOUT_MS := by decide
      have htime : ms ECHO_TIMEOUT_MS ≤ time - p.2 := hechoed
      exact ⟨hle, p.2, by omega, hregistered⟩

/-! ## From the start -/

section Start

variable {now serverNow : Reading} {cols rows : Nat} {screen terminal : Complete T}

theorem run_finished (hrun : Run.run step (start now serverNow cols rows screen terminal) ops
      = some w) : Endpoint.Finished HostEdit.apply terminal w.server.endpoint := by
  refine (Run.run_invariant (I := fun w : World T => Input (firstStream cols rows) w ∧
    Endpoint.Finished HostEdit.apply terminal w.server.endpoint) ?_
    ⟨.start now.isLt, .start serverNow.isLt⟩ hrun).2
  rintro w op w' ⟨hinput, hfin⟩ hstep
  refine ⟨hinput.step hstep, ?_⟩
  cases op with
  | client op => exact (step_client hstep).2 ▸ hfin
  | server op =>
      obtain ⟨hmem, hserver, -⟩ := step_server hstep
      exact (Server.step_reaches hinput.waited.shutdown hserver hmem).finished hfin

theorem run_acked (hscreen : Complete.new cols rows = .ok screen)
    (hterminal : Complete.new 80 24 = .ok terminal)
    (hrun : Run.run step (start now serverNow cols rows screen terminal) ops = some w) :
    Acked (start now serverNow cols rows screen terminal) ops w := by
  obtain ⟨hack, hhistory⟩ := Complete.new_frame hterminal
  have hstart : Acked (start now serverNow cols rows screen terminal) []
      (start now serverNow cols rows screen terminal) := by
    refine ⟨Nat.le_refl _, fun p hp => ?_, .inl hack, fun inst hinst => ?_, fun e he => ?_⟩
    · rw [show (start now serverNow cols rows screen terminal).server.host.inputHistory = [] from
        hhistory] at hp
      cases hp
    · cases hinst
    · rw [List.mem_singleton.mp he]
      exact .inl (Complete.new_frame hscreen).1
  refine Run.run_history hstart (fun done m op m' hm hacked hstep => ?_) hrun
  have hdir : Directed (.trivial HostEdit.apply) m.server.endpoint m.client :=
    run_host rfl now.isLt serverNow.isLt (f := ()) (g := ()) trivial trivial trivial hm
  exact hacked.step hm (run_input now.isLt hm) (run_finished hm) hdir hstep

/-- The serve loop has not begun, or is over, or feeds the child. While it waits
only `connect` begins it; once begun, every step keeps the account of what has
been fed. -/
theorem run_serving (hrun : Run.run step (start now serverNow cols rows screen terminal) ops
      = some w) :
    w.server.phase = .waiting ∨ w.server.phase = .stopped ∨ ∃ first, Feeding first w := by
  refine (Run.run_invariant (I := fun w : World T => Input (firstStream cols rows) w ∧
    (w.server.phase = .waiting ∨ w.server.phase = .stopped ∨ ∃ first, Feeding first w)) ?_
    ⟨.start now.isLt, .inl rfl⟩ hrun).2
  rintro w op w' ⟨hinput, hphase⟩ hstep
  refine ⟨hinput.step hstep, ?_⟩
  rcases hphase with hwaiting | hstopped | ⟨first, hfeeding⟩
  · cases op with
    | client op => exact .inl ((step_client hstep).2 ▸ hwaiting)
    | server op =>
        rcases Server.step_waiting hwaiting (step_server hstep).2.1 with
          hphase | hphase | ⟨rfl, hphase⟩
        · exact .inl hphase
        · exact .inr (.inl hphase)
        · obtain ⟨u, -, -, hfeeding⟩ := hinput.feeding hstep hphase
          exact .inr (.inr ⟨u.edits, hfeeding⟩)
  · cases op with
    | client op => exact .inr (.inl ((step_client hstep).2 ▸ hstopped))
    | server op => exact .inr (.inl (Server.step_stopped hstopped (step_server hstep).2.1))
  · exact .inr (.inr ⟨first, hfeeding.step hinput hstep⟩)

omit [Emulator T] [ProstMessage HostMessage] in
theorem Feeding.lastProcessed {first : List UserEvent} (h : Feeding first w) :
    ∃ u, LastProcessed w.client.uses w.server u := by
  obtain ⟨diffs, u, hhanded, hu, hedits, -⟩ := h.processed
  exact ⟨u, hu, first :: diffs, hhanded, hedits.symm⟩

theorem run_useOf {num : Nat} {u : Use UserEvent UserStream} (hu : useOf w.client.uses num = some u)
    (hrun : Run.run step w ops = some w') : useOf w'.client.uses num = some u := by
  refine Run.run_invariant (I := fun w : World T => useOf w.client.uses num = some u) ?_ hu hrun
  intro w op w' hu hstep
  cases op with
  | client op => exact (step_client hstep).1.useOf_eq hu
  | server op => exact (step_server hstep).2.2 ▸ hu

/-- While the serve loop goes round, what the server has been handed is what the
state it processed last held when its number was first used. -/
theorem lastProcessed_at {v : World T} {before rest : List WorldOp}
    (hbefore : Run.run step (start now serverNow cols rows screen terminal) before = some v)
    (hphase : v.server.phase = .housekeeping) (hrest : Run.run step v rest = some w) :
    ∃ u, LastProcessed w.client.uses v.server u := by
  rcases run_serving hbefore with hwaiting | hstopped | ⟨first, hfeeding⟩
  · rw [hphase] at hwaiting
    cases hwaiting
  · rw [hphase] at hstopped
    cases hstopped
  · obtain ⟨u, hu, hlists⟩ := hfeeding.lastProcessed
    exact ⟨u, run_useOf hu hrest, hlists⟩

/-! ## A chunk and what follows -/

/-- The bytes as operations of the client. -/
def typing (bytes : Bytes) : List WorldOp := bytes.map fun byte => .client (.edit (.userByte byte))

theorem run_typing {bytes : Bytes}
    (hrunning : w.client.transport.sender.shutdownInProgress = false) :
    Run.run step w (typing bytes) = some { w with client := Client.push w.client bytes } := by
  induction bytes generalizing w with
  | nil => rfl
  | cons byte rest ih =>
      refine Run.run_cons.mpr
        ⟨{ w with client := w.client.edit UserStream.push (.userByte byte) }, ?_, ih hrunning⟩
      simp only [step, Endpoint.step, hrunning]
      rfl

omit [Emulator T] [ProstMessage HostMessage] [ProstMessage UserMessage] in
theorem push_record (x : Endpoint UserStream (Complete T) UserEvent) (bytes : Bytes) :
    (Client.push x bytes).edits = x.edits ++ bytes.map .userByte ∧
      (Client.push x bytes).uses = x.uses := by
  induction bytes generalizing x with
  | nil => exact ⟨(List.append_nil _).symm, rfl⟩
  | cons byte rest ih =>
      obtain ⟨hedits, huses⟩ := ih (x.edit UserStream.push (.userByte byte))
      refine ⟨hedits.trans ?_, huses⟩
      rw [List.map_cons, List.append_cons]
      rfl

omit [Emulator T] [ProstMessage HostMessage] in
theorem Input.after (h : Input stream w) (bytes : Bytes) :
    (Client.push w.client bytes).After w.client.transport.sender.sentStateLast
      (w.client.edits ++ bytes.map .userByte) := by
  obtain ⟨hedits, huses⟩ := push_record w.client bytes
  refine ⟨hedits ▸ List.prefix_rfl, fun u hu hlt => ?_⟩
  rw [huses] at hu
  obtain ⟨got, -, hlinked⟩ := h.directed.linked
  obtain ⟨v, hv⟩ : ∃ v, useOf w.client.uses u.num = some v :=
    Option.isSome_iff_exists.mp (List.find?_isSome.mpr ⟨u, hu, by simp⟩)
  have hle := hlinked.sender.used (a := u.num) (v := stream.events ++ v.edits)
    (by rw [Account.vals, hv]; rfl)
  exact absurd hle (Nat.not_le.mpr hlt)

theorem run_after {n : Nat} {done : List UserEvent} (h : w.client.After n done)
    (hrun : Run.run step w ops = some w') : w'.client.After n done := by
  refine Run.run_invariant (I := fun w : World T => w.client.After n done) ?_ h hrun
  intro w op w' h hstep
  cases op with
  | client op => exact h.step (step_client hstep).1
  | server op => exact (step_server hstep).2.2 ▸ h

omit [Emulator T] [ProstMessage HostMessage] in
theorem LastProcessed.after {s : Server T} {u : Use UserEvent UserStream} {n : Nat}
    {done : List UserEvent} (h : LastProcessed w.client.uses s u) (hafter : w.client.After n done)
    (hlt : n < s.lastRemoteNum) : done <+: u.edits := by
  have hnum : u.num = s.lastRemoteNum := by simpa using List.find?_some h.1
  exact hafter.uses u (List.mem_of_find?_eq_some h.1) (hnum ▸ hlt)

/-- Where the echo ack of an accepted state has reached the frame a prediction
for a typed byte expires with, it was produced by the server's housekeeping;
whenever that was, the state the server had processed last held the byte, and
so did the one the ack names, which had been registered for the echo timeout. -/
theorem echo_ack_sound (now serverNow : Reading) (cols rows : Nat) (screen terminal : Complete T)
    (hscreen : Complete.new cols rows = .ok screen) (hterminal : Complete.new 80 24 = .ok terminal)
    (pre post : List WorldOp) (w₀ w : World T)
    (hpre : Run.run step (start now serverNow cols rows screen terminal) pre = some w₀)
    (c c' : Client T) (clock : Nat → Nat) (front back : Bytes) (byte : UInt8) (exit : Bool)
    (frame : Nat) (hclient : c.endpoint = w₀.client) (hrunning : c.shutdownInProgress = false)
    (htyped : c.handleTermEvent clock (.input (front ++ byte :: back)) = some (c', exit))
    (hpredicts : c.Predicts clock front byte back frame)
    (hpost : Run.run step { w₀ with client := c'.endpoint } post = some w)
    (e : TimestampedState (Complete T))
    (he : e ∈ w.client.transport.receiver.receivedStates.entries)
    (hframe : frame ≤ e.state.echoAck) :
    Produced (start now serverNow cols rows screen terminal)
        (pre ++ typing (front ++ byte :: back) ++ post) e.state.echoAck ∧
      ∀ (before : List WorldOp) (time : Nat) (v : World T),
        before ++ [.server (.housekeeping time)] <+:
          pre ++ typing (front ++ byte :: back) ++ post →
        Produces (start now serverNow cols rows screen terminal) before e.state.echoAck time v →
        (∃ u, LastProcessed w.client.uses v.server u ∧
          w₀.client.edits ++ (front ++ byte :: back).map .userByte <+: u.edits) ∧
        ∃ (earlier : List WorldOp) (registeredAt : Nat) (v' : World T),
          earlier ++ [.server (.input registeredAt)] <+: before ∧
          Registers (start now serverNow cols rows screen terminal) earlier e.state.echoAck
            registeredAt v' ∧
          registeredAt + ms ECHO_TIMEOUT_MS ≤ time ∧
          ∃ u, LastProcessed w.client.uses v'.server u ∧
            w₀.client.edits ++ (front ++ byte :: back).map .userByte <+: u.edits := by
  -- the chunk is so many edits, and the frame is the number after the last one sent
  have hsender : w₀.client.transport.sender.shutdownInProgress = false := hclient ▸ hrunning
  have hpushed : c'.endpoint = Client.push w₀.client (front ++ byte :: back) :=
    hclient ▸ Client.handleTermEvent_input hrunning htyped
  have hexpires : frame = w₀.client.transport.sender.sentStateLast + 1 := by
    rw [hpredicts.frame_eq, hclient]
  rw [hpushed] at hpost
  have hrun : Run.run step (start now serverNow cols rows screen terminal)
      (pre ++ typing (front ++ byte :: back) ++ post) = some w :=
    Run.run_append.mpr ⟨_, Run.run_append.mpr ⟨w₀, hpre, run_typing hsender⟩, hpost⟩
  have hafter := run_after ((run_input now.isLt hpre).after (front ++ byte :: back)) hpost
  have hne : e.state.echoAck ≠ 0 := by omega
  refine ⟨((run_acked hscreen hterminal hrun).received e he).resolve_left hne, ?_⟩
  intro before time v hbefore hproduces
  obtain ⟨hphase, hle, registeredAt, hpast, earlier, v', hearlier, hregisters⟩ :=
    (run_acked hscreen hterminal hproduces.1).registered (run_finished hproduces.1) hproduces hne
  -- what was processed by then, at the ack and at the registration
  have hfits : w₀.client.transport.sender.sentStateLast < e.state.echoAck := by omega
  have hcontains : ∀ {v : World T} {before : List WorldOp},
      before <+: pre ++ typing (front ++ byte :: back) ++ post →
      Run.run step (start now serverNow cols rows screen terminal) before = some v →
      v.server.phase = .housekeeping → e.state.echoAck ≤ v.server.lastRemoteNum →
      ∃ u, LastProcessed w.client.uses v.server u ∧
        w₀.client.edits ++ (front ++ byte :: back).map .userByte <+: u.edits := by
    rintro v before ⟨rest, hrest⟩ hv hphase hle
    obtain ⟨m, hm, hlater⟩ := Run.run_append.mp (hrest ▸ hrun)
    obtain rfl := Option.some.inj (hv.symm.trans hm)
    obtain ⟨u, hu⟩ := lastProcessed_at hv hphase hlater
    exact ⟨u, hu, hu.after hafter (Nat.lt_of_lt_of_le hfits hle)⟩
  refine ⟨hcontains ((List.prefix_append ..).trans hbefore) hproduces.1 hphase hle, earlier,
    registeredAt, v', hearlier, hregisters, hpast, ?_⟩
  obtain ⟨v₁, hv₁, hinput, hnum, -⟩ := hregisters
  exact hcontains ((hearlier.trans (List.prefix_append ..)).trans hbefore)
    (Run.run_concat.mpr ⟨v₁, hv₁, hinput⟩)
    (Server.step_input (step_server hinput).2.1) (Nat.le_of_eq hnum.symm)

end Start

end World

/-! ## Two keys, the second not yet echoed -/

namespace World

open VtTerminal

/-- One turn of the serve loop. -/
def turn (now : Reading) (branch : Branch) : List WorldOp :=
  [.server (.select now 1000 40 branch), .server (.input now), .server (.housekeeping now),
    .server (.tick now 1000 40 [])]

/-- The server has heard of an empty state. -/
def greeted : List WorldOp :=
  [.client (.tick 0 1000 250 []), .server (.await 0 true (.ok (some (packet 1 [])))),
    .server .connect]

def opening : World VtTerminal :=
  start (0 : Reading) (0 : Reading) 8 2 (opened 8 2) (opened 80 24)

def greetedWorld : World VtTerminal := (Run.run step opening greeted).get (by decide +kernel)

def typist : Client VtTerminal := ⟨greetedWorld.client, .new 0, (opened 8 2).screen⟩

def afterKey : Client VtTerminal × Bool :=
  (typist.handleTermEvent (fun _ => 0) (.input [97])).get (by decide +kernel)

theorem typist_types : typist.handleTermEvent (fun _ => 0) (.input [97]) = some afterKey :=
  (Option.some_get _).symm

theorem typist_predicts : typist.Predicts (fun _ => 0) [] 97 [] 2 :=
  ⟨typist.startInput [97],
    ((typist.startInput [97]).typeByte false 0 97).get (by decide +kernel), rfl,
    (Option.some_get _).symm, .inr (by decide +kernel)⟩

/-- The key is processed at once, a second one after 60 ms. -/
def bothKeys : List WorldOp :=
  [.client (.waitTime 10000000 1000 250), .client (.tick 1000000000 1000 250 [])] ++
    turn 0 (.recv true (.ok (some (packet 2 [10, 5, 18, 3, 34, 1, 97])))) ++
    [.client (.edit (.userByte 98)), .client (.waitTime 1010000000 1000 250),
      .client (.tick 2000000000 1000 250 []),
      .server (.select 60000000 1000 40
        (.recv true (.ok (some (packet 3 [10, 6, 18, 4, 34, 2, 97, 98]))))),
      .server (.input 60000000)]

def untilAck : List WorldOp := greeted ++ typing [97] ++ bothKeys

def bothProcessed : World VtTerminal := (Run.run step opening untilAck).get (by decide +kernel)

/-- The echo ack is produced, and reaches the client. -/
def acknowledged : List WorldOp :=
  [.server (.housekeeping 60000000), .server (.tick 60000000 1000 40 [])] ++
    turn 70000000 .sleep ++ [.client (.datagram 0 true (some 1))]

def acknowledgedWorld : World VtTerminal :=
  (Run.run step { greetedWorld with client := afterKey.1.endpoint }
    (bothKeys ++ acknowledged)).get (by decide +kernel)

theorem acknowledged_two :
    ∃ e ∈ acknowledgedWorld.client.transport.receiver.receivedStates.entries,
      e.state.echoAck = 2 := by
  decide +kernel

/-- The first key's frame is named by the ack, 60 ms after it was registered. -/
theorem echo_ack_sound_acknowledged :
    Produced opening (greeted ++ typing [97] ++ (bothKeys ++ acknowledged)) 2 := by
  obtain ⟨e, he, hack⟩ := acknowledged_two
  have hsound := (echo_ack_sound 0 0 8 2 (opened 8 2) (opened 80 24)
    (new_opened (by decide) (by decide)) (new_opened (by decide) (by decide)) greeted
    (bothKeys ++ acknowledged) greetedWorld acknowledgedWorld (Option.some_get _).symm typist
    afterKey.1 (fun _ => 0) [] [] 97 afterKey.2 2 rfl (by decide +kernel) typist_types
    typist_predicts (Option.some_get _).symm e he (Nat.le_of_eq hack.symm)).1
  rw [hack] at hsound
  exact hsound

/-- When the last of the operations took input in. -/
def inputTime (ops : List WorldOp) : Option Nat :=
  match ops.getLast? with
  | some (.server (.input now)) => some now
  | _ => none

/-- The echo ack is produced just when the second key has been registered: the
state processed last is not the one the ack names, and is 0 ms old. -/
theorem last_processed_just_registered :
    typist.endpoint = greetedWorld.client ∧ typist.shutdownInProgress = false ∧
      typist.handleTermEvent (fun _ => 0) (.input [97]) = some afterKey ∧
      typist.Predicts (fun _ => 0) [] 97 [] 2 ∧
      (∃ e ∈ acknowledgedWorld.client.transport.receiver.receivedStates.entries,
        2 ≤ e.state.echoAck ∧ Produces opening untilAck e.state.echoAck 60000000 bothProcessed) ∧
      ¬∃ earlier registeredAt v', earlier ++ [.server (.input registeredAt)] <+: untilAck ∧
        Registers opening earlier bothProcessed.server.lastRemoteNum registeredAt v' ∧
        registeredAt + ms ECHO_TIMEOUT_MS ≤ 60000000 := by
  obtain ⟨e, he, hack⟩ := acknowledged_two
  refine ⟨rfl, by decide +kernel, typist_types, typist_predicts,
    ⟨e, he, Nat.le_of_eq hack.symm, (Option.some_get _).symm,
      (bothProcessed.step (.server (.housekeeping 60000000))).get (by decide +kernel),
      (Option.some_get _).symm, by decide +kernel, by rw [hack]; decide +kernel⟩, ?_⟩
  rintro ⟨earlier, registeredAt, v', hearlier, ⟨u, hu, hstep, hnum, -⟩, hpast⟩
  -- the second key is registered once, at 60 ms
  have hlate : ∀ k ≤ untilAck.length, ∀ t ∈ inputTime (untilAck.take k),
      ((Run.run step opening (untilAck.take k)).all fun v =>
        v.server.lastRemoteNum ≠ 3 ∨ 60000000 < t + ms ECHO_TIMEOUT_MS) = true := by
    decide +kernel
  have hlast : bothProcessed.server.lastRemoteNum = 3 := by decide +kernel
  have hrun : Run.run step opening (earlier ++ [.server (.input registeredAt)]) = some v' :=
    Run.run_concat.mpr ⟨u, hu, hstep⟩
  have htake := List.prefix_iff_eq_take.mp hearlier
  have htime := hlate _ hearlier.length_le registeredAt (by rw [← htake]; simp [inputTime])
  rw [← htake, hrun, Option.all_some, decide_eq_true_iff, hnum, hlast] at htime
  omega

end World

end Morsh
