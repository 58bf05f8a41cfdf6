import Mathlib.Data.List.Induction
import Morsh.Proofs.Final
import Morsh.Proofs.StartupSize

/-!
# The output of the child

What the child has written is what has been applied to the terminal followed by
what has not been yet: the queue, the event the reader holds and the buffer, in
that order. `Exited` is the last event of the queue, so a shutdown that it
starts finds the rest empty. A shutdown that `housekeeping` starts need not,
and output found in the queue from then on is dropped.

The pty is a machine of its own: the child writes and ends, the reader thread
reads and queues, the server takes. `Ordered` is its invariant, that what is
written is what was taken, what is queued, what the reader holds and what is in
the buffer, one behind the other, and that the end is queued last. A step of the
server either leaves the output alone, or takes an event and applies it, or
begins a shutdown (`Flowed`), and `Flow` adds that up: the output applied is a
front of the output written, and while no shutdown has begun it is all that was
taken.

A shutdown starts from the event of the end, and then everything has been
applied, or from `housekeeping`, which asks whether the child is gone without
looking at the queue. The theorem says for each run which of the two it was.
-/

namespace Morsh

open State

/-! ## The pty -/

def PtyEvent.data : PtyEvent → Bytes
  | .output data => data
  | .exited _ => []

namespace Pty

/-- The events the reader has made and the server has not taken. -/
def queued (p : Pty) : List PtyEvent := p.rx ++ p.pending.toList

/-- Written by the child and not yet taken by the server. -/
def unread (p : Pty) : Bytes := p.queued.flatMap PtyEvent.data ++ p.buffer

/-- What the child and the reader thread keep. -/
structure Ordered (p : Pty) : Prop where
  /-- Nothing is queued behind the end. -/
  last : ∀ {pre status post}, p.queued = pre ++ .exited status :: post → post = [] ∧ p.drained
  drained : p.drained = true → p.exited = true ∧ p.buffer = []

variable {p p' : Pty}

theorem Ordered.unread_of_exited (h : p.Ordered) {status : Nat} {rest : List PtyEvent}
    (hrx : p.rx = .exited status :: rest) : p.exited = true ∧ p.unread = [] := by
  have hqueued : p.queued = [] ++ .exited status :: (rest ++ p.pending.toList) := by
    rw [queued, hrx]
    rfl
  obtain ⟨hpost, hdrained⟩ := h.last hqueued
  obtain ⟨hexited, hbuffer⟩ := h.drained hdrained
  refine ⟨hexited, ?_⟩
  rw [unread, hqueued, hpost, hbuffer]
  rfl

theorem Ordered.not_ended (h : p.Ordered) (hdrained : ¬p.drained = true) (status : Nat) :
    .exited status ∉ p.queued := by
  intro hmem
  obtain ⟨pre, post, hq⟩ := List.append_of_mem hmem
  exact hdrained (h.last hq).2

theorem mem_of_snoc {xs pre post : List PtyEvent} {e a : PtyEvent}
    (h : xs ++ [e] = pre ++ a :: post) : post = [] ∧ e = a ∨ a ∈ xs := by
  rcases List.eq_nil_or_concat post with rfl | ⟨post, x, rfl⟩
  · exact Or.inl ⟨rfl, (List.append_inj' h rfl).2 |> List.singleton_inj.mp⟩
  · rw [List.concat_eq_append, ← List.cons_append, ← List.append_assoc] at h
    rw [(List.append_inj' h rfl).1]
    exact Or.inr (by simp)

theorem Ordered.take (h : p.Ordered) {event : PtyEvent} {rest : List PtyEvent}
    (hrx : p.rx = event :: rest) : ({ p with rx := rest } : Pty).Ordered := by
  refine ⟨fun {pre status post} hq => ?_, h.drained⟩
  refine @Ordered.last _ h (event :: pre) status _ ?_
  rw [queued, hrx, List.cons_append]
  exact congrArg (event :: ·) hq

theorem unread_take {event : PtyEvent} {rest : List PtyEvent} (hrx : p.rx = event :: rest) :
    p.unread = event.data ++ ({ p with rx := rest } : Pty).unread := by
  simp [unread, queued, hrx]

/-- The child and the reader thread move output along and add to its end. Nothing
is taken out of the middle, and once the child has exited nothing more is written.
-/
theorem step_cases {op : PtyOp} (h : p.step op = some p') (hord : p.Ordered) :
    p'.Ordered ∧ (p.exited = true → p'.exited = true ∧ p'.written = p.written) ∧
      ∃ more, p'.written = p.written ++ more ∧ p'.unread = p.unread ++ more := by
  cases op with
  | childWrite data =>
      simp only [step] at h
      split at h
      · cases h
      · next hrun =>
          cases h
          refine ⟨⟨hord.last, fun hd => absurd (hord.drained hd).1 hrun⟩,
            fun hexited => absurd hexited hrun, data, rfl, ?_⟩
          exact (List.append_assoc _ _ _).symm
  | childExit =>
      cases h
      exact ⟨⟨hord.last, fun hd => ⟨rfl, (hord.drained hd).2⟩⟩, fun _ => ⟨rfl, rfl⟩, [],
        (List.append_nil _).symm, (List.append_nil _).symm⟩
  | read count =>
      simp only [step] at h
      split at h
      · cases h
      · next hguard =>
          push Not at hguard
          obtain ⟨hpending, hdrained, -⟩ := hguard
          cases h
          have hnone : p.pending = none := by simpa using hpending
          have hqueued : p.queued = p.rx := by rw [queued, hnone]; exact List.append_nil _
          refine ⟨⟨fun {pre status post} hq => ?_, fun hd => absurd hd hdrained⟩,
            fun hexited => ⟨hexited, rfl⟩, [], (List.append_nil _).symm, ?_⟩
          · rcases mem_of_snoc hq with ⟨-, he⟩ | hmem
            · cases he
            · exact absurd (hqueued ▸ hmem) (hord.not_ended hdrained status)
          · simp [unread, queued, hnone, PtyEvent.data]
  | readEnd =>
      simp only [step] at h
      split at h
      · cases h
      · next hguard =>
          push Not at hguard
          obtain ⟨hpending, hdrained, hexited, hbuffer⟩ := hguard
          cases h
          have hnone : p.pending = none := by simpa using hpending
          have hqueued : p.queued = p.rx := by rw [queued, hnone]; exact List.append_nil _
          refine ⟨⟨fun {pre status post} hq => ?_, fun _ => ⟨by simpa using hexited, hbuffer⟩⟩,
            fun hexited => ⟨hexited, rfl⟩, [], (List.append_nil _).symm, ?_⟩
          · rcases mem_of_snoc hq with ⟨hpost, -⟩ | hmem
            · exact ⟨hpost, rfl⟩
            · exact absurd (hqueued ▸ hmem) (hord.not_ended hdrained status)
          · simp [unread, queued, hnone, PtyEvent.data]
  | send =>
      simp only [step] at h
      split at h
      · cases h
      · next event hpending =>
          split at h
          · cases h
          · cases h
            have hqueued : ({ p with pending := none, rx := p.rx ++ [event] } : Pty).queued
                = p.queued := by simp [queued, hpending]
            refine ⟨⟨fun hq => hord.last (hqueued.symm.trans hq), hord.drained⟩,
              fun hexited => ⟨hexited, rfl⟩, [], (List.append_nil _).symm, ?_⟩
            rw [unread, unread, hqueued, List.append_nil]

end Pty

/-! ## What one step of the server does to it -/

/-- The output an edit applies. -/
def HostEdit.output : HostEdit → Bytes
  | .act data => data
  | _ => []

namespace Server

variable {T : Type} [Emulator T] [ProstMessage HostMessage] [ProstMessage UserMessage]

/-- The output handed to the terminal so far. -/
def shown (s : Server T) : Bytes := s.endpoint.edits.flatMap HostEdit.output

/-- Nothing of the output moves. -/
structure Same (s s' : Server T) : Prop where
  pty : s'.pty = { s.pty with actions := s'.pty.actions }
  applied : s'.applied = s.applied
  shown : s'.shown = s.shown
  shutdown : s'.shutdownInProgress = s.shutdownInProgress

namespace Same

variable {s s' s'' : Server T}

omit [Emulator T] [ProstMessage HostMessage] [ProstMessage UserMessage] in
theorem refl (s : Server T) : Same s s := ⟨rfl, rfl, rfl, rfl⟩

omit [Emulator T] [ProstMessage HostMessage] [ProstMessage UserMessage] in
theorem trans (h : Same s s') (h' : Same s' s'') : Same s s'' :=
  ⟨by rw [h'.pty, h.pty], h'.applied.trans h.applied, h'.shown.trans h.shown,
    h'.shutdown.trans h.shutdown⟩

omit [ProstMessage HostMessage] [ProstMessage UserMessage] in
theorem edit {e : HostEdit} (he : e.output = []) : Same s (s.edit e) := by
  refine ⟨rfl, rfl, ?_, rfl⟩
  change (s.endpoint.edits ++ [e]).flatMap HostEdit.output = _
  rw [List.flatMap_append, List.flatMap_singleton, he, List.append_nil]
  rfl

omit [Emulator T] [ProstMessage HostMessage] [ProstMessage UserMessage] in
theorem writeKeys (keys : Bytes) : Same s (s.writeKeys keys) := by
  unfold Server.writeKeys
  split
  · exact refl s
  · exact ⟨rfl, rfl, rfl, rfl⟩

omit [ProstMessage HostMessage] [ProstMessage UserMessage] in
theorem applyResize (width height : Int32) : Same s (s.applyResize width height) := by
  unfold Server.applyResize
  have hpty : Same s { s with
      pty := { s.pty with actions := s.pty.actions ++ [.resize (.ofResize width height)] } } :=
    ⟨rfl, rfl, rfl, rfl⟩
  simp only []
  split
  · exact hpty
  · exact hpty.trans (edit rfl)

omit [ProstMessage HostMessage] [ProstMessage UserMessage] in
theorem feedEvents (keys : Bytes) (events : List UserEvent) :
    Same s (s.feedEvents keys events).1 := by
  fun_induction Server.feedEvents s keys events with
  | case1 => exact refl _
  | case2 s keys byte rest ih => exact ih
  | case3 s keys width height w h rest ih => exact ih
  | case4 s keys width height rest _ ih =>
      exact ((writeKeys keys).trans (applyResize width height)).trans ih

omit [ProstMessage HostMessage] in
theorem handleClientInput (now : Nat) : Same s (s.handleClientInput now) := by
  unfold Server.handleClientInput
  simp only []
  split
  · exact refl s
  have hdiff : Same s { s with
      endpoint := s.endpoint.getRemoteDiff.1
      lastRemoteNum := s.endpoint.transport.getRemoteStateNum } := ⟨rfl, rfl, rfl, rfl⟩
  split
  · exact hdiff
  · split
    · exact ((hdiff.trans (feedEvents _ _)).trans (writeKeys _)).trans (edit rfl)
    · exact (hdiff.trans (feedEvents _ _)).trans (writeKeys _)

omit [Emulator T] [ProstMessage HostMessage] [ProstMessage UserMessage] in
theorem of_endpoint {x : Endpoint (Complete T) UserStream HostEdit} {num : Nat}
    {size : Option PtySize} {phase : Phase} (hedits : x.edits = s.endpoint.edits)
    (hshut : x.transport.sender.shutdownInProgress = s.shutdownInProgress) :
    Same s { s with
      endpoint := x, lastRemoteNum := num, ptySize := size, phase := phase } :=
  ⟨rfl, rfl, by rw [Server.shown, Server.shown, hedits], hshut⟩

end Same

/-- What a step does to the output and the shutdown. -/
inductive Flowed (s : Server T) (op : ServerOp) (s' : Server T) : Prop
  | same (h : Same s s')
  | pty {ptyOp : PtyOp} (hpty : s.pty.step ptyOp = some s'.pty) (happlied : s'.applied = s.applied)
      (hshown : s'.shown = s.shown) (hshut : s'.shutdownInProgress = s.shutdownInProgress)
  | output {data : Bytes} {rest : List PtyEvent} (hrx : s.pty.rx = .output data :: rest)
      (hpty : s'.pty = { s.pty with rx := rest })
      (happlied : s'.applied = match (s.endpoint.transport.sender.currentState.act data).2 with
          | .ok () => s.applied ++ data
          | .error _ => s.applied)
      (hshown : s'.shown = s.shown ++ data) (hrun : s.shutdownInProgress = false)
      (hrun' : s'.shutdownInProgress = false)
  | dropped {event : PtyEvent} {rest : List PtyEvent} (hrx : s.pty.rx = event :: rest)
      (hpty : s'.pty = { s.pty with rx := rest }) (happlied : s'.applied = s.applied)
      (hshown : s'.shown = s.shown) (hshut : s.shutdownInProgress = true)
      (hshut' : s'.shutdownInProgress = true)
  | ended {status : Nat} {rest : List PtyEvent} (hop : ∀ now, op ≠ .housekeeping now)
      (hrx : s.pty.rx = .exited status :: rest) (hpty : s'.pty = { s.pty with rx := rest })
      (happlied : s'.applied = s.applied) (hshown : s'.shown = s.shown)
      (hshut : s'.shutdownInProgress = true)
  | found {now : Nat} (hop : op = .housekeeping now) (hexited : s.pty.exited = true)
      (hpty : s'.pty = s.pty) (happlied : s'.applied = s.applied) (hshown : s'.shown = s.shown)
      (hshut : s'.shutdownInProgress = true)

variable {s s' : Server T} {init : Complete T} {op : ServerOp}

omit [ProstMessage UserMessage] in
theorem tick_shutdown (h : Endpoint.Finished HostEdit.apply init s.endpoint) {now : Nat}
    (hnow : s.endpoint.clock ≤ now) (hrange : now < CLOCK_RANGE) {timeout srttMs : Nat}
    {chaff : Bytes} :
    (s.endpoint.tick now timeout srttMs chaff).transport.sender.shutdownInProgress
      = s.shutdownInProgress := by
  obtain ⟨y, hdir⟩ := h.traced
  obtain ⟨got, -, hlinked⟩ := hdir.linked
  obtain ⟨-, -, hcase⟩ := TransportSender.tick_cases hlinked.inv hnow hrange timeout srttMs
    s.endpoint.transport.connection.hasRemoteAddr chaff
  obtain ⟨-, -, hshut, -⟩ := @TransportSender.calculateTimers_frame _ _
    s.endpoint.transport.sender now timeout srttMs
  rcases hcase with ⟨hq, -⟩ | ⟨inst, ref, k, -, hem⟩
  · exact hq.shutdown.trans hshut
  · exact hem.shutdown.trans hshut

omit [ProstMessage UserMessage] in
theorem waitTime_shutdown {now timeout srttMs : Nat} :
    (s.endpoint.waitTime now timeout srttMs).transport.sender.shutdownInProgress
      = s.shutdownInProgress := by
  obtain ⟨-, -, hshut, -⟩ := @TransportSender.calculateTimers_frame _ _
    s.endpoint.transport.sender now timeout srttMs
  simp only [Endpoint.waitTime, Transport.waitTimeMs, TransportSender.waitTimeMs]
  split <;> exact hshut

omit [Emulator T] [ProstMessage HostMessage] [ProstMessage UserMessage] in
theorem startShutdown_shutdown {now : Nat} :
    (s.endpoint.startShutdown now).transport.sender.shutdownInProgress = true := by
  simp only [Endpoint.startShutdown, TransportSender.startShutdown]
  split
  · next h => exact h
  · rfl

omit [ProstMessage HostMessage] [ProstMessage UserMessage] in
theorem housekeep_exited {now : Nat} (hexited : s.pty.exited = true) :
    (s.housekeep now).1 = { s with endpoint := s.endpoint.startShutdown now } := by
  unfold housekeep tryWait
  rw [if_pos hexited]
  exact congrArg Prod.fst (if_pos startShutdown_shutdown)

omit [ProstMessage HostMessage] [ProstMessage UserMessage] in
theorem housekeep_running {now : Nat} (hexited : ¬s.pty.exited = true) :
    Same s (s.housekeep now).1 := by
  unfold housekeep tryWait
  rw [if_neg hexited]
  simp only []
  split
  · exact .refl s
  · exact .edit rfl

omit [ProstMessage HostMessage] [ProstMessage UserMessage] in
/-- The loop reads the deadlines before it takes a branch. -/
theorem Flowed.of_wait {x : Endpoint (Complete T) UserStream HostEdit} {phase : Phase}
    (hedits : x.edits = s.endpoint.edits)
    (hshut : x.transport.sender.shutdownInProgress = s.shutdownInProgress)
    (hcur : x.transport.sender.currentState = s.endpoint.transport.sender.currentState)
    (h : Flowed { s with endpoint := x } op s') : Flowed s op { s' with phase := phase } := by
  have hshown : ({ s with endpoint := x } : Server T).shown = s.shown := by
    rw [shown, shown, hedits]
  cases h with
  | same h => exact .same ((Same.of_endpoint hedits hshut).trans (h.trans (.of_endpoint rfl rfl)))
  | pty hpty happlied hshown' hshut' =>
      exact .pty hpty happlied (hshown'.trans hshown) (hshut'.trans hshut)
  | output hrx hpty happlied hshown' hbefore hafter =>
      exact .output hrx hpty (hcur ▸ happlied) (hshown ▸ hshown') (hshut.symm.trans hbefore) hafter
  | dropped hrx hpty happlied hshown' hbefore hafter =>
      exact .dropped hrx hpty happlied (hshown'.trans hshown) (hshut.symm.trans hbefore) hafter
  | ended hop hrx hpty happlied hshown' hafter =>
      exact .ended hop hrx hpty happlied (hshown'.trans hshown) hafter
  | found hop hexited hpty happlied hshown' hafter =>
      exact .found hop hexited hpty happlied (hshown'.trans hshown) hafter

omit [ProstMessage HostMessage] in
/-- The branches of the `select!`. -/
theorem takeBranch_flowed {now : Nat} {branch : Branch} (hop : ∀ now, op ≠ .housekeeping now)
    (hbranch : s.takeBranch now branch = some s') : Flowed s op s' := by
  cases branch with
  | ptyEvent =>
      simp only [takeBranch] at hbranch
      split at hbranch
      · cases hbranch
      · next event rest hrx =>
          cases hbranch
          cases event with
          | output data =>
              simp only [handlePtyEvent]
              split
              · next hshut => exact .dropped hrx rfl rfl rfl hshut hshut
              · next hrun =>
                  have hrun' := Bool.not_eq_true _ ▸ hrun
                  refine .output hrx rfl rfl ?_ hrun' hrun'
                  change (s.endpoint.edits ++ [HostEdit.act data]).flatMap HostEdit.output = _
                  rw [List.flatMap_append, List.flatMap_singleton]
                  rfl
          | exited status => exact .ended hop hrx rfl rfl rfl startShutdown_shutdown
  | recv fresh incoming =>
      cases hbranch
      exact .same (.of_endpoint rfl recv_shutdown.1)
  | sleep =>
      cases hbranch
      exact .same (.refl s)

theorem step_flowed (h : Endpoint.Finished HostEdit.apply init s.endpoint)
    (hstep : s.step op = some s') : Flowed s op s' := by
  cases op with
  | pty ptyOp =>
      simp only [step] at hstep
      split at hstep
      · cases hstep
      · obtain ⟨p, hp, rfl⟩ := Option.map_eq_some_iff.mp hstep
        exact .pty hp rfl rfl rfl
  | await now fresh datagram =>
      simp only [step] at hstep
      split at hstep
      · cases hstep
        exact .same (.of_endpoint rfl recv_shutdown.1)
      · cases hstep
  | giveUp =>
      simp only [step] at hstep
      split at hstep
      · cases hstep
        exact .same (.of_endpoint rfl rfl)
      · cases hstep
  | connect =>
      simp only [step] at hstep
      split at hstep
      · cases hstep
        refine .same ?_
        unfold connect
        simp only []
        split
        · exact .of_endpoint rfl rfl
        · exact (Same.of_endpoint (s := s) rfl rfl).trans
            ((Same.edit rfl).trans (.of_endpoint rfl rfl))
      · cases hstep
  | select now timeout srttMs branch =>
      simp only [step] at hstep
      split at hstep
      · obtain ⟨s₁, hbranch, rfl⟩ := Option.map_eq_some_iff.mp hstep
        exact .of_wait (x := s.endpoint.waitTime now.val timeout srttMs) rfl waitTime_shutdown
          (waitTimeMs_current rfl) (takeBranch_flowed (by simp) hbranch)
      · cases hstep
  | input now =>
      simp only [step] at hstep
      split at hstep
      · cases hstep
        exact .same ((Same.handleClientInput now).trans (.of_endpoint rfl rfl))
      · cases hstep
  | housekeeping now =>
      simp only [step] at hstep
      split at hstep
      · cases hstep
        by_cases hexited : s.pty.exited = true
        · have hfound := @housekeep_exited _ _ _ now hexited
          refine .found rfl hexited ?_ ?_ ?_ ?_ <;> simp only [hfound]
          · rfl
          · exact startShutdown_shutdown
        · exact .same ((housekeep_running hexited).trans (.of_endpoint rfl rfl))
      · cases hstep
  | tick now timeout srttMs chaff =>
      simp only [step] at hstep
      split at hstep
      · next hclock =>
          cases hstep
          exact .same (.of_endpoint rfl (tick_shutdown h hclock.2 now.isLt))
      · cases hstep

/-! ## What every run keeps -/

omit [ProstMessage HostMessage] [ProstMessage UserMessage] in
/-- An emulator once there stays there, so nothing fails to be applied. -/
theorem edits_live {c : Complete T} (h : c.terminal.isSome = true) (edits : List HostEdit) :
    (edits.foldl HostEdit.apply c).terminal.isSome = true := by
  induction edits generalizing c with
  | nil => exact h
  | cons e edits ih =>
      obtain ⟨m, hm⟩ := Option.isSome_iff_exists.mp h
      refine ih ?_
      cases e with
      | act data =>
          simp only [HostEdit.apply, Complete.act, Complete.terminalMut, hm]
          rfl
      | resize size =>
          simp only [HostEdit.apply, Complete.resize, Complete.terminalMut, hm]
          split <;> rfl
      | registerInputFrame n now => exact h
      | setEchoAck now => exact h

omit [ProstMessage HostMessage] [ProstMessage UserMessage] in
theorem act_ok {c : Complete T} (h : c.terminal.isSome = true) (data : Bytes) :
    (c.act data).2 = .ok () := by
  obtain ⟨m, hm⟩ := Option.isSome_iff_exists.mp h
  simp only [Complete.act, Complete.terminalMut, hm]

structure Flow (s : Server T) : Prop where
  ordered : s.pty.Ordered
  conserved : s.shutdownInProgress = false → s.pty.written = s.applied ++ s.pty.unread
  /-- Shutdown begins after the child's end. -/
  exited : s.shutdownInProgress = true → s.pty.exited = true
  applied : s.applied = s.shown

/-- The server keeps its own state and the account of the output. -/
structure Served (terminal : Complete T) (s : Server T) : Prop where
  finished : s.endpoint.Finished HostEdit.apply terminal
  waited : s.Waited
  flow : s.Flow

variable {terminal : Complete T}

omit [ProstMessage UserMessage] in
theorem Flow.step (h : s.Flow) (hfin : s.endpoint.Finished HostEdit.apply terminal)
    (hlive : terminal.terminal.isSome = true) (hflowed : Flowed s op s') : s'.Flow := by
  cases hflowed with
  | same hsame =>
      obtain ⟨hpty, happlied, hshown, hshut⟩ := hsame
      refine ⟨?_, fun hrun => ?_, fun hs => ?_, by rw [happlied, hshown, h.applied]⟩
      · rw [hpty]
        exact ⟨h.ordered.last, h.ordered.drained⟩
      · rw [hpty, happlied]
        exact h.conserved (hshut.symm.trans hrun)
      · rw [hpty]
        exact h.exited (hshut.symm.trans hs)
  | pty hpty happlied hshown hshut =>
      obtain ⟨hord, hexited, more, hwritten, hunread⟩ := Pty.step_cases hpty h.ordered
      refine ⟨hord, fun hrun => ?_, fun hs => ?_, by rw [happlied, hshown, h.applied]⟩
      · rw [hwritten, hunread, happlied, h.conserved (hshut.symm.trans hrun), List.append_assoc]
      · exact (hexited (h.exited (hshut.symm.trans hs))).1
  | output hrx hpty happlied hshown hrun hrun' =>
      rw [hfin.current, act_ok (edits_live hlive _)] at happlied
      refine ⟨hpty ▸ h.ordered.take hrx, fun _ => ?_, fun hs => ?_, ?_⟩
      · rw [hpty, happlied, h.conserved hrun, Pty.unread_take hrx, List.append_assoc]
        rfl
      · rw [hrun'] at hs
        cases hs
      · rw [happlied, hshown, h.applied]
  | dropped hrx hpty happlied hshown hshut hshut' =>
      refine ⟨hpty ▸ h.ordered.take hrx, fun hrun => ?_, fun _ => hpty ▸ h.exited hshut, ?_⟩
      · rw [hshut'] at hrun
        cases hrun
      · rw [happlied, hshown, h.applied]
  | ended hop hrx hpty happlied hshown hshut =>
      refine ⟨hpty ▸ h.ordered.take hrx, fun hrun => ?_, fun _ => ?_, ?_⟩
      · rw [hshut] at hrun
        cases hrun
      · rw [hpty]
        exact (h.ordered.unread_of_exited hrx).1
      · rw [happlied, hshown, h.applied]
  | found hop hexited hpty happlied hshown hshut =>
      refine ⟨hpty ▸ h.ordered, fun hrun => ?_, fun _ => hpty ▸ hexited, ?_⟩
      · rw [hshut] at hrun
        cases hrun
      · rw [happlied, hshown, h.applied]

theorem Reaches.finished {instructions : List Instruction}
    {x x' : Endpoint (Complete T) UserStream HostEdit}
    (h : x.Finished HostEdit.apply terminal) (hreach : Reaches instructions x x') :
    x'.Finished HostEdit.apply terminal := by
  induction hreach with
  | refl => exact h
  | tail _ hstepped ih => exact ih.step rfl hstepped

theorem Served.step (hlive : terminal.terminal.isSome = true) (h : Served terminal s)
    (hstep : s.step op = some s') : Served terminal s' := by
  have hreach : Reaches (incoming op).toList s.endpoint s'.endpoint :=
    step_reaches h.waited.shutdown hstep fun inst hi => by simp [hi]
  exact ⟨hreach.finished h.finished, h.waited.step hstep,
    h.flow.step h.finished hlive (step_flowed h.finished hstep)⟩

theorem Served.start {now : Nat} (hnow : now < CLOCK_RANGE) (connection : Connection)
    (terminal : Complete T) : Served terminal (start now connection terminal) := by
  refine ⟨.start hnow, ⟨fun _ => rfl, fun _ => rfl, fun _ => rfl⟩,
    ⟨⟨fun {pre status post} hq => ?_, ?_⟩,
    fun _ => rfl, ?_, rfl⟩⟩
  · have hlen := congrArg List.length hq
    simp [Pty.queued, Server.start, Pty.spawn] at hlen
  · exact fun h => by cases h
  · exact fun h => by cases h

theorem run_served {now : Nat} (hnow : now < CLOCK_RANGE) {connection : Connection}
    (hlive : terminal.terminal.isSome = true) {ops : List ServerOp}
    (hrun : Run.run step (start now connection terminal) ops = some s) : Served terminal s :=
  Run.run_invariant (fun _ _ _ h hstep => h.step hlive hstep) (.start hnow connection terminal) hrun

/-! ## The end of the child -/

omit [ProstMessage HostMessage] [ProstMessage UserMessage] in
/-- Once shutdown has begun nothing more is written and nothing applied. The child
has exited by then, and output that is still in the channel is dropped. -/
theorem Flow.settled (h : s.Flow) (hflowed : Flowed s op s')
    (hshut : s.shutdownInProgress = true) :
    s'.applied = s.applied ∧ s'.pty.written = s.pty.written := by
  cases hflowed with
  | same hsame => exact ⟨hsame.applied, by rw [hsame.pty]⟩
  | pty hpty happlied hshown hsame =>
      obtain ⟨-, hexited, -⟩ := Pty.step_cases hpty h.ordered
      exact ⟨happlied, (hexited (h.exited hshut)).2⟩
  | output hrx hpty happlied hshown hrun hrun' =>
      rw [hrun] at hshut
      cases hshut
  | dropped hrx hpty happlied hshown hshut hshut' => exact ⟨happlied, by rw [hpty]⟩
  | ended hop hrx hpty happlied hshown hshut' => exact ⟨happlied, by rw [hpty]⟩
  | found hop hexited hpty happlied hshown hshut' => exact ⟨happlied, by rw [hpty]⟩

omit [ProstMessage HostMessage] [ProstMessage UserMessage] in
/-- The shutdown that `Exited` starts finds all output applied; the one that
`housekeeping` starts finds applied what is not on its way any more. -/
theorem Flow.begins (h : s.Flow) (hflowed : Flowed s op s')
    (hrun : s.shutdownInProgress = false) (hshut : s'.shutdownInProgress = true) :
    (s'.applied = s'.pty.written ↔ s.pty.unread = []) ∧
      ((∀ now, op ≠ .housekeeping now) → s.pty.unread = []) ∧ s.pty.exited = true := by
  have hwritten := h.conserved hrun
  cases hflowed with
  | same hsame =>
      rw [hsame.shutdown, hrun] at hshut
      cases hshut
  | pty hpty happlied hshown hsame =>
      rw [hsame, hrun] at hshut
      cases hshut
  | output hrx hpty happlied hshown hrun hrun' =>
      rw [hrun'] at hshut
      cases hshut
  | dropped hrx hpty happlied hshown hbefore hafter =>
      rw [hrun] at hbefore
      cases hbefore
  | ended hop hrx hpty happlied hshown hafter =>
      obtain ⟨hexited, hunread⟩ := h.ordered.unread_of_exited hrx
      refine ⟨⟨fun _ => hunread, fun _ => ?_⟩, fun _ => hunread, hexited⟩
      rw [happlied, hpty, hwritten, hunread, List.append_nil]
  | found hop hexited hpty happlied hshown hafter =>
      refine ⟨?_, fun hne => absurd hop (hne _), hexited⟩
      rw [happlied, hpty, hwritten, List.self_eq_append_right]

omit [ProstMessage UserMessage] [ProstMessage HostMessage] in
theorem new_live {cols rows : Nat} (hnew : Complete.new cols rows = .ok terminal) :
    terminal.terminal.isSome = true := by
  unfold Complete.new at hnew
  cases hm : (MoshTerminal.new cols rows : Except String (MoshTerminal T)) with
  | error e => rw [hm] at hnew; cases hnew
  | ok m =>
      rw [hm] at hnew
      change Except.map _ m.snapshot = _ at hnew
      cases hs : m.snapshot with
      | error e => rw [hs] at hnew; cases hnew
      | ok screen => rw [hs] at hnew; cases hnew; rfl

theorem housekeeping_begins {now : Nat} (hexited : s.pty.exited = true)
    (hstep : s.step (.housekeeping now) = some s') : s'.shutdownInProgress = true := by
  simp only [step] at hstep
  split at hstep
  · cases hstep
    rw [housekeep_exited hexited]
    exact startShutdown_shutdown
  · cases hstep

/-- Everything the child wrote is in the state being sent, and in what was sent
under the shutdown number. -/
structure Delivered (terminal : Complete T) (s : Server T) : Prop where
  applied : s.applied = s.pty.written
  current : s.endpoint.transport.sender.currentState
    = s.endpoint.edits.foldl HostEdit.apply terminal
  shown : s.endpoint.edits.flatMap HostEdit.output = s.pty.written
  sent : ∀ u ∈ s.endpoint.uses, u.num = SHUTDOWN_NUM →
    u.state = clone s.endpoint.transport.sender.currentState

omit [ProstMessage UserMessage] in
theorem Served.delivered (h : Served terminal s) :
    Delivered terminal s ↔ s.applied = s.pty.written :=
  ⟨Delivered.applied, fun happlied => ⟨happlied, h.finished.current,
    h.flow.applied.symm.trans happlied, fun u hu hnum => (h.finished.final u hu hnum).2⟩⟩

/-- From the moment shutdown starts the state sent holds all the child wrote,
exactly where no `housekeeping` pass before it finds the child gone and some of
its output still in the buffer, with the reader or in the queue. -/
theorem final_output_delivered (now : Reading) (connection : Connection)
    {terminal : Complete T} (hterminal : Complete.new 80 24 = .ok terminal)
    (ops : List ServerOp) (s : Server T)
    (hrun : Run.run step (start now connection terminal) ops = some s) :
    (∀ pre s₁, pre <+: ops → Run.run step (start now connection terminal) pre = some s₁ →
      s₁.shutdownInProgress = true → Delivered terminal s₁) ↔
    ∀ pre later s₁, pre ++ [.housekeeping later] <+: ops →
      Run.run step (start now connection terminal) pre = some s₁ →
      s₁.shutdownInProgress = false → s₁.pty.exited = true → s₁.pty.unread = [] := by
  have hlive := new_live hterminal
  constructor
  · intro h pre later s₁ hpre hrun₁ hshut hexited
    obtain ⟨post, rfl⟩ := hpre
    obtain ⟨s₂, hrun₂, -⟩ := Run.run_append.mp hrun
    obtain ⟨m, hm, hstep⟩ := Run.run_concat.mp hrun₂
    obtain rfl : m = s₁ := Option.some.inj (hm.symm.trans hrun₁)
    have hserved := run_served now.isLt hlive hrun₁
    have hflowed := step_flowed hserved.finished hstep
    have hshut' := housekeeping_begins hexited hstep
    have hdelivered := h _ s₂ ⟨post, rfl⟩ hrun₂ hshut'
    exact (hserved.flow.begins hflowed hshut hshut').1.mp hdelivered.applied
  · intro h pre
    induction pre using List.reverseRecOn with
    | nil =>
        intro s₁ _ hrun₁ hshut
        cases hrun₁
        cases hshut
    | append_singleton pre op ih =>
        intro s₁ hpre hrun₁ hshut
        obtain ⟨m, hm, hstep⟩ := Run.run_concat.mp hrun₁
        have hserved := run_served now.isLt hlive hm
        have hflowed := step_flowed hserved.finished hstep
        refine (run_served now.isLt hlive hrun₁).delivered.mpr ?_
        cases hbefore : m.shutdownInProgress with
        | true =>
            obtain ⟨happlied, hwritten⟩ := hserved.flow.settled hflowed hbefore
            have hprefix : pre <+: ops := (List.prefix_append pre [op]).trans hpre
            rw [happlied, hwritten, (ih m hprefix hm hbefore).applied]
        | false =>
            obtain ⟨hiff, hother, hexited⟩ := hserved.flow.begins hflowed hbefore hshut
            refine hiff.mpr ?_
            by_cases hop : ∃ later, op = .housekeeping later
            · obtain ⟨later, rfl⟩ := hop
              exact h pre later m hpre hm hbefore hexited
            · exact hother fun later heq => hop ⟨later, heq⟩

end Server

/-! ## A child that writes a byte and exits -/

namespace Server

/-- The client's first packet, the connection it makes, and a byte. -/
def greeted : List ServerOp :=
  [.await 0 true (.ok (some
      ⟨some MORSH_PROTOCOL_VERSION, some 0, some 1, some 0, some 0, some [], some []⟩)),
    .connect, .pty (.childWrite [104])]

/-- The child is found to have exited before its byte is read. -/
def overtaken : Option (Server VtTerminal) :=
  Run.run step (start (0 : Reading) ⟨false, 0, 0⟩ (VtTerminal.opened 80 24))
    (greeted ++ [.pty .childExit, .select 0 1000 250 .sleep, .input 0, .housekeeping 0])

/-- Shutdown has begun and the byte is not in the state to be sent. -/
theorem final_output_overtaken :
    ∃ s, overtaken = some s ∧ s.shutdownInProgress = true ∧ s.pty.written = [104] ∧
      s.applied = [] :=
  ⟨overtaken.get (by decide +kernel), (Option.some_get _).symm, by decide +kernel,
    by decide +kernel, by decide +kernel⟩

/-- The byte has been taken from the queue when the end is noticed. -/
def inTime : List ServerOp :=
  greeted ++ [.pty (.read 1), .pty .send, .pty .childExit, .select 0 1000 250 .ptyEvent, .input 0]

def noticed : Option (Server VtTerminal) :=
  Run.run step (start (0 : Reading) ⟨false, 0, 0⟩ (VtTerminal.opened 80 24))
    (inTime ++ [.housekeeping 0])

theorem final_output_delivered_noticed :
    ∃ s, noticed = some s ∧ s.shutdownInProgress = true ∧
      Delivered (VtTerminal.opened 80 24) s := by
  have hread : ∀ s, Run.run step (start (0 : Reading) ⟨false, 0, 0⟩ (VtTerminal.opened 80 24))
      inTime = some s → s.pty.unread = [] := by
    intro s hs
    have hmap : (Run.run step (start (0 : Reading) ⟨false, 0, 0⟩ (VtTerminal.opened 80 24))
        inTime).map (·.pty.unread) = some [] := by decide +kernel
    rw [hs] at hmap
    exact Option.some.inj hmap
  refine ⟨noticed.get (by decide +kernel), (Option.some_get _).symm, by decide +kernel,
    (final_output_delivered 0 _ (VtTerminal.new_opened (by decide) (by decide)) _ _
      (Option.some_get (by decide +kernel)).symm).mpr ?_ _ _ (List.prefix_refl _)
      (Option.some_get _).symm (by decide +kernel)⟩
  intro pre later s₁ hpre hrun _ _
  -- `housekeeping` runs once, at the end
  rcases List.prefix_concat_iff.mp hpre with heq | hbefore
  · exact hread s₁ ((List.append_inj' heq rfl).1 ▸ hrun)
  · have hmem : (.housekeeping later : ServerOp) ∈ inTime := hbefore.subset (by simp)
    simp [inTime, greeted] at hmem

end Server

end Morsh
