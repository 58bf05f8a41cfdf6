import Morsh.Proofs.EchoAck
import Morsh.Proofs.Keystrokes
import Morsh.Proofs.Output

/-!
# Where an echo ack comes from

The server's terminal has a history of the client's states and an echo ack. A
step of the server registers the state it has just processed, or asks for the
echo ack, or touches neither. What the client makes of a diff has the echo ack
it had, or the one the diff was made with.

`Mute` collects what almost every operation of the server is: neither the echo
ack nor the history changes and nothing is sent. What remains are three kinds of
step (`Marked`), and `step_marked` sorts every operation of the server into them.
At the client the argument is about the diff: of its instructions only one kind
touches the ack, and a message holds at most one of them, made from the state the
diff was taken of.
-/

namespace Morsh

open State

variable {T : Type} [Emulator T] [ProstMessage HostMessage]

namespace Server

variable [ProstMessage UserMessage]

/-- The terminal the server synchronizes. -/
def host (s : Server T) : Complete T := s.endpoint.transport.sender.currentState

/-- The number of the newest state of the client. -/
def remoteNum (s : Server T) : Nat := s.endpoint.transport.getRemoteStateNum

/-- Neither the echo ack nor what it is made of changes, and nothing is sent. -/
structure Mute (s s' : Server T) : Prop where
  echoAck : s'.host.echoAck = s.host.echoAck
  history : s'.host.inputHistory = s.host.inputHistory
  sent : s'.endpoint.sent = s.endpoint.sent

namespace Mute

variable {s s' s'' : Server T}

omit [Emulator T] [ProstMessage HostMessage] [ProstMessage UserMessage] in
theorem refl (s : Server T) : Mute s s := ⟨rfl, rfl, rfl⟩

omit [Emulator T] [ProstMessage HostMessage] [ProstMessage UserMessage] in
theorem trans (h : Mute s s') (h' : Mute s' s'') : Mute s s'' :=
  ⟨h'.echoAck.trans h.echoAck, h'.history.trans h.history, h'.sent.trans h.sent⟩

omit [Emulator T] [ProstMessage HostMessage] [ProstMessage UserMessage] in
theorem of_endpoint (hhost : s'.host = s.host) (hsent : s'.endpoint.sent = s.endpoint.sent) :
    Mute s s' := ⟨by rw [hhost], by rw [hhost], hsent⟩

omit [Emulator T] [ProstMessage HostMessage] [ProstMessage UserMessage] in
theorem enter (h : Mute s s') (phase : Phase) : Mute s { s' with phase := phase } :=
  ⟨h.echoAck, h.history, h.sent⟩

omit [ProstMessage HostMessage] [ProstMessage UserMessage] in
theorem act (data : Bytes) : Mute s (s.edit (.act data)) := by
  obtain ⟨hack, hhistory⟩ := s.host.act_frame data
  exact ⟨hack, hhistory, rfl⟩

omit [ProstMessage HostMessage] [ProstMessage UserMessage] in
theorem resize (size : PtySize) : Mute s (s.edit (.resize size)) := by
  obtain ⟨hack, hhistory⟩ := s.host.resize_frame size.cols size.rows
  exact ⟨hack, hhistory, rfl⟩

omit [Emulator T] [ProstMessage HostMessage] [ProstMessage UserMessage] in
theorem writeKeys (keys : Bytes) : Mute s (s.writeKeys keys) := by
  unfold Server.writeKeys
  split <;> exact ⟨rfl, rfl, rfl⟩

omit [ProstMessage HostMessage] [ProstMessage UserMessage] in
theorem applyResize (width height : Int32) : Mute s (s.applyResize width height) := by
  unfold Server.applyResize
  have hpty : Mute s { s with
      pty := { s.pty with actions := s.pty.actions ++ [.resize (.ofResize width height)] } } :=
    ⟨rfl, rfl, rfl⟩
  dsimp only
  split
  · exact hpty
  · exact hpty.trans (resize _)

omit [ProstMessage HostMessage] [ProstMessage UserMessage] in
theorem feedEvents (keys : Bytes) (events : List UserEvent) :
    Mute s (s.feedEvents keys events).1 := by
  fun_induction Server.feedEvents s keys events with
  | case1 => exact refl _
  | case2 s keys byte rest ih => exact ih
  | case3 s keys width height w h rest ih => exact ih
  | case4 s keys width height rest _ ih =>
      exact ((writeKeys keys).trans (applyResize width height)).trans ih

end Mute

/-- What a step does to the echo ack and to the state last processed. -/
inductive Marked (s : Server T) : ServerOp → Server T → Prop
  | mute {op : ServerOp} {s' : Server T} (h : Mute s s')
      (hnum : s'.lastRemoteNum = s.lastRemoteNum ∨ s'.lastRemoteNum = s.remoteNum)
      (hshut : ∀ now, op = .housekeeping now → s'.shutdownInProgress = true) : Marked s op s'
  | ticked {op : ServerOp} {s' : Server T} (hop : ∀ now, op ≠ .housekeeping now)
      (hhost : s'.host = s.host) (hnum : s'.lastRemoteNum = s.lastRemoteNum)
      (hsent : ∀ inst ∈ s'.endpoint.sent, inst ∈ s.endpoint.sent ∨
        ∃ a, inst.diff = some (diffFrom s.host a)) : Marked s op s'
  | registered {now : Nat} {s' : Server T} (hnum : s'.lastRemoteNum = s.remoteNum)
      (hnew : s.remoteNum ≠ s.lastRemoteNum) (hack : s'.host.echoAck = s.host.echoAck)
      (hhistory : s'.host.inputHistory = s.host.inputHistory ++ [(s.remoteNum, now)])
      (hsent : s'.endpoint.sent = s.endpoint.sent) : Marked s (.input now) s'
  | asked {now : Nat} {s' : Server T} (hnum : s'.lastRemoteNum = s.lastRemoteNum)
      (hrun : s'.shutdownInProgress = false) (hhost : s'.host = (s.host.setEchoAck now).1)
      (hsent : s'.endpoint.sent = s.endpoint.sent) : Marked s (.housekeeping now) s'

variable {s s' : Server T} {init : Complete T} {op : ServerOp}

theorem host_of_edits {x : Endpoint (Complete T) UserStream HostEdit}
    {incoming : List Instruction} (h : Endpoint.Finished HostEdit.apply init s.endpoint)
    (hstep : s.endpoint.Stepped HostEdit.apply incoming x) (hedits : x.edits = s.endpoint.edits) :
    x.transport.sender.currentState = s.host := by
  rw [(h.step rfl hstep).current, hedits, host, h.current]

theorem recv_mute (h : Endpoint.Finished HostEdit.apply init s.endpoint) (now : Nat) (fresh : Bool)
    (datagram : Except String (Option Instruction)) (phase : Phase) :
    Mute s { s with endpoint := s.endpoint.recv now fresh datagram, phase := phase } := by
  have hstep : s.endpoint.Stepped HostEdit.apply (incoming (.await now fresh datagram)).toList
      (s.endpoint.recv now fresh datagram) := by
    refine .of_recv now fresh fun inst hinst => ?_
    rw [hinst]
    exact List.mem_singleton_self inst
  exact .of_endpoint (host_of_edits h hstep rfl) rfl

theorem takeBranch_mute (h : Endpoint.Finished HostEdit.apply init s.endpoint) {now : Nat}
    {branch : Branch} (hbranch : s.takeBranch now branch = some s') :
    Mute s s' ∧ s'.lastRemoteNum = s.lastRemoteNum := by
  cases branch with
  | ptyEvent =>
      simp only [takeBranch] at hbranch
      split at hbranch
      · cases hbranch
      · next event rest hrx =>
          cases hbranch
          have htaken : Mute s { s with pty := { s.pty with rx := rest } } := ⟨rfl, rfl, rfl⟩
          cases event with
          | output data =>
              simp only [handlePtyEvent]
              split
              · exact ⟨htaken, rfl⟩
              · exact ⟨htaken.trans ((Mute.act data).trans ⟨rfl, rfl, rfl⟩), rfl⟩
          | exited status =>
              refine ⟨.of_endpoint ?_ rfl, rfl⟩
              exact @host_of_edits _ _ _ _ _ _ _ [] h (.shutdown now) rfl
  | recv fresh datagram =>
      cases hbranch
      exact ⟨recv_mute h now fresh datagram s.phase, rfl⟩
  | sleep =>
      cases hbranch
      exact ⟨.refl s, rfl⟩

theorem handleClientInput_marked (now : Nat) (phase : Phase) :
    Marked s (.input now) { s.handleClientInput now with phase := phase } := by
  unfold handleClientInput
  dsimp only
  split
  · exact .mute ((Mute.refl s).enter phase) (.inl rfl) (fun _ h => by cases h)
  next hnew =>
  let taken : Server T :=
    { s with endpoint := s.endpoint.getRemoteDiff.1, lastRemoteNum := s.remoteNum }
  have hdiff : Mute s taken := ⟨rfl, rfl, rfl⟩
  split
  · exact .mute (hdiff.enter phase) (.inr rfl) (fun _ h => by cases h)
  · next events _ =>
      have hfed :
          Mute s ((taken.feedEvents [] events).1.writeKeys (taken.feedEvents [] events).2) :=
        (hdiff.trans (.feedEvents [] events)).trans (.writeKeys _)
      have hsteady : Steady taken
          ((taken.feedEvents [] events).1.writeKeys (taken.feedEvents [] events).2) :=
        (feedEvents_steady [] events).trans (writeKeys_steady _)
      split
      · exact .registered hsteady.lastRemoteNum hnew hfed.echoAck
          (congrArg (· ++ [(s.remoteNum, now)]) hfed.history) hfed.sent
      · exact .mute (hfed.enter phase) (.inr hsteady.lastRemoteNum) (fun _ h => by cases h)

omit [ProstMessage UserMessage] in
theorem housekeep_marked (now : Nat) (phase : Phase) :
    Marked s (.housekeeping now) { (s.housekeep now).1 with phase := phase } := by
  by_cases hexited : s.pty.exited = true
  · rw [housekeep_exited hexited]
    have hhost :
        ({ s with endpoint := s.endpoint.startShutdown now } : Server T).host = s.host := by
      simp only [host, Endpoint.startShutdown, TransportSender.startShutdown]
      split <;> rfl
    exact .mute ((Mute.of_endpoint hhost rfl).enter phase) (.inl rfl)
      fun _ _ => startShutdown_shutdown
  · unfold housekeep tryWait
    rw [if_neg hexited]
    dsimp only
    split
    · next hshut => exact .mute ((Mute.refl s).enter phase) (.inl rfl) fun _ _ => hshut
    · next hrun => exact .asked rfl (Bool.not_eq_true _ ▸ hrun) rfl rfl

omit [ProstMessage UserMessage] in
/-- What a tick sends is the terminal, diffed against some state. -/
theorem tick_diff (h : Endpoint.Finished HostEdit.apply init s.endpoint) {now : Nat}
    (hnow : s.endpoint.clock ≤ now) (hrange : now < CLOCK_RANGE) {timeout srttMs : Nat}
    {remote : Bool} {chaff : Bytes} {inst : Instruction}
    (hinst : (s.endpoint.transport.sender.tick now timeout srttMs remote chaff).2 = some inst) :
    ∃ a, inst.diff = some (diffFrom s.host a) := by
  obtain ⟨y, hdir⟩ := h.traced
  obtain ⟨got, -, hlinked⟩ := hdir.linked
  obtain ⟨-, -, hcase⟩ :=
    TransportSender.tick_cases hlinked.inv hnow hrange timeout srttMs remote chaff
  rcases hcase with ⟨-, hnone⟩ | ⟨inst', ref, k, hsome, hem⟩
  · rw [hnone] at hinst
    cases hinst
  · obtain rfl := Option.some.inj (hsome.symm.trans hinst)
    have hdiff := hem.diff
    rw [calculateTimers_current rfl] at hdiff
    exact ⟨ref.state, hdiff⟩

theorem step_marked (h : Endpoint.Finished HostEdit.apply init s.endpoint)
    (hstep : s.step op = some s') : Marked s op s' := by
  cases op with
  | pty ptyOp =>
      simp only [step] at hstep
      split at hstep
      · cases hstep
      · obtain ⟨p, -, rfl⟩ := Option.map_eq_some_iff.mp hstep
        exact .mute ⟨rfl, rfl, rfl⟩ (.inl rfl) (fun _ h => by cases h)
  | await now fresh datagram =>
      simp only [step] at hstep
      split at hstep
      · cases hstep
        exact .mute (recv_mute h now fresh datagram s.phase) (.inl rfl) (fun _ h => by cases h)
      · cases hstep
  | giveUp =>
      simp only [step] at hstep
      split at hstep
      · cases hstep
        exact .mute ⟨rfl, rfl, rfl⟩ (.inl rfl) (fun _ h => by cases h)
      · cases hstep
  | connect =>
      simp only [step] at hstep
      split at hstep
      · cases hstep
        unfold connect
        dsimp only
        split
        · exact .mute ⟨rfl, rfl, rfl⟩ (.inl rfl) (fun _ h => by cases h)
        · exact .mute ⟨(Complete.resize_frame _ _ _).1, (Complete.resize_frame _ _ _).2, rfl⟩
            (.inr Receiver.getRemoteDiff_num) (fun _ h => by cases h)
      · cases hstep
  | select now timeout srttMs branch =>
      simp only [step] at hstep
      split at hstep
      · next hclock =>
          obtain ⟨s₁, hbranch, rfl⟩ := Option.map_eq_some_iff.mp hstep
          have hwait : s.endpoint.Stepped HostEdit.apply []
              (s.endpoint.waitTime now.val timeout srttMs) :=
            .wait now.val timeout srttMs s.endpoint.transport.connection.hasRemoteAddr hclock.2
              now.isLt
          have hwaited : Mute s { s with endpoint := s.endpoint.waitTime now.val timeout srttMs } :=
            .of_endpoint (host_of_edits h hwait rfl) rfl
          obtain ⟨htaken, hnum⟩ := takeBranch_mute (h.step rfl hwait) hbranch
          have hall := hwaited.trans htaken
          exact .mute ⟨hall.echoAck, hall.history, hall.sent⟩ (.inl hnum) (fun _ h => by cases h)
      · cases hstep
  | input now =>
      simp only [step] at hstep
      split at hstep
      · cases hstep
        exact handleClientInput_marked now .housekeeping
      · cases hstep
  | housekeeping now =>
      simp only [step] at hstep
      split at hstep
      · cases hstep
        exact housekeep_marked now _
      · cases hstep
  | tick now timeout srttMs chaff =>
      simp only [step] at hstep
      split at hstep
      · next hclock =>
          cases hstep
          refine .ticked (fun _ h => by cases h) (h.tick_current rfl hclock.2 now.isLt) rfl
            fun inst hinst => ?_
          rcases List.mem_append.mp hinst with hold | hnew
          · exact .inl hold
          · exact .inr (tick_diff h hclock.2 now.isLt (Option.mem_toList.mp hnew))
      · cases hstep

end Server

/-! ## At the client -/

namespace Complete

omit [ProstMessage HostMessage] in
/-- An instruction leaves the echo ack, or it is the one that brings another. -/
theorem applyInstruction_ack {c c' : Complete T} {inst : HostInstruction} {ack : Nat}
    (hack : ∀ num, inst.echoack.bind (·.echoAckNum) = some num → num = ack)
    (h : c.applyInstruction inst = .ok c') : c'.echoAck = c.echoAck ∨ c'.echoAck = ack := by
  unfold applyInstruction at h
  split at h
  · split at h
    · next bytes _ =>
        have hframe := (c.act_frame bytes).1
        split at h
        · next heq =>
            cases h
            rw [heq] at hframe
            exact .inl hframe
        · cases h
    · cases h
      exact .inl rfl
  · split at h
    · next resize _ =>
        have hframe := (c.resize_frame (clampSize (resize.width.getD 80))
          (clampSize (resize.height.getD 24))).1
        split at h
        · next heq =>
            cases h
            rw [heq] at hframe
            exact .inl hframe
        · cases h
    · split at h
      · next num hnum =>
          cases h
          obtain rfl := hack num hnum
          rcases Nat.le_total c.echoAck num with hle | hle
          · exact .inr (Nat.max_eq_right hle)
          · exact .inl (Nat.max_eq_left hle)
      · cases h
        exact .inl rfl

omit [ProstMessage HostMessage] in
theorem applyInstructions_ack {c c' : Complete T} {insts : List HostInstruction} {ack : Nat}
    (hack : ∀ inst ∈ insts, ∀ num, inst.echoack.bind (·.echoAckNum) = some num → num = ack)
    (h : insts.foldlM applyInstruction c = .ok c') : c'.echoAck = c.echoAck ∨ c'.echoAck = ack := by
  induction insts generalizing c with
  | nil =>
      cases h
      exact .inl rfl
  | cons inst insts ih =>
      obtain ⟨hfirst, hrest⟩ := List.forall_mem_cons.mp hack
      rw [List.foldlM_cons] at h
      cases hinst : c.applyInstruction inst with
      | error e =>
          rw [hinst] at h
          cases h
      | ok c₁ =>
          rw [hinst] at h
          rcases ih hrest h with hkept | hbrought
          · rw [hkept]
            exact applyInstruction_ack hfirst hinst
          · exact .inr hbrought

omit [Emulator T] [ProstMessage HostMessage] in
/-- The echo ack a diff brings is that of the state it was made of. The message
begins with it if it differs; the instructions behind it bring a size and output,
and no ack. -/
theorem diffMessage_ack {a c : Complete T} {inst : HostInstruction} {num : Nat}
    (hinst : inst ∈ (diffMessage c a).instruction)
    (hnum : inst.echoack.bind (·.echoAckNum) = some num) : num = c.echoAck := by
  unfold diffMessage at hinst
  rcases List.mem_append.mp hinst with hecho | hscreen
  · split at hecho
    · rw [List.mem_singleton.mp hecho] at hnum
      exact (Option.some.inj hnum).symm
    · cases hecho
  · -- a size and output bring none
    have hnone : inst.echoack = none := by
      split at hscreen
      · rcases List.mem_append.mp hscreen with hsize | houtput
        · split at hsize
          · rw [List.mem_singleton.mp hsize]
          · cases hsize
        · split at houtput
          · rw [List.mem_singleton.mp houtput]
          · cases houtput
      · cases hscreen
    rw [hnone] at hnum
    cases hnum

theorem applyString_ack {a b c s : Complete T} (h : applyString b (diffFrom c a) = .ok s) :
    s.echoAck = b.echoAck ∨ s.echoAck = c.echoAck := by
  have happly : decodeAndApply b (ProstMessage.encode (diffMessage c a)) = .ok s := h
  rw [decodeAndApply, ProstMessage.decode_encode] at happly
  exact applyInstructions_ack (fun inst hinst num hnum => diffMessage_ack hinst hnum) happly

theorem adoptFrom_ack (c : Complete T) :
    (adoptFrom (clone c) c).1.echoAck = c.echoAck ∧
      (adoptFrom (clone c) c).2.echoAck = c.echoAck := by
  have hadopt : adoptFrom (clone c) c
      = ({ cloneState c with terminal := c.terminal }, { c with terminal := none }) :=
    if_pos ⟨rfl, rfl⟩
  rw [hadopt]
  exact ⟨rfl, rfl⟩

end Complete

theorem History.lend_ack {h : History (Complete T)} {i num : Nat} {Q : Nat → Prop}
    (hheld : ∀ e ∈ h.entries, Q e.state.echoAck) (hi : h.position num = some i) :
    Q (h.lend i).1.echoAck ∧ ∀ e ∈ (h.lend i).2.entries, Q e.state.echoAck := by
  obtain ⟨hmem, -, hlt⟩ := History.position_some hi
  obtain ⟨hcopy, hsource⟩ := Complete.adoptFrom_ack (h.get i).state
  refine ⟨hcopy ▸ hheld _ hmem, fun e he => ?_⟩
  rcases History.mem_setState hlt he with rfl | hold
  · exact hsource ▸ hheld _ hmem
  · exact hheld e hold

/-- What a receiver holds once it has been sent a diff of `c`. -/
theorem Received.acks {r : Receiver (Complete T)} {now oldNum newNum throwawayNum : Nat}
    {diff : Bytes} {h' : History (Complete T)} {outcome : Except String RecvOutcome}
    {Q : Nat → Prop} (h : Received r now oldNum newNum throwawayNum diff h' outcome)
    (hheld : ∀ e ∈ r.receivedStates.entries, Q e.state.echoAck)
    (hdiff : ∃ a c : Complete T, diff = diffFrom c a ∧ Q c.echoAck) :
    ∀ e ∈ h'.entries, Q e.state.echoAck := by
  obtain ⟨a, c, rfl, hc⟩ := hdiff
  have hcull : ∀ e ∈ (r.receivedStates.cull throwawayNum).entries, Q e.state.echoAck :=
    fun e he => hheld e (History.mem_cull.mp he).1
  cases h with
  | refused _ => exact hheld
  | culled _ _ _ => exact hcull
  | malformed i hi _ => exact (History.lend_ack hcull hi).2
  | filed _ i hi state happly _ _ hmem _ _ =>
      obtain ⟨hcopy, hlent⟩ := History.lend_ack hcull hi
      intro e he
      rcases (hmem e).mp he with rfl | hold
      · split at happly
        · cases happly
          exact hcopy
        · rcases Complete.applyString_ack happly with hkept | hbrought
          · exact hkept ▸ hcopy
          · exact hbrought ▸ hc
      · exact hlent e hold

end Morsh
