import Morsh.Lib.Groups
import Morsh.Proofs.StartupSize

/-!
# Keystrokes on their way to the child

Once the serve loop runs, what has been written to the pty is what the client
states processed since then hold, byte for byte and with one resize for every
run of them. The bytes of the first state went to `wait_for_client`, which
looks at its resizes only.

`feed` says what a list of events should do to the pty, with no state in it. The
loop of the server holds keys back until an event is no key, so `feedEvents_fed`
is about the keys pending and those to come. `Feeding` is the account of a run:
what has been fed is the concatenation of the diffs processed since the first
one, each fed for itself. Every step of the serve loop is either the processing
of a diff, which adds to both sides, or touches neither (`Steady`).

The record of the input direction turns this into a statement about keys: the
diffs handed out add up to the events of the newest state. The first of them was
handed to `wait_for_client` before there was a child, and the keys in it are not
written to it later.
-/

namespace Morsh

open State

/-- Writes and resizes, byte by byte. -/
def PtyAction.items : PtyAction → List (UInt8 ⊕ PtySize)
  | .write keys => keys.map .inl
  | .resize size => [.inr size]

def UserEvent.item : UserEvent → UInt8 ⊕ PtySize
  | .userByte byte => .inl byte
  | .resize width height => .inr (.ofResize width height)

/-- The keystrokes among events. -/
def UserEvent.keys (events : List UserEvent) : Bytes :=
  (events.map item).filterMap Sum.getLeft?

/-- What one processed diff should do to the pty: every byte, and of each run
of adjacent resizes the last. -/
def UserEvent.feed (events : List UserEvent) : List (UInt8 ⊕ PtySize) :=
  Groups.lasts (fun a b => a.isRight && b.isRight) (events.map item)

namespace UserEvent

@[simp] theorem feed_nil : feed [] = [] := rfl

theorem feed_userByte (byte : UInt8) (rest : List UserEvent) :
    feed (.userByte byte :: rest) = .inl byte :: feed rest := by
  cases rest with
  | nil => rfl
  | cons e rest => exact Groups.lasts_cons_of_false rfl

theorem feed_resize_resize (width height w h : Int32) (rest : List UserEvent) :
    feed (.resize width height :: .resize w h :: rest) = feed (.resize w h :: rest) :=
  Groups.lasts_cons_of_true rfl

theorem feed_resize {rest : List UserEvent} (width height : Int32)
    (hrest : ∀ w h more, rest ≠ .resize w h :: more) :
    feed (.resize width height :: rest) = .inr (.ofResize width height) :: feed rest := by
  cases rest with
  | nil => rfl
  | cons e rest =>
      cases e with
      | userByte byte => exact Groups.lasts_cons_of_false rfl
      | resize w h => exact absurd rfl (hrest w h rest)

end UserEvent

theorem Pty.step_actions {p p' : Pty} {op : PtyOp} (h : p.step op = some p') :
    p'.actions = p.actions := by
  cases op <;> simp only [Pty.step] at h
  case childExit => cases h; rfl
  case send =>
    split at h
    · cases h
    · split at h <;> cases h
      rfl
  all_goals
    split at h <;> cases h
    rfl

namespace Server

variable {T : Type} [Emulator T] [ProstMessage HostMessage] [ProstMessage UserMessage]

/-- What has been done to the pty, byte by byte. -/
def fed (s : Server T) : List (UInt8 ⊕ PtySize) := s.pty.actions.flatMap PtyAction.items

variable {s s' : Server T}

omit [Emulator T] [ProstMessage HostMessage] [ProstMessage UserMessage] in
theorem writeKeys_fed (keys : Bytes) : (s.writeKeys keys).fed = s.fed ++ keys.map .inl := by
  unfold writeKeys
  split
  · next h => rw [h, List.map_nil, List.append_nil]
  · simp [fed, PtyAction.items]

omit [ProstMessage HostMessage] [ProstMessage UserMessage] in
theorem applyResize_fed (width height : Int32) :
    (s.applyResize width height).fed = s.fed ++ [.inr (.ofResize width height)] := by
  unfold applyResize
  simp only []
  split <;> simp [fed, edit, PtyAction.items]

omit [ProstMessage HostMessage] [ProstMessage UserMessage] in
/-- The loop over the events of a diff, up to the keys it leaves pending. Keys are
gathered until a resize comes, so what is fed, and then the pending keys, is in
the order typed; of resizes in a row only the last is applied. -/
theorem feedEvents_fed (keys : Bytes) (events : List UserEvent) :
    (s.feedEvents keys events).1.fed ++ (s.feedEvents keys events).2.map .inl
      = s.fed ++ keys.map .inl ++ UserEvent.feed events := by
  fun_induction feedEvents s keys events with
  | case1 s keys => simp
  | case2 s keys byte rest ih => rw [ih, UserEvent.feed_userByte]; simp
  | case3 s keys width height w h rest ih => rw [ih, UserEvent.feed_resize_resize]
  | case4 s keys width height rest hrest ih =>
      rw [ih, applyResize_fed, writeKeys_fed, UserEvent.feed_resize width height ?_]
      · simp
      · exact fun w h more heq => hrest w h more heq

/-- What the serve loop goes by stays as it is. -/
structure Steady (s s' : Server T) : Prop where
  handed : s'.endpoint.handed = s.endpoint.handed
  lastRemoteNum : s'.lastRemoteNum = s.lastRemoteNum
  ptySize : s'.ptySize = s.ptySize

omit [Emulator T] [ProstMessage HostMessage] [ProstMessage UserMessage] in
theorem Steady.refl (s : Server T) : Steady s s := ⟨rfl, rfl, rfl⟩

omit [Emulator T] [ProstMessage HostMessage] [ProstMessage UserMessage] in
theorem Steady.trans {s'' : Server T} (h : Steady s s') (h' : Steady s' s'') : Steady s s'' :=
  ⟨h'.handed.trans h.handed, h'.lastRemoteNum.trans h.lastRemoteNum, h'.ptySize.trans h.ptySize⟩

omit [Emulator T] [ProstMessage HostMessage] [ProstMessage UserMessage] in
theorem writeKeys_steady (keys : Bytes) : Steady s (s.writeKeys keys) := by
  unfold writeKeys
  split <;> exact ⟨rfl, rfl, rfl⟩

omit [ProstMessage HostMessage] [ProstMessage UserMessage] in
theorem feedEvents_steady (keys : Bytes) (events : List UserEvent) :
    Steady s (s.feedEvents keys events).1 := by
  fun_induction feedEvents s keys events with
  | case1 s keys => exact .refl s
  | case2 s keys byte rest ih => exact ih
  | case3 s keys width height w h rest ih => exact ih
  | case4 s keys width height rest hrest ih =>
      refine (writeKeys_steady keys).trans (Steady.trans ?_ ih)
      unfold applyResize
      simp only []
      split <;> exact ⟨rfl, rfl, rfl⟩

omit [ProstMessage HostMessage] in
/-- A processed diff is fed to the pty and becomes the newest one. -/
theorem handleClientInput_fed {events : List UserEvent} (now : Nat)
    (hnew : s.endpoint.transport.getRemoteStateNum ≠ s.lastRemoteNum)
    (hevents : UserStream.eventsOf s.endpoint.getRemoteDiff.2 = .ok events) :
    (s.handleClientInput now).fed = s.fed ++ UserEvent.feed events ∧
      (s.handleClientInput now).endpoint.handed
        = s.endpoint.handed ++ [s.endpoint.getRemoteDiff.2] ∧
      (s.handleClientInput now).lastRemoteNum = s.endpoint.transport.getRemoteStateNum ∧
      (s.handleClientInput now).ptySize = s.ptySize := by
  let s₁ : Server T := { s with
    endpoint := s.endpoint.getRemoteDiff.1
    lastRemoteNum := s.endpoint.transport.getRemoteStateNum }
  have hsteady := (feedEvents_steady (s := s₁) [] events).trans
    (writeKeys_steady (s₁.feedEvents [] events).2)
  have hfed := (writeKeys_fed (s := (s₁.feedEvents [] events).1)
    (s₁.feedEvents [] events).2).trans (feedEvents_fed (s := s₁) [] events)
  rw [List.map_nil, List.append_nil] at hfed
  unfold handleClientInput
  simp only [if_neg hnew, hevents]
  split <;> exact ⟨hfed, hsteady.handed, hsteady.lastRemoteNum, hsteady.ptySize⟩

omit [ProstMessage HostMessage] in
theorem takeBranch_steady {now : Nat} {branch : Branch} (h : s.takeBranch now branch = some s') :
    Steady s s' ∧ s'.fed = s.fed := by
  cases branch with
  | ptyEvent =>
      simp only [takeBranch] at h
      split at h
      · cases h
      · next event rest hrx =>
          cases h
          cases event with
          | output data =>
              simp only [handlePtyEvent]
              split <;> exact ⟨⟨rfl, rfl, rfl⟩, rfl⟩
          | exited status => exact ⟨⟨rfl, rfl, rfl⟩, rfl⟩
  | recv fresh incoming =>
      cases h
      exact ⟨⟨rfl, rfl, rfl⟩, rfl⟩
  | sleep =>
      cases h
      exact ⟨.refl s, rfl⟩

omit [ProstMessage HostMessage] [ProstMessage UserMessage] in
theorem housekeep_steady (now : Nat) :
    Steady s (s.housekeep now).1 ∧ (s.housekeep now).1.fed = s.fed := by
  unfold housekeep tryWait
  split <;> (simp only []; split) <;> exact ⟨⟨rfl, rfl, rfl⟩, rfl⟩

omit [ProstMessage HostMessage] in
/-- The serve loop starts from the number `wait_for_client` stopped at. -/
theorem connect_serving (hserving : s.connect.phase = .select) :
    s.connect.endpoint.handed = s.endpoint.handed ++ [s.endpoint.getRemoteDiff.2] ∧
      s.connect.pty = s.pty ∧
      s.connect.lastRemoteNum = s.endpoint.transport.getRemoteStateNum := by
  revert hserving
  unfold connect
  simp only []
  split
  · intro h
    cases h
  · intro _
    exact ⟨rfl, rfl, Receiver.getRemoteDiff_num⟩

/-- No other step of the serve loop touches the pty. -/
theorem step_steady {op : ServerOp} (hserving : s.phase ≠ .waiting)
    (hop : ∀ now, op ≠ .input now) (hstep : s.step op = some s') :
    Steady s s' ∧ s'.fed = s.fed ∧ s'.phase ≠ .waiting := by
  cases op with
  | pty ptyOp =>
      simp only [step] at hstep
      split at hstep
      · cases hstep
      · obtain ⟨p, hp, rfl⟩ := Option.map_eq_some_iff.mp hstep
        exact ⟨⟨rfl, rfl, rfl⟩, congrArg (List.flatMap _) (Pty.step_actions hp), hserving⟩
  | await now fresh datagram =>
      simp only [step] at hstep
      split at hstep
      · next hphase => exact absurd hphase.1 hserving
      · cases hstep
  | giveUp =>
      simp only [step] at hstep
      split at hstep
      · next hphase => exact absurd hphase hserving
      · cases hstep
  | connect =>
      simp only [step] at hstep
      split at hstep
      · next hphase => exact absurd hphase.1 hserving
      · cases hstep
  | select now timeout srttMs branch =>
      simp only [step] at hstep
      split at hstep
      · obtain ⟨s₁, hbranch, rfl⟩ := Option.map_eq_some_iff.mp hstep
        obtain ⟨⟨hhanded, hnum, hsize⟩, hfed⟩ := takeBranch_steady hbranch
        exact ⟨⟨hhanded, hnum, hsize⟩, hfed, by simp⟩
      · cases hstep
  | input now => exact absurd rfl (hop now)
  | housekeeping now =>
      simp only [step] at hstep
      split at hstep
      · cases hstep
        obtain ⟨⟨hhanded, hnum, hsize⟩, hfed⟩ := housekeep_steady (s := s) now
        refine ⟨⟨hhanded, hnum, hsize⟩, hfed, ?_⟩
        simp only []
        split <;> simp
      · cases hstep
  | tick now timeout srttMs chaff =>
      simp only [step] at hstep
      split at hstep
      · cases hstep
        exact ⟨⟨rfl, rfl, rfl⟩, rfl, by simp⟩
      · cases hstep

end Server

namespace World

variable {T : Type} [Emulator T] [ProstMessage HostMessage] [ProstMessage UserMessage]

/-- What has been fed to the child since `wait_for_client` took the diff
`first`. -/
def Processed (first : List UserEvent) (uses : List (Use UserEvent UserStream)) (s : Server T) :
    Prop :=
  ∃ diffs u, s.endpoint.handed.mapM UserStream.eventsOf = .ok (first :: diffs) ∧
    useOf uses s.lastRemoteNum = some u ∧ u.edits = first ++ diffs.flatten ∧
    s.fed = diffs.flatMap UserEvent.feed

structure Feeding (first : List UserEvent) (w : World T) : Prop where
  serving : w.server.phase ≠ .waiting
  processed : Processed first w.client.uses w.server

omit [ProstMessage HostMessage] in
theorem Feeding.handleClientInput {first : List UserEvent} {init : UserStream} {w : World T}
    (h : Feeding first w) (hinput : Input init w) (now : Nat) :
    Processed first w.client.uses (w.server.handleClientInput now) := by
  obtain ⟨diffs, u, hhanded, hu, hedits, hfed⟩ := h.processed
  by_cases hnew : w.server.endpoint.transport.getRemoteStateNum = w.server.lastRemoteNum
  · have hsame : w.server.handleClientInput now = w.server := by
      rw [Server.handleClientInput, if_pos hnew]
    rw [hsame]
    exact h.processed
  · -- the whole stream up to the newest number, less what was handed out before
    obtain ⟨v, hv, ⟨lists, hlists, hval⟩, -⟩ := Traced.getRemoteDiff hinput.directed
    rw [List.mapM_append, hhanded, List.mapM_cons] at hlists
    cases hevents : UserStream.eventsOf w.server.endpoint.getRemoteDiff.2 with
    | error e =>
        have herror : UserStream.eventsOf
            w.server.endpoint.transport.receiver.getRemoteDiff.2 = .error e := hevents
        rw [herror] at hlists
        cases hlists
    | ok events =>
        have hok : UserStream.eventsOf
            w.server.endpoint.transport.receiver.getRemoteDiff.2 = .ok events := hevents
        rw [hok] at hlists
        have hall : lists = (first :: diffs) ++ [events] := (Except.ok.inj hlists).symm
        obtain ⟨hfed', hhanded', hnum, -⟩ := Server.handleClientInput_fed now hnew hevents
        refine ⟨diffs ++ [events], v, ?_, hnum ▸ hv, ?_, ?_⟩
        · rw [hhanded', List.mapM_append, hhanded, List.mapM_cons, hevents]
          rfl
        · have hflat : lists.flatten = v.edits := List.append_cancel_left hval
          rw [← hflat, hall]
          simp
        · rw [hfed', hfed, List.flatMap_append, List.flatMap_singleton]


/-- Every step keeps the account of what has been fed. Only `input` feeds the pty,
and then with the diff of the state that has just become the newest. -/
theorem Feeding.step {first : List UserEvent} {init : UserStream} {w w' : World T} {op : WorldOp}
    (h : Feeding first w) (hinput : Input init w) (hstep : w.step op = some w') :
    Feeding first w' := by
  obtain ⟨diffs, u, hhanded, hu, hedits, hfed⟩ := h.processed
  cases op with
  | client op =>
      obtain ⟨hstepped, hsame⟩ := step_client hstep
      exact ⟨hsame ▸ h.serving, diffs, u, hsame ▸ hhanded, hsame ▸ hstepped.useOf_eq hu, hedits,
        hsame ▸ hfed⟩
  | server op =>
      obtain ⟨-, hserver, hsame⟩ := step_server hstep
      by_cases hop : ∃ now, op = .input now
      · obtain ⟨now, rfl⟩ := hop
        simp only [Server.step] at hserver
        split at hserver
        · obtain ⟨diffs', v, hhanded', hv, hedits', hfed'⟩ := h.handleClientInput hinput now
          have hs := Option.some.inj hserver
          refine ⟨by rw [← hs]; simp, ?_⟩
          rw [hsame, ← hs]
          exact ⟨diffs', v, hhanded', hv, hedits', hfed'⟩
        · cases hserver
      · obtain ⟨⟨hhanded', hnum, -⟩, hfed', hphase⟩ :=
          Server.step_steady h.serving (fun now heq => hop ⟨now, heq⟩) hserver
        exact ⟨hphase, diffs, u, hhanded' ▸ hhanded, by rw [hsame, hnum]; exact hu, hedits,
          hfed'.trans hfed⟩

/-- The serve loop starts with nothing fed and the first diff handed out. -/
theorem Input.feeding {init : UserStream} {w w' : World T} (h : Input init w)
    (hconnect : w.step (.server .connect) = some w') (hserving : w'.server.phase = .select) :
    ∃ u, useOf w.client.uses w.server.endpoint.transport.getRemoteStateNum = some u ∧
      w'.server.ptySize = some (Server.sizeAfter .initial u.edits) ∧ Feeding u.edits w' := by
  obtain ⟨-, hserver, hsame⟩ := step_server hconnect
  obtain ⟨u, hu, hsize⟩ := h.connect_size hconnect
  refine ⟨u, hu, hsize, by rw [hserving]; decide, ?_⟩
  simp only [Server.step] at hserver
  split at hserver
  · next hphase =>
      have hs := Option.some.inj hserver
      obtain ⟨v, hv, hevents⟩ := h.first_events hphase.1
      obtain rfl : v = u := Option.some.inj (hv.symm.trans hu)
      rw [← hs] at hserving
      obtain ⟨hhanded, hpty, hnum⟩ := Server.connect_serving hserving
      rw [hsame, ← hs]
      refine ⟨[], v, ?_, hnum ▸ hv, (List.append_nil _).symm, ?_⟩
      · rw [hhanded, h.waited.handed hphase.1, List.nil_append, List.mapM_cons, hevents]
        rfl
      · rw [Server.fed, hpty, h.waited.pty hphase.1]
        rfl
  · cases hserver

end World

/-! ## A key typed before and after the connection -/

namespace World

open VtTerminal

/-- A client instruction, from state 0. -/
def packet (newNum : Nat) (diff : Bytes) : Instruction :=
  ⟨some MORSH_PROTOCOL_VERSION, some 0, some newNum, some 0, some 0, some diff, some []⟩

/-- The server hears of an empty state first. -/
def greetedFirst : Option (World VtTerminal) :=
  Run.run step (start (0 : Reading) (0 : Reading) 100 30 (opened 100 30) (opened 80 24))
    [.client (.tick 0 1000 250 []), .server (.await 0 true (.ok (some (packet 1 []))))]

def serving : Option (World VtTerminal) :=
  (greetedFirst.get (by decide +kernel)).step (.server .connect)

end World

end Morsh
