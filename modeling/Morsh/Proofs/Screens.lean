import Morsh.Proofs.Convergence
import Morsh.Proofs.EndToEnd
import Morsh.Proofs.Final
import Morsh.Proofs.Parting

/-!
# Screens in order

The other direction of a session carries screens. What the client holds as the
server's screen is one the server had, and as the run goes on it is a later one
or the same: whatever is lost, repeated or reordered, the user's screen never
goes back in time.

The order is one of numbers. The sender first uses a greater number after more
edits (`UsesInOrder`), because a tick announces a number above all others or one
in use; a number keeps its first use; and the newest number a receiver has heard
of never falls. So whatever the states are, what a client holds as newest was
first sent for a state the server had, and later for that or a later one. Over
the network this is carried by the refinement, taken at both points of one run.

Whether the state held equals the one that was sent is a matter of the states.
For those with the laws of `LawfulState` it does, and then one exchange that gets
through leaves the peer with the state as it is.
-/

namespace Morsh

open State

variable {M R E F V : Type} [State M] [State R]

/-! ## The order of first uses -/

/-- Later numbers were first used after more edits. -/
def UsesInOrder (uses : List (Use E M)) : Prop :=
  ∀ ⦃a b u v⦄, useOf uses a = some u → useOf uses b = some v → a ≤ b → u.edits <+: v.edits

omit [State M] in
theorem UsesInOrder.single {init : M} : UsesInOrder [(⟨0, [], init⟩ : Use E M)] := by
  intro a b u v ha _ _
  rw [List.mem_singleton.mp (List.mem_of_find?_eq_some ha)]
  exact List.nil_prefix

omit [State M] in
/-- A number above all others, first used after all their edits. A number that is
in use keeps its first use; one that is new is the greatest, so none comes after
it. -/
theorem UsesInOrder.note {uses : List (Use E M)} {u : Use E M} (h : UsesInOrder uses)
    (hedits : ∀ b v, useOf uses b = some v → v.edits <+: u.edits)
    (habove : ∀ b v, useOf uses b = some v → b ≤ u.num) : UsesInOrder (note uses u) := by
  intro a b v w ha hb hab
  rw [useOf_note] at ha hb
  split at ha
  · next hold =>
      cases ha
      split at hb
      · next hold' =>
          cases hb
          exact h hold hold' hab
      · split at hb
        · cases hb
          exact hedits a v hold
        · cases hb
  · next hnew =>
      split at ha
      · next hnum =>
          cases ha
          split at hb
          · next hold' =>
              -- a number in use cannot be above the new one
              have hle := habove b _ hold'
              rw [show a = b by omega, hold'] at hnew
              cases hnew
          · split at hb
            · cases hb
              exact List.prefix_rfl
            · cases hb
      · cases ha

variable {A : Account M E V} {x x' : Endpoint M R E} {y : Endpoint R M F}

theorem Directed.inOrder {incoming : List Instruction} (h : Directed A x y)
    (horder : UsesInOrder x.uses) (hstep : x.Stepped A.act incoming x') : UsesInOrder x'.uses := by
  cases hstep with
  | tick now timeout srttMs remote chaff connection hnow hrange =>
      obtain ⟨got, -, hlinked⟩ := h.linked
      simp only [noteSent]
      rcases hlinked.tick hnow hrange timeout srttMs remote chaff with
        ⟨hnone, -⟩ | ⟨inst, k, hsome, hnum, hval, hlast, hl⟩
      · simp only [hnone, Option.bind_none]
        exact horder
      · simp only [hsome, Option.bind_some, hnum]
        refine horder.note (fun b v hb => (h.recorded v (List.mem_of_find?_eq_some hb)).1)
          fun b v hb => ?_
        have hvalue : A.vals x.uses b = some (A.val v.edits) := congrArg (Option.map _) hb
        exact Nat.le_trans (hl.sender.used (extends_update hval b _ hvalue))
          (Nat.le_of_eq hlast)
  | _ => exact horder

/-! ## What the client shows -/

/-- The edits of the right end after which it first sent the state the left end
holds as its newest. -/
def Session.shown (s : Session M R E F) : Option (List F) :=
  (useOf s.right.uses s.left.received.last.num).map (·.edits)

section Shown

variable {W : Type} {B : Account R F W}

/-- What a session keeps from `m` on: the records of both directions, the uses
there were, and the newest number heard of. -/
structure Onward (A : Account M E V) (B : Account R F W) (m s : Session M R E F) : Prop where
  input : Tracked A s.left s.right
  screen : Tracked B s.right s.left
  order : UsesInOrder s.right.uses
  uses : ∀ n u, useOf m.right.uses n = some u → useOf s.right.uses n = some u
  newest : m.left.received.last.num ≤ s.left.received.last.num

namespace Onward

variable {m s s' : Session M R E F}

theorem step {op : SessionOp E F} (h : Onward A B m s) (hstep : s.step A.act B.act op = some s') :
    Onward A B m s' := by
  cases op with
  | left op =>
      obtain ⟨x, hx, rfl⟩ := Option.map_eq_some_iff.mp hstep
      exact ⟨h.input.sender_step hx, h.screen.receiver_step h.input.floored.inv hx, h.order, h.uses,
        Nat.le_trans h.newest
          ((Endpoint.step_cases hx).remoteNum_le h.screen.floored.sorted)⟩
  | right op =>
      obtain ⟨y, hy, rfl⟩ := Option.map_eq_some_iff.mp hstep
      have hstepped := Endpoint.step_cases hy
      exact ⟨h.input.receiver_step h.screen.floored.inv hy, h.screen.sender_step hy,
        h.screen.directed.inOrder h.order hstepped,
        fun n u hu => hstepped.useOf_eq (h.uses n u hu), h.newest⟩

theorem run {ops : List (SessionOp E F)} (hinput : Tracked A m.left m.right)
    (hscreen : Tracked B m.right m.left) (horder : UsesInOrder m.right.uses)
    (hrun : Run.run (Session.step A.act B.act) m ops = some s) : Onward A B m s :=
  Run.run_invariant (I := Onward A B m) (fun _ _ _ h hstep => h.step hstep)
    ⟨hinput, hscreen, horder, fun _ _ hu => hu, Nat.le_refl _⟩ hrun

theorem shown_genuine (h : Onward A B m s) :
    ∃ es, s.shown = some es ∧ es <+: s.right.edits := by
  obtain ⟨got, -, hlinked⟩ := h.screen.directed.linked
  obtain ⟨g, hassign, -⟩ := hlinked.receiver.states
  obtain ⟨v, hv, -⟩ := hassign _ s.left.transport.receiver.receivedStates.last_mem
  obtain ⟨u, hu, -⟩ := Option.map_eq_some_iff.mp hv
  have hshown : s.shown = some u.edits := congrArg (Option.map _) hu
  exact ⟨u.edits, hshown,
    (h.screen.directed.recorded u (List.mem_of_find?_eq_some hu)).1⟩

theorem shown_grows {es es' : List F} (h : Onward A B m s) (hm : m.shown = some es)
    (hs : s.shown = some es') : es <+: es' := by
  obtain ⟨u, hu, rfl⟩ := Option.map_eq_some_iff.mp hm
  obtain ⟨v, hv, rfl⟩ := Option.map_eq_some_iff.mp hs
  exact h.order (h.uses _ u hu) hv h.newest

end Onward

/-- Two points of a run: what is shown at each was sent, and at the second it is
the same as at the first or later. -/
theorem Session.shown_in_order {start m s : Session M R E F} (hfirst : Onward A B start m)
    {ops : List (SessionOp E F)} (hrun : Run.run (Session.step A.act B.act) m ops = some s) :
    ∃ es es', m.shown = some es ∧ s.shown = some es' ∧ es <+: es' ∧ es' <+: s.right.edits := by
  have hlater := Onward.run hfirst.input hfirst.screen hfirst.order hrun
  obtain ⟨es, hes, -⟩ := hfirst.shown_genuine
  obtain ⟨es', hes', hedits⟩ := hlater.shown_genuine
  exact ⟨es, es', hes, hes', hlater.shown_grows hes hes', hedits⟩

/-- For any states: the numbers the left end goes through name states of the
right end in their order. -/
theorem Session.numbers_in_order {act : M → E → M} {act' : R → F → R} {now remoteNow : Reading}
    {attached remoteAttached : Bool} {heard remoteHeard : Nat} {init peerInit : M}
    {remoteInit remotePeerInit : R} {before after : List (SessionOp E F)} {m s : Session M R E F}
    (hm : Run.run (Session.step act act')
      ⟨.start now ⟨attached, heard, 0⟩ init remotePeerInit,
        .start remoteNow ⟨remoteAttached, remoteHeard, 0⟩ remoteInit peerInit⟩ before = some m)
    (hs : Run.run (Session.step act act') m after = some s) :
    ∃ es es', m.shown = some es ∧ s.shown = some es' ∧ es <+: es' ∧ es' <+: s.right.edits := by
  obtain ⟨hinput, hscreen⟩ := @Session.run_tracked _ _ _ _ _ _ _ _ (Account.trivial act)
    (Account.trivial act') _ _ now.isLt remoteNow.isLt ⟨attached, heard, 0⟩
    ⟨remoteAttached, remoteHeard, 0⟩ rfl rfl init peerInit remoteInit remotePeerInit () () () ()
    trivial trivial trivial trivial trivial trivial [] _ rfl
  exact Session.shown_in_order (A := Account.trivial act) (B := Account.trivial act')
    (Onward.run hinput hscreen .single hm) hs

variable {S : Type} [State S] [LawfulState S] {hpre : hasPrefix S = false} {init : S}

omit [State M] in
/-- What is held under a number is equal to what was sent under it. -/
theorem Session.shown_equal {s : Session M S E S}
    (h : Tracked (LawfulState.account hpre init) s.right s.left) {es : List S}
    (hshown : s.shown = some es) :
    stateEqual s.left.received.last.state (es.getLastD init) = true := by
  obtain ⟨got, -, hlinked⟩ := h.directed.linked
  obtain ⟨g, hassign, -⟩ := hlinked.receiver.states
  obtain ⟨v, hv, hrep⟩ := hassign _ s.left.transport.receiver.receivedStates.last_mem
  obtain ⟨u, hu, rfl⟩ := Option.map_eq_some_iff.mp hv
  have hsame : s.shown = some u.edits := congrArg (Option.map _) hu
  obtain rfl := Option.some.inj (hshown.symm.trans hsame)
  exact Quotient.exact hrep

/-- All along a run, what the left end holds as its newest is equal to the state
its number was first sent for. -/
theorem Session.held_equal {act : M → E → M} (hpre : hasPrefix S = false)
    {now remoteNow : Reading} {attached remoteAttached : Bool} {heard remoteHeard : Nat}
    {init peerInit : M} {remoteInit remotePeerInit : S}
    (hremote : stateEqual remoteInit remotePeerInit = true) {ops : List (SessionOp E S)}
    {s : Session M S E S}
    (hrun : Run.run (Session.step act fun _ e => e)
      ⟨.start now ⟨attached, heard, 0⟩ init remotePeerInit,
        .start remoteNow ⟨remoteAttached, remoteHeard, 0⟩ remoteInit peerInit⟩ ops = some s)
    {es : List S} (hshown : s.shown = some es) :
    stateEqual s.left.received.last.state (es.getLastD remoteInit) = true := by
  obtain ⟨-, hscreen⟩ := @Session.run_tracked _ _ _ _ _ _ _ _ (Account.trivial act)
    (LawfulState.account hpre remoteInit) _ _ now.isLt remoteNow.isLt ⟨attached, heard, 0⟩
    ⟨remoteAttached, remoteHeard, 0⟩ rfl rfl init peerInit remoteInit remotePeerInit () () () ()
    trivial trivial trivial rfl (Quotient.sound (LawfulState.equal_symm hremote)) trivial _ _ hrun
  exact Session.shown_equal hscreen hshown

/-- From any state a session can reach, however many screens have been lost, one
exchange that gets through is enough: the peer has the screen as it is, and it is
known to. -/
theorem one_exchange_repaints [Decodes S] (hpre : hasPrefix S = false) (act : R → F → R)
    (now remoteNow : Reading) (connection remoteConnection : Connection) (init peerInit : S)
    (hpeer : stateEqual init peerInit = true) (remoteInit remotePeerInit : R)
    (ops : List (SessionOp S F)) (s : Session S R S F)
    (hrun : Run.run (Session.step (fun _ e => e) act)
      ⟨.start now connection init remotePeerInit,
        .start remoteNow remoteConnection remoteInit peerInit⟩ ops = some s)
    (round : Round) (htimely : round.Timely s) :
    ∃ s', Run.run (Session.step (fun _ e => e) act) s (round.ops s) = some s' ∧
      stateEqual s'.right.received.last.state (s.left.edits.getLastD init) = true ∧
      stateEqual s'.right.received.last.state s'.left.transport.sender.currentState = true ∧
      s'.left.floor = s'.left.transport.sender.sentStates.last.num := by
  have hkept := Session.run_kept (A := LawfulState.account hpre init) now.isLt remoteNow.isLt
    (f := ()) (g := ()) rfl (Quotient.sound (LawfulState.equal_symm hpeer)) trivial hrun
  obtain ⟨s', hrun', hkept', hedits, -, hfloor, hnewest, hvalue⟩ :=
    Round.synchronizes hkept htimely
  obtain ⟨got, -, hlinked⟩ := hkept'.directed.linked
  obtain ⟨f, hcur, -⟩ := hlinked.sender.states
  obtain ⟨g, hassign, -⟩ := hlinked.receiver.states
  obtain ⟨v, hv, hrep⟩ := hassign _ s'.right.transport.receiver.receivedStates.last_mem
  have hnum : s'.right.transport.receiver.receivedStates.last.num = s'.left.floor := hnewest
  rw [hnum] at hv
  obtain rfl := Option.some.inj (hv.symm.trans hvalue)
  rw [hedits] at hcur
  exact ⟨s', hrun', Quotient.exact hrep, Quotient.exact (hrep.trans hcur.symm), hfloor⟩

end Shown

section Catching

instance : Decodes Register where
  applies a b c := by
    change ∃ s, applyString b (if c = a then [] else [c.value]) = .ok s
    split
    · exact ⟨b, rfl⟩
    · exact ⟨c, rfl⟩

/-- Two screens, each sent once, and nothing arrives. -/
def lostScreens : Option (Session Register UserStream Register UserEvent) :=
  Run.run (Session.step (fun _ e => e) UserStream.push)
    ⟨.start (0 : Reading) ⟨true, 0, 0⟩ ⟨0⟩ .new, .start (0 : Reading) ⟨false, 0, 0⟩ .new ⟨0⟩⟩
    [.left (.edit ⟨7⟩), .left (.tick 0 1000 250 []), .left (.edit ⟨9⟩),
      .left (.waitTime 10000000 1000 250), .left (.tick 1000000000 1000 250 [])]

theorem lateRound_timely_screens : lateRound.Timely (lostScreens.get (by decide +kernel)) where
  attached := by decide +kernel
  answerable := by decide +kernel
  sent := by decide +kernel
  quiet := by decide +kernel
  aged := by decide +kernel
  unquenched := by decide +kernel
  replied := by decide +kernel
  replyQuiet := by decide +kernel

theorem one_exchange_repaints_lost :
    ∃ s s', lostScreens = some s ∧ s.left.sent.length = 2 ∧ s.right.processed = [] ∧
      Run.run (Session.step (fun _ e => e) UserStream.push) s (lateRound.ops s) = some s' ∧
      stateEqual s'.right.received.last.state (s.left.edits.getLastD ⟨0⟩) = true := by
  obtain ⟨s', hrun, hshown, -⟩ := one_exchange_repaints (S := Register) rfl UserStream.push 0 0
    ⟨true, 0, 0⟩ ⟨false, 0, 0⟩ ⟨0⟩ ⟨0⟩ (by decide) .new .new _ _ (Option.some_get _).symm lateRound
    lateRound_timely_screens
  exact ⟨_, s', (Option.some_get _).symm, by decide +kernel, by decide +kernel, hrun, hshown⟩

end Catching

/-! ## Over the network -/

namespace Stack

variable {Cipher Addr F : Type} [Crypto.Ocb3 Cipher]

section Runs

variable [Zlib] [ProstMessage Instruction]

theorem run_sent {actClient : M → E → M} {actServer : R → F → R}
    {m s : Stack Cipher Addr M R E F} {ops : List (StackOp Addr E F)}
    (hrun : Run.run (Stack.step actClient actServer) m ops = some s) :
    m.client.sent <+: s.client.sent ∧ m.server.sent <+: s.server.sent := by
  refine Run.run_invariant (I := fun s : Stack Cipher Addr M R E F =>
    m.client.sent <+: s.client.sent ∧ m.server.sent <+: s.server.sent)
    (fun s op s' h hstep => ?_) ⟨List.prefix_rfl, List.prefix_rfl⟩ hrun
  cases op with
  | client op =>
      obtain ⟨x, hx, rfl⟩ := Option.map_eq_some_iff.mp hstep
      exact ⟨h.1.trans (Peer.step_cases hx).2.kept.1, h.2⟩
  | server op =>
      obtain ⟨y, hy, rfl⟩ := Option.map_eq_some_iff.mp hstep
      exact ⟨h.1, h.2.trans (Peer.step_cases hy).2.kept.1⟩

section Screens

variable [Crypto.LawfulOcb3 Cipher] [ProstMessage UserMessage] {S : Type} [State S] [EqualDiffs S]

/-- A run of the stack in two parts is a run of the session in two parts. What has
been sent only grows, so the bound at the end of the run holds in the middle. -/
theorem run_session_split (hpre : hasPrefix S = false) {act : S → F → S} {key : Bytes}
    {clientSocket serverSocket serverAddr : Addr} {now serverNow : Reading}
    {init peerInit : UserStream} {remoteInit remotePeerInit : S}
    {before after : List (StackOp Addr UserEvent F)}
    {m s : Stack Cipher Addr UserStream S UserEvent F}
    (hm : Run.run (Stack.step UserStream.push act)
      (.start key clientSocket serverSocket serverAddr now serverNow init peerInit remoteInit
        remotePeerInit) before = some m)
    (hs : Run.run (Stack.step UserStream.push act) m after = some s)
    (hfits : Fits s.client.sent) (hfits' : Fits s.server.sent) :
    (∃ ops, Run.run (Session.step UserStream.push act)
      ⟨.start now ⟨true, now, 0⟩ init remotePeerInit,
        .start serverNow ⟨false, serverNow, 0⟩ remoteInit peerInit⟩ ops = some m.view) ∧
    ∃ ops, Run.run (Session.step UserStream.push act) m.view ops = some s.view := by
  obtain ⟨hsent, hsent'⟩ := run_sent hs
  obtain ⟨htunneled, ops, hops⟩ := run_session hpre hm (hfits.mono hsent) (hfits'.mono hsent')
  obtain ⟨-, ops', hops'⟩ := run_view_from (UserStream.numbersFixDiffs init)
    (EqualDiffs.numbersFixDiffs hpre act remoteInit) htunneled hops hs hfits hfits'
  obtain ⟨v, hv, hrest⟩ := Run.run_append.mp hops'
  obtain rfl := Option.some.inj (hops.symm.trans hv)
  exact ⟨⟨ops, hops⟩, ops', hrest⟩

/-- Whatever the network does, what the client has as the server's newest state
was first sent after some of the server's edits, and as the run goes on after
these or more. -/
theorem screens_cross_in_order (hpre : hasPrefix S = false) (act : S → F → S) (key : Bytes)
    (clientSocket serverSocket serverAddr : Addr) (now serverNow : Reading)
    (init peerInit : UserStream) (remoteInit remotePeerInit : S)
    (before after : List (StackOp Addr UserEvent F))
    (m s : Stack Cipher Addr UserStream S UserEvent F)
    (hm : Run.run (Stack.step UserStream.push act)
      (.start key clientSocket serverSocket serverAddr now serverNow init peerInit remoteInit
        remotePeerInit) before = some m)
    (hs : Run.run (Stack.step UserStream.push act) m after = some s)
    (hfits : Fits s.client.sent) (hfits' : Fits s.server.sent) :
    ∃ es es', m.view.shown = some es ∧ s.view.shown = some es' ∧ es <+: es' ∧
      es' <+: s.server.edits := by
  obtain ⟨⟨ops, hops⟩, ops', hrest⟩ := run_session_split hpre hm hs hfits hfits'
  exact Session.numbers_in_order hops hrest

/-- And where states are known by their diffs, it is equal to the state that was
sent. -/
theorem held_states_genuine [LawfulState S] (hpre : hasPrefix S = false) (key : Bytes)
    (clientSocket serverSocket serverAddr : Addr) (now serverNow : Reading)
    (init peerInit : UserStream) (remoteInit remotePeerInit : S)
    (hremote : stateEqual remoteInit remotePeerInit = true)
    (ops : List (StackOp Addr UserEvent S)) (s : Stack Cipher Addr UserStream S UserEvent S)
    (hrun : Run.run (Stack.step UserStream.push fun _ e => e)
      (.start key clientSocket serverSocket serverAddr now serverNow init peerInit remoteInit
        remotePeerInit) ops = some s)
    (hfits : Fits s.client.sent) (hfits' : Fits s.server.sent) :
    ∃ es, s.view.shown = some es ∧ es <+: s.server.edits ∧
      stateEqual s.client.transport.receiver.receivedStates.last.state
        (es.getLastD remoteInit) = true := by
  obtain ⟨ops', hops⟩ := (run_session hpre hrun hfits hfits').2
  obtain ⟨_, es, -, hshown, -, hedits⟩ := Session.numbers_in_order hops (Run.run_nil _)
  exact ⟨es, hshown, hedits, Session.held_equal hpre hremote hops hshown⟩

end Screens

end Runs

/-- The server answers a key with two screens, and the second one comes first. -/
def repaintedOps : List (StackOp Nat UserEvent Register) :=
  [.client (.edit (.userByte 97)), .client (.tick 0 [] quietOs),
    .server (.recv (.ok (sealedWire.getD 0 [], 40000)) ⟨1700000000000, 0⟩ 0 0),
    .server (.edit ⟨7⟩), .server (.waitTime 0), .server (.tick 20000000 [] quietOs),
    .server (.edit ⟨9⟩), .server (.waitTime 20000000), .server (.tick 400000000 [] quietOs),
    .client (.recv (.ok (sealedWire.getD 3 [], 60001)) ⟨1700000000000, 0⟩ 0 0)]

def repainted : Option (Stack ZeroKeyOcb Nat UserStream Register UserEvent Register) :=
  letI := keyZlib
  Run.run (Stack.step UserStream.push fun _ e => e)
    (.start zeroKey 40000 60001 60001 (0 : Reading) (0 : Reading) .new .new ⟨0⟩ ⟨0⟩) repaintedOps

/-- The first one comes late. -/
def overtaken (m : Stack ZeroKeyOcb Nat UserStream Register UserEvent Register) :
    Option (Stack ZeroKeyOcb Nat UserStream Register UserEvent Register) :=
  letI := keyZlib
  Run.run (Stack.step UserStream.push fun _ e => e) m
    [.client (.recv (.ok (sealedWire.getD 2 [], 60001)) ⟨1700000000000, 0⟩ 0 0)]

theorem overtaken_summary : letI := keyZlib
    (repainted.bind fun m => (overtaken m).map fun s =>
      (m.view.shown, s.client.processed.length, s.summary.2.2.2))
      = some (some [⟨7⟩, ⟨9⟩], 2, true) := by
  decide +kernel

theorem screens_cross_in_order_overtaken :
    ∃ m s, repainted = some m ∧ overtaken m = some s ∧ m.view.shown = some [⟨7⟩, ⟨9⟩] ∧
      s.client.processed.length = 2 ∧
      ∃ es, s.view.shown = some es ∧ [⟨7⟩, ⟨9⟩] <+: es ∧ es <+: s.server.edits := by
  obtain ⟨m, hm, hrest⟩ := Option.bind_eq_some_iff.mp overtaken_summary
  obtain ⟨s, hs, hsummary⟩ := Option.map_eq_some_iff.mp hrest
  obtain ⟨hfits, hfits'⟩ := @fits_of_summary keyZlib s (congrArg (·.2.2) hsummary)
  obtain ⟨es, es', hshown, hshown', hprefix, hedits⟩ := @screens_cross_in_order _ _ _ _ keyZlib _ _
    _ Register _ _ rfl (fun _ e => e) zeroKey 40000 60001 60001 0 0 .new .new ⟨0⟩ ⟨0⟩ repaintedOps _
    m s hm hs hfits hfits'
  have hm' : m.view.shown = some [⟨7⟩, ⟨9⟩] := congrArg (·.1) hsummary
  obtain rfl := Option.some.inj (hm'.symm.trans hshown)
  exact ⟨m, s, hm, hs, hm', congrArg (·.2.1) hsummary, es', hshown', hprefix, hedits⟩

theorem repainted_summary : letI := keyZlib
    repainted.map (fun m => (m.view.shown, m.summary.2.2.2)) = some (some [⟨7⟩, ⟨9⟩], true) := by
  decide +kernel

/-- The client holds the second screen although the first has not come. -/
theorem held_states_genuine_repainted :
    ∃ m, repainted = some m ∧
      stateEqual m.client.transport.receiver.receivedStates.last.state (⟨9⟩ : Register) = true := by
  obtain ⟨m, hm, hsummary⟩ := Option.map_eq_some_iff.mp repainted_summary
  obtain ⟨hfits, hfits'⟩ := @fits_of_summary keyZlib m (congrArg (·.2) hsummary)
  obtain ⟨es, hshown, -, hequal⟩ := @held_states_genuine _ _ _ keyZlib _ _ _ Register _ _ _ rfl
    zeroKey 40000 60001 60001 0 0 .new .new ⟨0⟩ ⟨0⟩ (by decide) repaintedOps m hm hfits hfits'
  obtain rfl := Option.some.inj ((congrArg (·.1) hsummary).symm.trans hshown)
  exact ⟨m, hm, hequal⟩

end Stack

end Morsh
