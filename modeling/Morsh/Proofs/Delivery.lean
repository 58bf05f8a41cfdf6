import Morsh.Proofs.Channel
import Morsh.Statesync.Wire

/-!
# Input is delivered exactly once and in order

The value of a stream is every event ever pushed; the frame is what has been
subtracted so far. In one frame the common prefix of an earlier and a later
value is the whole of the earlier one, so a diff is exactly what was pushed in
between, whatever was cut off in front of both.

`encodeDiffFrom_append` is all there is to know about the diff; grouping keys
into instructions is undone by decoding them. With that a stream is an `Account`
whose values are ordered by extension: the value handed out last is a front of
the newest one, and the lists decoded so far add up to it. The theorem reads the
record at the receiver. What has been handed out is the value of some number, the
value of a number is a front of what has been pushed, and right after
`get_remote_diff` the number is the newest one.
-/

namespace Morsh

namespace UserStream

theorem commonPrefixLen_append (as bs : List UserEvent) :
    commonPrefixLen (as ++ bs) as = as.length := by
  induction as with
  | nil => cases bs <;> rfl
  | cons a as ih =>
      rw [List.cons_append, commonPrefixLen, if_neg (by simp), ih, List.length_cons]

theorem flatMap_group (es : List UserEvent) :
    (group es).flatMap instructionEvents = es ∧
      ∀ keys, (groupKeys keys es).flatMap instructionEvents = keys.map .userByte ++ es := by
  induction es with
  | nil => exact ⟨rfl, fun keys => by simp [groupKeys, keystrokeInstruction, instructionEvents]⟩
  | cons e rest ih =>
      obtain ⟨ihGroup, ihKeys⟩ := ih
      cases e with
      | userByte byte =>
          refine ⟨?_, fun keys => ?_⟩
          · rw [group, ihKeys]; rfl
          · rw [groupKeys, ihKeys]; simp
      | resize width height =>
          have hresize : instructionEvents (resizeInstruction width height)
              = [.resize width height] := rfl
          refine ⟨?_, fun keys => ?_⟩
          · rw [group, List.flatMap_cons, ihGroup, hresize]; rfl
          · rw [groupKeys, List.flatMap_cons, List.flatMap_cons, ihGroup, hresize]
            simp [keystrokeInstruction, instructionEvents]

section

variable [ProstMessage UserMessage]

/-- In one frame the diff of a later stream from an earlier one is what was
pushed in between. -/
theorem encodeDiffFrom_append (as bs : List UserEvent) :
    encodeDiffFrom ⟨as ++ bs⟩ ⟨as⟩
      = ProstMessage.encode (M := UserMessage) ⟨group bs⟩ := by
  rw [encodeDiffFrom, commonPrefixLen_append, List.drop_left]

theorem decodeAndApply_group (s : UserStream) (es : List UserEvent) :
    s.decodeAndApply (ProstMessage.encode (M := UserMessage) ⟨group es⟩)
      = .ok ⟨s.events ++ es⟩ := by
  rw [decodeAndApply, ProstMessage.decode_encode]
  simp only [(flatMap_group es).1]

/-- A stream `s` cut at `f` stands for `f ++ s.events`. -/
def meaning : Meaning UserStream (List UserEvent) where
  Frame := List UserEvent
  rep f s v := f ++ s.events = v
  le := (· <+: ·)
  le_refl _ := List.prefix_rfl
  le_trans := List.IsPrefix.trans
  clone h := h
  equal := by
    intro f a b va vb ha hb _ heq
    have hev : a.events = b.events := eq_of_beq heq
    rw [← ha, ← hb, hev]
  empty := by
    intro f a c va vc ha hc hle hdiff
    obtain ⟨more, rfl⟩ := hle
    obtain ⟨ea⟩ := a
    obtain ⟨ec⟩ := c
    subst ha
    obtain rfl : ec = ea ++ more := List.append_cancel_left (hc.trans (List.append_assoc ..))
    have hmsg :=
      ProstMessage.eq_default_of_encode ((encodeDiffFrom_append ea more).symm.trans hdiff)
    have hevents := (flatMap_group more).1
    rw [UserMessage.mk.inj hmsg] at hevents
    rw [← hevents]
    exact (List.append_nil _).symm
  apply := by
    intro f g a b c s va vc ha hc hle hb hs
    obtain ⟨more, rfl⟩ := hle
    obtain ⟨ea⟩ := a
    obtain ⟨ec⟩ := c
    subst ha
    obtain rfl : ec = ea ++ more := List.append_cancel_left (hc.trans (List.append_assoc ..))
    have happly : b.decodeAndApply (encodeDiffFrom ⟨ea ++ more⟩ ⟨ea⟩) = .ok s := hs
    rw [encodeDiffFrom_append, decodeAndApply_group] at happly
    cases happly
    rw [← List.append_assoc, hb]
  adopt h := ⟨h, h⟩
  trim := by
    intro _ f k vk hk
    refine ⟨vk, fun s v hs hle => ?_⟩
    obtain ⟨more, rfl⟩ := hle
    obtain ⟨ek⟩ := k
    obtain ⟨es⟩ := s
    subst hk
    obtain rfl : es = ek ++ more := List.append_cancel_left (hs.trans (List.append_assoc ..))
    change _ ++ (subtractPrefix _ _).events = _
    rw [subtractPrefix, commonPrefixLen_append, List.drop_left]

/-- The lists decoded so far, together, are the value handed out so far past
the initial one. -/
def Decoded (init : UserStream) (handed : List Bytes) (got : List UserEvent) : Prop :=
  ∃ lists, handed.mapM eventsOf = .ok lists ∧ init.events ++ lists.flatten = got

theorem Decoded.append {init : UserStream} {handed : List Bytes} {f got v : List UserEvent}
    {newest old : UserStream} (h : Decoded init handed got) (hle : got <+: v)
    (hnew : f ++ newest.events = v) (hold : f ++ old.events = got) :
    Decoded init (handed ++ [encodeDiffFrom newest old]) v := by
  obtain ⟨lists, hlists, hgot⟩ := h
  obtain ⟨more, rfl⟩ := hle
  obtain ⟨eo⟩ := old
  obtain ⟨en⟩ := newest
  obtain rfl : en = eo ++ more := by
    rw [← hold, List.append_assoc] at hnew
    exact List.append_cancel_left hnew
  have hlast : eventsOf (encodeDiffFrom ⟨eo ++ more⟩ ⟨eo⟩) = .ok more := by
    rw [encodeDiffFrom_append, eventsOf, decodeAndApply_group]; rfl
  refine ⟨lists ++ [more], ?_, ?_⟩
  · rw [List.mapM_append, hlists, List.mapM_cons, hlast]; rfl
  · rw [List.flatten_append, ← List.append_assoc, hgot]; simp

/-- A channel of user input: an edit pushes one event. -/
def account (init : UserStream) : Account UserStream UserEvent (List UserEvent) where
  meaning := meaning
  act := push
  val edits := init.events ++ edits
  Handed := Decoded init
  edit_rep := by
    intro (f : List UserEvent) s es e (h : f ++ s.events = init.events ++ es)
    change f ++ (s.events ++ [e]) = init.events ++ (es ++ [e])
    rw [← List.append_assoc, h, List.append_assoc]
  edit_le := List.prefix_append_right_inj _ |>.mpr (List.prefix_append _ _)
  handed_step h hle hnew hold := h.append hle hnew hold

/-- Whatever the network, the clocks and the acknowledgments do, what the
receiver has decoded is a prefix of what was pushed; right after a
`get_remote_diff` it is what had been pushed when the newest received number
was first used. -/
theorem input_delivered_in_order {M : Type} [State M] (now : Reading) (remoteNow : Nat)
    (connection : Connection) (init : UserStream) (remoteState : M)
    (ops : List (ChannelOp UserEvent)) (ch : Channel UserEvent UserStream M)
    (hrun : Run.run (Channel.step push)
      (Channel.start now remoteNow connection init init remoteState) ops = some ch) :
    (∃ lists, ch.handed.mapM eventsOf = .ok lists ∧ lists.flatten <+: ch.edits) ∧
      ∀ ch', Channel.step push ch .getRemoteDiff = some ch' →
        ∃ u lists, useOf ch'.uses ch'.remote.getRemoteStateNum = some u ∧
          ch'.handed.mapM eventsOf = .ok lists ∧ lists.flatten = u.edits ∧
          u.edits <+: ch'.edits := by
  have hnone : Decoded init [] (init.events ++ []) := ⟨[], rfl, rfl⟩
  have hstart : Channel.Synced (account init)
      (Channel.start now remoteNow connection init init remoteState) :=
    Traced.start (f := []) (g := []) (List.append_nil _).symm (List.append_nil _).symm
      hnone now.isLt remoteNow
  have hsync := Channel.run_synced hstart hrun
  refine ⟨?_, fun ch' hstep => ?_⟩
  · obtain ⟨got, ⟨lists, hlists, hgot⟩, hlinked⟩ := hsync.linked
    obtain ⟨k, -, hk⟩ := hlinked.receiver.handed
    have hpre := hlinked.sender.top hk
    rw [← hgot] at hpre
    exact ⟨lists, hlists, (List.prefix_append_right_inj _).mp hpre⟩
  · obtain ⟨u, hu, ⟨lists, hlists, hval⟩, -⟩ := hsync.getRemoteDiff
    cases hstep
    have hnum : ch.remote.getRemoteDiff.1.getRemoteStateNum = ch.remote.getRemoteStateNum :=
      Receiver.getRemoteDiff_num
    exact ⟨u, lists, hnum ▸ hu, hlists, List.append_cancel_left hval,
      (hsync.recorded u (List.mem_of_find?_eq_some hu)).1⟩

end

/-- Two keys around a resize; the second transmission overtakes the first. -/
def overtaken : Option (Channel UserEvent UserStream UserStream) :=
  Run.run (Channel.step push) (Channel.start (0 : Reading) 0 ⟨true, 0, 0⟩ new new new)
    [.edit (.userByte 97), .edit (.resize 100 30), .tick 0 1000 250 true [7],
      .edit (.userByte 98), .waitTime 10000000 1000 250 true,
      .tick 1000000000 1000 250 true [], .deliver 1 0, .deliver 0 5, .getRemoteDiff]

theorem input_delivered_in_order_overtaken :
    ∃ ch, overtaken = some ch ∧
      ch.handed.mapM eventsOf = .ok [[.userByte 97, .resize 100 30, .userByte 98]] ∧
      ∃ lists, ch.handed.mapM eventsOf = .ok lists ∧ lists.flatten <+: ch.edits :=
  ⟨overtaken.get (by decide +kernel), (Option.some_get _).symm, by decide +kernel,
    (input_delivered_in_order 0 0 _ _ _ _ _ (Option.some_get _).symm).1⟩

end UserStream

end Morsh
