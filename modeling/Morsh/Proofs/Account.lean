import Morsh.Network.Channel
import Morsh.Proofs.Link

/-!
# The record of one direction

An `Account` gives the ghosts of a sender and its receiver their meaning: the
value of the edits made so far, and what is known of the bytes handed out.
`Traced` ties the record to the two ends. What a particular state makes of it
(a queue, a screen up to equality) is for its own module.

A use is noted when a number is first announced, with the edits made until then,
and the number keeps that meaning for good. So `vals` gives a number one value,
and what follows is about what the two ends hold under a number, never about
when or how often it was sent. Of the sender's operations only `tick` has an
argument in it: the number it announces is either new or already stands for the
value the state has now, so that noting it changes nothing. Of the receiver's
only `getRemoteDiff` shows in the record: it hands out the bytes that lead from
the value handed out last to the value of the newest number.
-/

namespace Morsh

open State

structure Account (S E V : Type) [State S] where
  meaning : Meaning S V
  act : S → E → S
  /-- The value of the state after these edits. -/
  val : List E → V
  /-- What the bytes handed out so far add up to. -/
  Handed : List Bytes → V → Prop
  edit_rep : ∀ {f s es e}, meaning.rep f s (val es) → meaning.rep f (act s e) (val (es ++ [e]))
  edit_le : ∀ {es e}, meaning.le (val es) (val (es ++ [e]))
  handed_step : ∀ {bs got v g newest old}, Handed bs got → meaning.le got v →
    meaning.rep g newest v → meaning.rep g old got → Handed (bs ++ [diffFrom newest old]) v

variable {E S M V : Type} [State S] {A : Account S E V}

/-! ## Recording uses -/

omit [State S] in
theorem useOf_note {uses : List (Use E S)} {u : Use E S} {num : Nat} :
    useOf (note uses u) num
      = match useOf uses num with
        | some v => some v
        | none => if u.num = num then some u else none := by
  unfold note
  by_cases hnum : u.num = num
  · subst hnum
    cases hv : useOf uses u.num with
    | some v => simp only [hv]
    | none =>
        simp only [if_true, useOf] at hv ⊢
        rw [List.find?_append, hv]
        simp
  · rw [if_neg hnum]
    split
    · split <;> next hv => rw [hv]
    · simp only [useOf]
      rw [List.find?_append]
      cases uses.find? (fun u => u.num == num) with
      | some v => rfl
      | none => simp [hnum]

omit [State S] in
theorem mem_note {uses : List (Use E S)} {u x : Use E S} (hx : x ∈ note uses u) :
    x ∈ uses ∨ x = u ∧ useOf uses u.num = none := by
  unfold note at hx
  split at hx
  · exact Or.inl hx
  · next hnone =>
      rcases List.mem_append.mp hx with h | h
      · exact Or.inl h
      · exact Or.inr ⟨List.mem_singleton.mp h, hnone⟩

namespace Account

/-- The value each number was first used for. -/
def vals (A : Account S E V) (uses : List (Use E S)) (num : Nat) : Option V :=
  (useOf uses num).map fun u => A.val u.edits

/-- Noting a use gives the number its value and changes no other. The number has
no value yet or has this one; in the second case the note is not made, and nothing
changes. -/
theorem vals_note {uses : List (Use E S)} {u : Use E S}
    (hval : A.vals uses u.num = none ∨ A.vals uses u.num = some (A.val u.edits)) :
    A.vals (note uses u) = Function.update (A.vals uses) u.num (some (A.val u.edits)) := by
  funext num
  rw [vals, useOf_note]
  by_cases hnum : num = u.num
  · subst hnum
    rw [Function.update_self, if_pos rfl]
    unfold vals at hval
    split
    · next v hv =>
        rw [hv] at hval
        rcases hval with h | h
        · cases h
        · exact h
    · rfl
  · rw [Function.update_of_ne hnum, if_neg (Ne.symm hnum), vals]
    split <;> next hv => rw [hv]

theorem vals_single {init : S} {n : Nat} :
    A.vals [⟨0, [], init⟩] n = if n = 0 then some (A.val []) else none := by
  by_cases hn : n = 0
  · subst hn; rfl
  · have hbeq : ((0 : Nat) == n) = false := by simpa using Ne.symm hn
    simp only [vals, useOf, List.find?_cons, hbeq, List.find?_nil, if_neg hn]
    rfl

end Account

/-! ## The two ends and their record -/

structure Traced (A : Account S E V) (clock : Nat) (s : TransportSender S)
    (network : List Instruction) (r : Receiver S) (edits : List E) (uses : List (Use E S))
    (handed : List Bytes) : Prop where
  linked : ∃ got, A.Handed handed got ∧
    A.meaning.Linked (A.vals uses) (A.val edits) got clock s network r
  recorded : ∀ u ∈ uses, u.edits <+: edits ∧ ∃ f, A.meaning.rep f u.state (A.val u.edits)

namespace Traced

variable {clock now : Nat} {s s' : TransportSender S} {network : List Instruction}
  {r : Receiver S} {edits : List E} {uses : List (Use E S)} {handed : List Bytes}

theorem start {f g : A.meaning.Frame} {init remoteInit : S}
    (hinit : A.meaning.rep f init (A.val [])) (hremote : A.meaning.rep g remoteInit (A.val []))
    (hhanded : A.Handed [] (A.val [])) (hrange : now < CLOCK_RANGE) (remoteNow : Nat) :
    Traced A now (.new now init) [] (.new remoteNow remoteInit) [] [⟨0, [], init⟩] [] := by
  have hvals : A.vals [⟨0, [], init⟩] = fun n => if n = 0 then some (A.val []) else none :=
    funext fun _ => A.vals_single
  refine ⟨⟨A.val [], hhanded, ?_⟩, fun u hu => ?_⟩
  · rw [hvals]
    exact ⟨.new hrange init, .new now hinit, by simp, .new remoteNow hremote⟩
  · rw [List.mem_singleton.mp hu]
    exact ⟨List.prefix_rfl, f, hinit⟩

/-- A receiver that has processed an instruction of this direction, or has
refused its version. -/
theorem deliver [State M] {t : Transport M S} {inst : Instruction}
    (h : Traced A clock s network t.receiver edits uses handed) (hmem : inst ∈ network)
    (now : Nat) :
    Traced A clock s network (t.processInstruction now inst).1.receiver edits uses handed := by
  obtain ⟨got, hhanded, hlinked⟩ := h.linked
  refine ⟨⟨got, hhanded, ?_⟩, h.recorded⟩
  by_cases hver : inst.protocolVersion = some MORSH_PROTOCOL_VERSION
  · rw [(processInstruction_receiver hver).1]
    exact hlinked.deliver hmem now
  · rw [processInstruction_mismatch hver]
    exact hlinked

theorem of_frame (h : Traced A clock s network r edits uses handed)
    (hsent : s'.sentStates = s.sentStates) (hcur : s'.currentState = s.currentState)
    (hack : s'.nextAckTime = s.nextAckTime)
    (hshut : s'.shutdownInProgress = false → s.shutdownInProgress = false) :
    Traced A clock s' network r edits uses handed := by
  obtain ⟨got, hhanded, hlinked⟩ := h.linked
  exact ⟨⟨got, hhanded, hlinked.of_frame hsent hcur hack hshut⟩, h.recorded⟩

theorem edit (h : Traced A clock s network r edits uses handed)
    (hrun : s.shutdownInProgress = false) (e : E) :
    Traced A clock (s.setCurrentState (A.act s.currentState e)) network r (edits ++ [e]) uses
      handed := by
  obtain ⟨got, hhanded, hlinked⟩ := h.linked
  refine ⟨⟨got, hhanded, hlinked.edit hrun (fun f hrep => A.edit_rep hrep) A.edit_le⟩,
    fun u hu => ?_⟩
  obtain ⟨hpre, hrep⟩ := h.recorded u hu
  exact ⟨hpre.trans (List.prefix_append _ _), hrep⟩

theorem ack (h : Traced A clock s network r edits uses handed) (n : Nat) :
    Traced A clock (s.processAcknowledgmentThrough n) network r edits uses handed := by
  obtain ⟨got, hhanded, hlinked⟩ := h.linked
  exact ⟨⟨got, hhanded, hlinked.ack n⟩, h.recorded⟩

theorem startShutdown (h : Traced A clock s network r edits uses handed) (t : Nat) :
    Traced A clock (s.startShutdown t) network r edits uses handed := by
  obtain ⟨got, hhanded, hlinked⟩ := h.linked
  exact ⟨⟨got, hhanded, hlinked.startShutdown t⟩, h.recorded⟩

theorem waitTimeMs (h : Traced A clock s network r edits uses handed) (hnow : clock ≤ now)
    (hrange : now < CLOCK_RANGE) (timeout srttMs : Nat) (remote : Bool) :
    Traced A now (s.waitTimeMs now timeout srttMs remote).1 network r edits uses handed := by
  obtain ⟨got, hhanded, hlinked⟩ := h.linked
  exact ⟨⟨got, hhanded, hlinked.waitTimeMs hnow hrange timeout srttMs remote⟩, h.recorded⟩

/-- A tick keeps the record. The number it announces is entered with the edits
made until now; that number is new or already has the value of these edits, so no
other value is overwritten. -/
theorem tick (h : Traced A clock s network r edits uses handed) (hnow : clock ≤ now)
    (hrange : now < CLOCK_RANGE) (timeout srttMs : Nat) (remote : Bool) (chaff : Bytes) :
    Traced A now (s.tick now timeout srttMs remote chaff).1
      (network ++ (s.tick now timeout srttMs remote chaff).2.toList) r edits
      (noteSent uses edits (s.tick now timeout srttMs remote chaff)) handed := by
  obtain ⟨got, hhanded, hlinked⟩ := h.linked
  unfold noteSent
  rcases hlinked.tick hnow hrange timeout srttMs remote chaff with
    ⟨hnone, hl⟩ | ⟨inst, k, hsome, hnum, hval, hlast, hl⟩
  · simp only [hnone, Option.toList_none, List.append_nil, Option.bind_none]
    exact ⟨⟨got, hhanded, hl⟩, h.recorded⟩
  · simp only [hsome, Option.toList_some, Option.bind_some, hnum]
    have hvals := A.vals_note (u := ⟨k, edits,
      (s.tick now timeout srttMs remote chaff).1.sentStates.last.state⟩) hval
    refine ⟨⟨got, hhanded, ?_⟩, fun u hu => ?_⟩
    · rw [hvals]; exact hl
    · rcases mem_note hu with hold | ⟨rfl, -⟩
      · exact h.recorded u hold
      · obtain ⟨f, -, hassign⟩ := hl.sender.states
        obtain ⟨v, hv, hrep⟩ := hassign _ (History.last_mem _)
        rw [hlast, Function.update_self] at hv
        exact ⟨List.prefix_rfl, f, Option.some.inj hv ▸ hrep⟩

/-- What `get_remote_diff` hands out extends what was handed out before to the
value of the newest number. -/
theorem getRemoteDiff (h : Traced A clock s network r edits uses handed) :
    ∃ u, useOf uses r.getRemoteStateNum = some u ∧
      A.Handed (handed ++ [r.getRemoteDiff.2]) (A.val u.edits) ∧
      Traced A clock s network r.getRemoteDiff.1 edits uses (handed ++ [r.getRemoteDiff.2]) := by
  obtain ⟨got, hhanded, hlinked⟩ := h.linked
  obtain ⟨g, v, hv, hle, hnew, hgot, hl⟩ := hlinked.getRemoteDiff
  obtain ⟨u, hu, rfl⟩ := Option.map_eq_some_iff.mp hv
  have hhanded' := A.handed_step hhanded hle hnew hgot
  exact ⟨u, hu, hhanded', ⟨_, hhanded', hl⟩, h.recorded⟩

end Traced

end Morsh
