import Morsh.Proofs.Numbering
import Morsh.Proofs.Pacing
import Morsh.Proofs.Session

/-!
# The sender of an endpoint

Seen from its sender, an endpoint of a session is a sender whose owner happens
to process instructions as well: each operation is a few calls of a sender on
its own. What is known of every run of a sender is then known of what an
endpoint has sent.

`Shadow` is the relation: a run of a sender on its own, with the same clock, the
same sender and the same instructions emitted. A tick, a wait, an edit and the
start of a shutdown are one call each. Processing an instruction is several: the
acknowledgment it carries, and if it brought a new newest state the number to
acknowledge, the time it was heard and, for a diff that is not empty, that it was
data. An operation that is none of the sender's business is no call at all, so the
simulation stutters. `Shadowed` is the invariant that there is such a run.

Two facts come over that way, and both are about ids of fragments. Emissions are
20 ms apart, so a 64-bit clock runs out long before 2^64 instructions have been
sent. And the two numbers of an instruction fix its diff, so one that repeats the
last instruction in everything but the diff repeats the diff.
-/

namespace Morsh

open State

variable {M R E F : Type} [State M] [State R]

/-- `r` is where the sender of `x` is, with the times of its emissions. -/
structure Endpoint.Shadow (x : Endpoint M R E) (r : SenderRun M) : Prop where
  clock : r.clock = x.clock
  sender : r.sender = x.transport.sender
  emitted : r.emitted.map Prod.snd = x.sent

/-- The calls of `process_instruction` on the sender: the acknowledgment, and for
a new newest state its number, the time it was heard and, if the diff is not
empty, that it was data. An instruction of another protocol version makes none. -/
theorem processInstruction_calls (act : M → E → M) (r : SenderRun M) (t : Transport M R)
    (hsender : r.sender = t.sender) (now : Nat) (inst : Instruction) :
    ∃ ops, Run.run (SenderRun.settledStep act) r ops
      = some { r with sender := (t.processInstruction now inst).1.sender } := by
  by_cases hver : inst.protocolVersion = some MORSH_PROTOCOL_VERSION
  · rw [Transport.processInstruction, if_neg (by simpa using hver)]
    simp only []
    split
    · next k hk =>
        generalize (t.receiver.receive now (inst.oldNum.getD 0) (inst.newNum.getD 0)
          (inst.throwawayNum.getD 0) (inst.diff.getD [])).1.receivedStates.last.num = newest
        split
        · refine ⟨[.acknowledge (inst.ackNum.getD 0), .setAckNum newest, .remoteHeard now], ?_⟩
          rw [← hsender]
          rfl
        · refine ⟨[.acknowledge (inst.ackNum.getD 0), .setAckNum newest, .remoteHeard now,
            .setDataAck], ?_⟩
          rw [← hsender]
          rfl
    · refine ⟨[.acknowledge (inst.ackNum.getD 0)], ?_⟩
      rw [← hsender]
      rfl
  · refine ⟨[], ?_⟩
    rw [processInstruction_mismatch hver, ← hsender]
    rfl

namespace Endpoint

variable {act : M → E → M} {incoming : List Instruction} {x x' : Endpoint M R E}
  {r : SenderRun M}

theorem Shadow.step (h : x.Shadow r) (hstep : x.Stepped act incoming x') :
    ∃ ops r', Run.run (SenderRun.settledStep act) r ops = some r' ∧ x'.Shadow r' := by
  obtain ⟨hclock, hsender, hemitted⟩ := h
  have hsame : x.transport.sender = x'.transport.sender → x.clock = x'.clock →
      x.sent = x'.sent →
      ∃ ops r', Run.run (SenderRun.settledStep act) r ops = some r' ∧ x'.Shadow r' :=
    fun hs hc he => ⟨[], r, rfl, hclock.trans hc, hsender.trans hs, hemitted.trans he⟩
  cases hstep with
  | idle connection => exact hsame rfl rfl rfl
  | edit hrun e =>
      refine ⟨[.edit e], { r with
        sender := x.transport.sender.setCurrentState (act x.transport.sender.currentState e) },
        Run.run_cons.mpr ⟨_, ?_, rfl⟩, hclock, rfl, hemitted⟩
      rw [SenderRun.settledStep, hsender, hrun, if_neg Bool.false_ne_true, SenderRun.step, hsender]
  | tick now timeout srttMs remote chaff connection hnow hrange =>
      let ticked := x.transport.sender.tick now timeout srttMs remote chaff
      refine ⟨[.tick ⟨now, hrange⟩ timeout srttMs remote chaff],
        ⟨now, ticked.1, r.emitted ++ ticked.2.toList.map fun inst => (now, inst)⟩,
        Run.run_cons.mpr ⟨_, ?_, rfl⟩, rfl, rfl, ?_⟩
      · simp only [SenderRun.settledStep, SenderRun.step, hclock, hsender,
          if_neg (Nat.not_lt.mpr hnow), ticked]
      · rw [List.map_append, hemitted, List.map_map]
        exact congrArg (x.sent ++ ·) (List.map_id _)
  | wait now timeout srttMs remote hnow hrange =>
      refine ⟨[.waitTime ⟨now, hrange⟩ timeout srttMs remote], { r with
        clock := now
        sender := (x.transport.sender.waitTimeMs now timeout srttMs remote).1 },
        Run.run_cons.mpr ⟨_, ?_, rfl⟩, rfl, rfl, hemitted⟩
      simp only [SenderRun.settledStep, SenderRun.step, hclock, hsender,
        if_neg (Nat.not_lt.mpr hnow)]
  | shutdown now =>
      refine ⟨[.startShutdown now], _, Run.run_cons.mpr ⟨_, rfl, rfl⟩, hclock, ?_, hemitted⟩
      exact congrArg (TransportSender.startShutdown · now) hsender
  | process connection now inst hmem =>
      obtain ⟨ops, hops⟩ := processInstruction_calls act r
        { x.transport with connection := connection } hsender now inst
      exact ⟨ops, _, hops, hclock, rfl, hemitted⟩
  | diff => exact hsame rfl rfl rfl

/-- A run of a sender from `init` leads to where the sender of `x` is. -/
def Shadowed (act : M → E → M) (now : Reading) (init : M) (x : Endpoint M R E) : Prop :=
  ∃ ops r, Run.run (SenderRun.settledStep act) (SenderRun.start now init) ops = some r ∧
    x.Shadow r

theorem Shadowed.start (act : M → E → M) (now : Reading) (connection : Connection) (init : M)
    (remoteInit : R) :
    Shadowed act now init (.start now connection init remoteInit : Endpoint M R E) :=
  ⟨[], _, rfl, rfl, rfl, rfl⟩

theorem Shadowed.step {now : Reading} {init : M} (h : Shadowed act now init x)
    (hstep : x.Stepped act incoming x') : Shadowed act now init x' := by
  obtain ⟨ops, r, hrun, hshadow⟩ := h
  obtain ⟨ops', r', hrun', hshadow'⟩ := hshadow.step hstep
  exact ⟨ops ++ ops', r', Run.run_append.mpr ⟨r, hrun, hrun'⟩, hshadow'⟩

end Endpoint

theorem Session.run_shadowed {actLeft : M → E → M} {actRight : R → F → R}
    {now remoteNow : Reading} {connection remoteConnection : Connection} {init peerInit : M}
    {remoteInit remotePeerInit : R} {ops : List (SessionOp E F)} {s : Session M R E F}
    (hrun : Run.run (Session.step actLeft actRight)
      ⟨.start now connection init remotePeerInit,
        .start remoteNow remoteConnection remoteInit peerInit⟩ ops = some s) :
    s.left.Shadowed actLeft now init ∧ s.right.Shadowed actRight remoteNow remoteInit := by
  refine Run.run_invariant (I := fun s : Session M R E F =>
    s.left.Shadowed actLeft now init ∧ s.right.Shadowed actRight remoteNow remoteInit) ?_
    ⟨.start .., .start ..⟩ hrun
  rintro s op s' ⟨hl, hr⟩ hstep
  cases op with
  | left op =>
      obtain ⟨hstepped, hsame⟩ := Session.step_left hstep
      rw [hsame]
      exact ⟨hl.step hstepped, hr⟩
  | right op =>
      obtain ⟨hstepped, hsame⟩ := Session.step_right hstep
      rw [hsame]
      exact ⟨hl, hr.step hstepped⟩

/-! ## What every run of a sender has sent -/

theorem SenderRun.settledStep_step {act : M → E → M} {r r' : SenderRun M} {op : SenderOp E}
    (h : SenderRun.settledStep act r op = some r') : SenderRun.step act r op = some r' := by
  cases op with
  | edit e =>
      simp only [settledStep] at h
      split at h
      · cases h
      · exact h
  | _ => exact h

theorem SenderRun.Orderly.settled {act : M → E → M} {now : Reading} {init : M}
    {ops : List (SenderOp E)} {r : SenderRun M}
    (hrun : Run.run (SenderRun.settledStep act) (SenderRun.start now init) ops = some r) :
    SenderRun.Orderly r :=
  Run.run_invariant (fun _ _ _ h hstep => h.step (settledStep_step hstep)) (.start now init) hrun

/-- Times 20 ms apart take 20 ms each. -/
theorem length_apart {times : List Nat}
    (h : times.IsChain fun a b => a + ms SEND_INTERVAL_MIN_MS ≤ b) :
    ∀ last ∈ times.getLast?, (times.length - 1) * ms SEND_INTERVAL_MIN_MS ≤ last := by
  induction times using List.reverseRecOn with
  | nil => simp
  | append_singleton times last ih =>
      intro l hl
      rw [List.getLast?_concat, Option.mem_some_iff] at hl
      subst hl
      rw [List.isChain_append] at h
      obtain ⟨hchain, -, hlink⟩ := h
      rw [List.length_append, List.length_singleton, Nat.add_sub_cancel]
      cases hlast : times.getLast? with
      | none =>
          rw [List.getLast?_eq_none_iff.mp hlast]
          simp
      | some m =>
          have hpos : 0 < times.length := by
            rw [List.length_pos_iff]
            rintro rfl
            cases hlast
          have hm := ih hchain m hlast
          have hstep := hlink m hlast last (by simp)
          calc times.length * ms SEND_INTERVAL_MIN_MS
              = (times.length - 1) * ms SEND_INTERVAL_MIN_MS + ms SEND_INTERVAL_MIN_MS := by
                rw [← Nat.succ_mul, Nat.succ_eq_add_one, Nat.sub_add_cancel hpos]
            _ ≤ m + ms SEND_INTERVAL_MIN_MS := Nat.add_le_add_right hm _
            _ ≤ last := hstep

omit [State M] in
/-- The clock runs out long before the ids do: what was emitted is 20 ms apart,
all of it within the range of the clock. -/
theorem SenderRun.Orderly.emitted_lt {r : SenderRun M} (h : SenderRun.Orderly r) :
    r.emitted.length + 1 < 2 ^ 64 := by
  have hrange := h.inv.range
  cases hlast : (r.emitted.map Prod.fst).getLast? with
  | none =>
      rw [List.getLast?_eq_none_iff, List.map_eq_nil_iff] at hlast
      rw [hlast]
      decide
  | some last =>
      obtain ⟨hle, -⟩ := h.paced last hlast
      have hapart := length_apart h.apart last hlast
      rw [List.length_map] at hapart
      simp only [CLOCK_RANGE, ms, SEND_INTERVAL_MIN_MS] at hrange hapart
      omega

/-- In every run of a sender from `init`, the two numbers of an instruction fix
its diff. -/
def NumbersFixDiffs (act : M → E → M) (init : M) : Prop :=
  ∀ (now : Reading) (ops : List (SenderOp E)) (r : SenderRun M),
    Run.run (SenderRun.settledStep act) (SenderRun.start now init) ops = some r →
    SameNumbersSameDiff r.emitted

theorem UserStream.numbersFixDiffs [ProstMessage UserMessage] (init : UserStream) :
    NumbersFixDiffs UserStream.push init := fun now _ _ hrun =>
  .intro fun _ hp _ hq hold hnew => Valuation.Numbered.same_diff meaning_follows
    meaning_determined now (f := []) (List.nil_append _) hrun hp hq hold hnew

theorem EqualDiffs.numbersFixDiffs [EqualDiffs M] (hpre : hasPrefix M = false) (act : M → E → M)
    (init : M) : NumbersFixDiffs act init := fun now _ _ hrun =>
  .intro fun _ hp _ hq hold hnew => Valuation.Numbered.same_diff
    (fun s _ e => ⟨Quotient.mk _ (act s e), trivial, fun _ _ => rfl⟩)
    (valuation_determined hpre) now (f := ()) rfl hrun hp hq hold hnew

namespace Endpoint.Shadowed

variable {act : M → E → M} {now : Reading} {init : M} {x : Endpoint M R E}

omit [State R] in
theorem sent_lt (h : x.Shadowed act now init) : x.sent.length + 1 < 2 ^ 64 := by
  obtain ⟨ops, r, hrun, hshadow⟩ := h
  rw [← hshadow.emitted, List.length_map]
  exact (SenderRun.Orderly.settled hrun).emitted_lt

omit [State R] in
/-- What the fragmenter takes for the last instruction is the last
instruction. -/
theorem eq_of_sameButDiff (h : x.Shadowed act now init) (hfix : NumbersFixDiffs act init)
    {i j : Instruction} (hi : i ∈ x.sent) (hj : j ∈ x.sent) (hsame : i.SameButDiff j) : i = j := by
  obtain ⟨ops, r, hrun, hshadow⟩ := h
  rw [← hshadow.emitted] at hi hj
  obtain ⟨p, hp, rfl⟩ := List.mem_map.mp hi
  obtain ⟨q, hq, rfl⟩ := List.mem_map.mp hj
  have hequal : { p.2 with diff := q.2.diff } = q.2 := hsame
  have hdiff := (hfix now ops r hrun p hp q hq).1 (by rw [← hequal]) (by rw [← hequal])
  rw [← hdiff] at hequal
  exact hequal

end Endpoint.Shadowed

end Morsh
