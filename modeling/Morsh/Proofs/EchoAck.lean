import Mathlib.Data.List.Induction
import Morsh.Statesync.EchoRun
import Morsh.Terminal.Vt

/-!
# The echo ack and the whole history

`setEchoAck` computes the ack from a history that earlier calls have pruned.
What they pruned is below the ack they computed, and the entry that justified
that ack is still there: it has only grown older, so the next ack cannot fall
below it, and nothing that was pruned can matter again.

The proof runs two histories side by side, the one the code has left and the
record of every frame ever registered; `Kept` relates them. Registering a frame
adds it to both. Asking computes the last echoed frame of what is left, which is
the largest since numbers and times are in order, and prunes below it;
`Kept.largest` shows that it is the largest of all. The run is an induction over
the operations, with the reading of the last call carried along.
-/

namespace Morsh

/-- Whether the frame has been in the terminal for the echo timeout. -/
def Echoed (now : Nat) (p : Nat × Nat) : Prop := ms ECHO_TIMEOUT_MS ≤ now - p.2

instance (now : Nat) (p : Nat × Nat) : Decidable (Echoed now p) :=
  inferInstanceAs (Decidable (ms ECHO_TIMEOUT_MS ≤ now - p.2))

/-- `n` is the largest number registered long enough before `now`, or 0 where
there is none. -/
structure LargestEchoed (registered : List (Nat × Nat)) (now n : Nat) : Prop where
  bound : ∀ p ∈ registered, Echoed now p → p.1 ≤ n
  attained : n = 0 ∨ ∃ p ∈ registered, Echoed now p ∧ p.1 = n

theorem Echoed.mono {now later : Nat} {p : Nat × Nat} (h : Echoed now p) (hle : now ≤ later) :
    Echoed later p := by
  unfold Echoed at *
  omega

/-- Numbers strictly increase and times never decrease. -/
def InOrder (history : List (Nat × Nat)) : Prop :=
  history.Pairwise fun p q => p.1 < q.1 ∧ p.2 ≤ q.2

namespace Complete

@[simp] theorem newestEchoAck_nil (now : Nat) : newestEchoAck [] now = 0 := rfl

theorem newestEchoAck_concat (history : List (Nat × Nat)) (p : Nat × Nat) (now : Nat) :
    newestEchoAck (history ++ [p]) now
      = if now - p.2 ≥ ms ECHO_TIMEOUT_MS then p.1 else newestEchoAck history now := by
  simp only [newestEchoAck, List.foldl_append, List.foldl_cons, List.foldl_nil]

/-- The ack is an echoed frame of the history, where it is not 0. -/
theorem newestEchoAck_attained (history : List (Nat × Nat)) (now : Nat) :
    newestEchoAck history now = 0 ∨
      ∃ p ∈ history, Echoed now p ∧ p.1 = newestEchoAck history now := by
  induction history using List.reverseRecOn with
  | nil => exact .inl rfl
  | append_singleton history p ih =>
      rw [newestEchoAck_concat]
      split
      · next hp => exact .inr ⟨p, by simp, hp, rfl⟩
      · rcases ih with hzero | ⟨q, hq, hechoed, hnum⟩
        · exact .inl hzero
        · exact .inr ⟨q, List.mem_append_left _ hq, hechoed, hnum⟩

/-- In a history in order the last echoed frame is the largest one. Frames are
numbered in the order they come in, so a later entry that is echoed is larger than
any before it. -/
theorem newestEchoAck_largest {history : List (Nat × Nat)} (h : InOrder history) (now : Nat) :
    LargestEchoed history now (newestEchoAck history now) := by
  refine ⟨?_, newestEchoAck_attained history now⟩
  induction history using List.reverseRecOn with
  | nil => exact fun p hp => absurd hp List.not_mem_nil
  | append_singleton history p ih =>
      obtain ⟨hinit, -, hlast⟩ := List.pairwise_append.mp h
      intro q hq hechoed
      rw [newestEchoAck_concat]
      split
      · rcases List.mem_append.mp hq with hq | hq
        · exact Nat.le_of_lt (hlast q hq p (by simp)).1
        · exact Nat.le_of_eq (congrArg Prod.fst (List.mem_singleton.mp hq))
      · next hp =>
          rcases List.mem_append.mp hq with hq | hq
          · exact ih hinit q hq hechoed
          · rw [List.mem_singleton.mp hq] at hechoed
            exact absurd hechoed hp

end Complete

theorem LargestEchoed.unique {registered : List (Nat × Nat)} {now m n : Nat}
    (hm : LargestEchoed registered now m) (hn : LargestEchoed registered now n) : m = n := by
  refine Nat.le_antisymm ?_ ?_
  · rcases hm.attained with rfl | ⟨p, hp, hechoed, rfl⟩
    · exact Nat.zero_le n
    · exact hn.bound p hp hechoed
  · rcases hn.attained with rfl | ⟨p, hp, hechoed, rfl⟩
    · exact Nat.zero_le m
    · exact hm.bound p hp hechoed

namespace Complete

variable {T : Type} [Emulator T]

theorem refresh_frame (c : Complete T) (terminal : MoshTerminal T) :
    (c.refresh terminal).echoAck = c.echoAck ∧
      (c.refresh terminal).inputHistory = c.inputHistory :=
  ⟨rfl, rfl⟩

theorem act_frame (c : Complete T) (bytes : Bytes) :
    (c.act bytes).1.echoAck = c.echoAck ∧ (c.act bytes).1.inputHistory = c.inputHistory := by
  unfold act
  split
  · exact refresh_frame ..
  · exact ⟨rfl, rfl⟩

theorem resize_frame (c : Complete T) (cols rows : Nat) :
    (c.resize cols rows).1.echoAck = c.echoAck ∧
      (c.resize cols rows).1.inputHistory = c.inputHistory := by
  unfold resize
  split
  · exact ⟨rfl, rfl⟩
  · split
    · exact refresh_frame ..
    · exact ⟨rfl, rfl⟩

theorem new_frame {c : Complete T} {cols rows : Nat} (h : new cols rows = .ok c) :
    c.echoAck = 0 ∧ c.inputHistory = [] := by
  unfold new at h
  cases hterminal : MoshTerminal.new (T := T) cols rows with
  | error e =>
      rw [hterminal] at h
      cases h
  | ok terminal =>
      rw [hterminal] at h
      change terminal.snapshot.map _ = _ at h
      cases hscreen : terminal.snapshot with
      | error e =>
          rw [hscreen] at h
          cases h
      | ok screen =>
          rw [hscreen] at h
          cases h
          exact ⟨rfl, rfl⟩

end Complete

namespace EchoRun

variable {T : Type} [Emulator T] {r r' : EchoRun T} {op : EchoOp}

/-- A call registers a frame, asks for the echo ack, or touches neither. -/
theorem step_cases (h : r.step op = some r') :
    (∃ n now, (∀ p ∈ r.registered, p.1 < n ∧ p.2 ≤ now) ∧
      r' = { r with
        complete := r.complete.registerInputFrame n now
        registered := r.registered ++ [(n, now)] }) ∨
    (∃ now, r' = { r with
        complete := (r.complete.setEchoAck now).1
        asked := r.asked ++ [now] }) ∨
    (r'.registered = r.registered ∧ r'.asked = r.asked ∧
      r'.complete.echoAck = r.complete.echoAck ∧
      r'.complete.inputHistory = r.complete.inputHistory) := by
  cases op with
  | registerInputFrame n now =>
      obtain ⟨hlast, hr⟩ := Option.ite_none_right_eq_some.mp h
      exact .inl ⟨n, now, hlast, (Option.some.inj hr).symm⟩
  | setEchoAck now => exact .inr (.inl ⟨now, (Option.some.inj h).symm⟩)
  | clone =>
      cases h
      exact .inr (.inr ⟨rfl, rfl, rfl, rfl⟩)
  | act bytes =>
      cases h
      exact .inr (.inr ⟨rfl, rfl, Complete.act_frame ..⟩)
  | resize cols rows =>
      cases h
      exact .inr (.inr ⟨rfl, rfl, Complete.resize_frame ..⟩)

theorem inOrder_step (h : InOrder r.registered) (hstep : r.step op = some r') :
    InOrder r'.registered := by
  obtain ⟨n, now, hlast, rfl⟩ | ⟨now, rfl⟩ | ⟨hregistered, -⟩ := step_cases hstep
  · refine List.pairwise_append.mpr ⟨h, List.pairwise_singleton _ _, fun p hp q hq => ?_⟩
    rw [List.mem_singleton.mp hq]
    exact hlast p hp
  · exact h
  · rwa [hregistered]

/-- The history holds every frame from the echo ack on, and the frame that was
acknowledged had been there long enough when it was asked for. -/
structure Kept (r : EchoRun T) : Prop where
  history : r.complete.inputHistory = r.registered.filter fun p => p.1 ≥ r.complete.echoAck
  justified : r.complete.echoAck = 0 ∨
    ∃ p ∈ r.registered, p.1 = r.complete.echoAck ∧ ∃ time ∈ r.asked, Echoed time p

omit [Emulator T] in
/-- The ack computed from what is left of the history is the largest of all. Only
frames below the ack have been dropped, and the frame of the ack is still echoed,
having grown older. -/
theorem Kept.largest (h : Kept r) (horder : InOrder r.registered) {now : Nat}
    (hnow : ∀ time ∈ r.asked, time ≤ now) :
    LargestEchoed r.registered now (Complete.newestEchoAck r.complete.inputHistory now) ∧
      r.complete.echoAck ≤ Complete.newestEchoAck r.complete.inputHistory now := by
  have hmem {p : Nat × Nat} : p ∈ r.complete.inputHistory ↔
      p ∈ r.registered ∧ r.complete.echoAck ≤ p.1 := by
    rw [h.history, List.mem_filter, decide_eq_true_iff]
  have hsub : InOrder r.complete.inputHistory := by
    rw [h.history]
    exact horder.sublist List.filter_sublist
  have hnewest := Complete.newestEchoAck_largest hsub now
  have hle : r.complete.echoAck ≤ Complete.newestEchoAck r.complete.inputHistory now := by
    rcases h.justified with hzero | ⟨p, hp, hnum, time, htime, hechoed⟩
    · omega
    · -- the acknowledged frame has only grown older
      have hechoed := hechoed.mono (hnow time htime)
      rw [← hnum]
      exact hnewest.bound p (hmem.mpr ⟨hp, Nat.le_of_eq hnum.symm⟩) hechoed
  refine ⟨⟨fun p hp hechoed => ?_, ?_⟩, hle⟩
  · by_cases hkept : r.complete.echoAck ≤ p.1
    · exact hnewest.bound p (hmem.mpr ⟨hp, hkept⟩) hechoed
    · omega
  · rcases hnewest.attained with hzero | ⟨p, hp, hechoed, hnum⟩
    · exact .inl hzero
    · exact .inr ⟨p, (hmem.mp hp).1, hechoed, hnum⟩

omit [Emulator T] in
theorem Kept.register (h : Kept r) {n now : Nat} (hlast : ∀ p ∈ r.registered, p.1 < n ∧ p.2 ≤ now) :
    Kept { r with
      complete := r.complete.registerInputFrame n now
      registered := r.registered ++ [(n, now)] } := by
  have hn : r.complete.echoAck ≤ n := by
    rcases h.justified with hzero | ⟨p, hp, hnum, -⟩
    · omega
    · have := (hlast p hp).1
      omega
  refine ⟨?_, ?_⟩
  · simp only [Complete.registerInputFrame, List.filter_append, h.history]
    simp [hn]
  · rcases h.justified with hzero | ⟨p, hp, hrest⟩
    · exact .inl hzero
    · exact .inr ⟨p, List.mem_append_left _ hp, hrest⟩

omit [Emulator T] in
theorem Kept.ask (h : Kept r) (horder : InOrder r.registered) {now : Nat}
    (hnow : ∀ time ∈ r.asked, time ≤ now) :
    Kept { r with
      complete := (r.complete.setEchoAck now).1
      asked := r.asked ++ [now] } := by
  obtain ⟨hlargest, hle⟩ := h.largest horder hnow
  refine ⟨?_, ?_⟩
  · change r.complete.inputHistory.filter (fun p =>
        p.1 ≥ Complete.newestEchoAck r.complete.inputHistory now)
      = r.registered.filter fun p => p.1 ≥ Complete.newestEchoAck r.complete.inputHistory now
    generalize Complete.newestEchoAck r.complete.inputHistory now = newest at hle
    rw [h.history, List.filter_filter]
    refine List.filter_congr fun p _ => ?_
    have himp : newest ≤ p.1 → r.complete.echoAck ≤ p.1 := Nat.le_trans hle
    simpa using himp
  · rcases hlargest.attained with hzero | ⟨p, hp, hechoed, hnum⟩
    · exact .inl hzero
    · exact .inr ⟨p, hp, hnum, now, by simp, hechoed⟩

theorem Kept.step (h : Kept r) (horder : InOrder r.registered) (hstep : r.step op = some r')
    (hclock : r'.asked.Pairwise (· ≤ ·)) :
    Kept r' ∧ r.complete.echoAck ≤ r'.complete.echoAck := by
  obtain ⟨n, now, hlast, rfl⟩ | ⟨now, rfl⟩ | ⟨hregistered, hasked, hack, hhistory⟩ :=
    step_cases hstep
  · exact ⟨h.register hlast, Nat.le_refl _⟩
  · have hnow : ∀ time ∈ r.asked, time ≤ now := fun time htime =>
      (List.pairwise_append.mp hclock).2.2 time htime now (by simp)
    exact ⟨h.ask horder hnow, (h.largest horder hnow).2⟩
  · refine ⟨⟨?_, ?_⟩, Nat.le_of_eq hack.symm⟩
    · rw [hhistory, hregistered, hack, h.history]
    · rw [hregistered, hasked, hack]
      exact h.justified

theorem asked_step (hstep : r.step op = some r') : r.asked <+: r'.asked := by
  obtain ⟨n, now, -, rfl⟩ | ⟨now, rfl⟩ | ⟨-, hasked, -⟩ := step_cases hstep
  · exact List.prefix_rfl
  · exact List.prefix_append ..
  · exact hasked ▸ List.prefix_rfl

omit [Emulator T] in
theorem Kept.start {init : Complete T} (hack : init.echoAck = 0)
    (hhistory : init.inputHistory = []) :
    Kept (EchoRun.start init) :=
  ⟨hhistory, .inl hack⟩

/-- As long as the clock of the calls does not go back, the history stays kept
and the ack never decreases. -/
theorem Kept.run {ops : List EchoOp} (h : Kept r) (horder : InOrder r.registered)
    (hrun : Run.run EchoRun.step r ops = some r') (hclock : r'.asked.Pairwise (· ≤ ·)) :
    Kept r' ∧ InOrder r'.registered ∧ r.complete.echoAck ≤ r'.complete.echoAck := by
  have hinv : InOrder r'.registered ∧ (r'.asked.Pairwise (· ≤ ·) →
      Kept r' ∧ r.complete.echoAck ≤ r'.complete.echoAck) :=
    Run.run_invariant
      (I := fun s => InOrder s.registered ∧ (s.asked.Pairwise (· ≤ ·) →
        Kept s ∧ r.complete.echoAck ≤ s.complete.echoAck))
      (fun s op s' hs hstep => by
        refine ⟨inOrder_step hs.1 hstep, fun hclock => ?_⟩
        obtain ⟨hkept, hle⟩ := hs.2 (hclock.sublist (asked_step hstep).sublist)
        obtain ⟨hkept', hle'⟩ := hkept.step hs.1 hstep hclock
        exact ⟨hkept', Nat.le_trans hle hle'⟩)
      ⟨horder, fun _ => ⟨h, Nat.le_refl _⟩⟩ hrun
  exact ⟨(hinv.2 hclock).1, hinv.1, (hinv.2 hclock).2⟩

/-- Whatever arrived and whatever was asked in between: the ack is the largest
number ever registered at least 50 ms before, although older entries are gone,
the answer says whether it changed, and no later call lowers it. -/
theorem echo_ack_of_whole_history {init : Complete T} {cols rows : Nat}
    (hnew : Complete.new cols rows = .ok init) (ops : List EchoOp) (r : EchoRun T)
    (hrun : Run.run EchoRun.step (EchoRun.start init) ops = some r) (now : Nat)
    (hclock : (r.asked ++ [now]).Pairwise (· ≤ ·)) :
    LargestEchoed r.registered now (r.complete.setEchoAck now).1.echoAck ∧
      ((r.complete.setEchoAck now).2 = true ↔
        (r.complete.setEchoAck now).1.echoAck ≠ r.complete.echoAck) ∧
      ∀ later r', Run.run EchoRun.step r later = some r' → r'.asked.Pairwise (· ≤ ·) →
        r.complete.echoAck ≤ r'.complete.echoAck := by
  obtain ⟨hack, hhistory⟩ := Complete.new_frame hnew
  obtain ⟨hasked, -, hnow⟩ := List.pairwise_append.mp hclock
  obtain ⟨hkept, horder, -⟩ := (Kept.start hack hhistory).run .nil hrun hasked
  refine ⟨(hkept.largest horder fun time htime => hnow time htime now (by simp)).1, ?_,
    fun later r' hlater hclock' => (hkept.run horder hlater hclock').2.2⟩
  change decide (r.complete.echoAck ≠ Complete.newestEchoAck r.complete.inputHistory now) = true ↔
    Complete.newestEchoAck r.complete.inputHistory now ≠ r.complete.echoAck
  rw [decide_eq_true_iff, ne_comm]

end EchoRun

/-- A run on a fresh 4 by 1 terminal. -/
def echoRun (ops : List EchoOp) : Option (EchoRun VtTerminal) :=
  (Complete.new (T := VtTerminal) 4 1).toOption.bind fun init =>
    Run.run EchoRun.step (.start init) ops

theorem echoRun_some {ops : List EchoOp} {r : EchoRun VtTerminal} (h : echoRun ops = some r) :
    ∃ init, Complete.new 4 1 = .ok init ∧ Run.run EchoRun.step (.start init) ops = some r := by
  obtain ⟨init, hinit, hrun⟩ := Option.bind_eq_some_iff.mp h
  cases hcomplete : Complete.new (T := VtTerminal) 4 1 with
  | ok c =>
      rw [hcomplete] at hinit
      cases hinit
      exact ⟨init, rfl, hrun⟩
  | error e =>
      rw [hcomplete] at hinit
      cases hinit

/-- Three frames, the first of which is echoed and pruned before the third
arrives. -/
def typedAhead : List EchoOp :=
  [.registerInputFrame 1 0, .registerInputFrame 2 (ms 10), .setEchoAck (ms 50), .clone,
    .setEchoAck (ms 60), .act [120], .registerInputFrame 5 (ms 70), .resize 5 1]

theorem EchoRun.echo_ack_of_whole_history_typedAhead :
    ∃ r, echoRun typedAhead = some r ∧ r.complete.inputHistory = [(2, ms 10), (5, ms 70)] ∧
      LargestEchoed r.registered (ms 120) 5 := by
  have heval : (echoRun typedAhead).map (fun r => (r.asked, r.complete.inputHistory,
      (r.complete.setEchoAck (ms 120)).1.echoAck))
      = some ([ms 50, ms 60], [(2, ms 10), (5, ms 70)], 5) := by decide +kernel
  obtain ⟨r, hr, heval⟩ := Option.map_eq_some_iff.mp heval
  obtain ⟨hasked, heval⟩ := Prod.mk.inj heval
  obtain ⟨hhistory, hack⟩ := Prod.mk.inj heval
  obtain ⟨init, hnew, hrun⟩ := echoRun_some hr
  have hlargest := (echo_ack_of_whole_history hnew _ r hrun (ms 120)
    (by rw [hasked]; decide)).1
  exact ⟨r, hr, hhistory, hack ▸ hlargest⟩

end Morsh
