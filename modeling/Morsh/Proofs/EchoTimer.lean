import Morsh.Proofs.EchoAck

/-!
# The echo-ack timer

The wait looks at the second entry of the history. That is right where the
first entry is the frame already acknowledged; before the first frame has been
acknowledged nothing watches that frame, and a history with one entry sets no
timer at all.

`neverOversleeps_iff` turns the property into one about the first frame whose
echo would change the ack. Where the front of the history is the acknowledged
frame that is the second one, for which the timer is set. Pruning leaves the
acknowledged frame in front, so with a clock that does not go back the timer is
right from the first acknowledgment on. `WokenInTime` is what is left when the
front is not acknowledged: that the first frame is echoed no earlier than the
timer goes off, which nothing sees to.
-/

namespace Morsh

namespace Complete

variable {T : Type}

/-- If the echo ack is going to change, the timer goes off by then; without a
timer it is not going to change. -/
def NeverOversleeps (c : Complete T) (now : Nat) : Prop :=
  (∀ time, now ≤ time → (c.setEchoAck time).2 = true →
    ∃ d, c.waitTimeMs now = some d ∧
      ∀ t, now ≤ t → (c.setEchoAck t).2 = true → now + ms d ≤ t) ∧
  (c.waitTimeMs now = none → ∀ time, now ≤ time → (c.setEchoAck time).2 = false)

/-- The first frame of the history is the acknowledged one, and stays it. -/
def HeadAcknowledged (c : Complete T) (now : Nat) : Prop :=
  ∃ p rest, c.inputHistory = p :: rest ∧ p.1 = c.echoAck ∧ (c.echoAck = 0 ∨ Echoed now p)

/-- Nothing is waited for, the frame waited for is the first unacknowledged
one, or the second frame's deadline does for the first one too. -/
def WokenInTime (c : Complete T) (now : Nat) : Prop :=
  c.inputHistory = [] ∨ c.HeadAcknowledged now ∨
    ∃ p q rest, c.inputHistory = p :: q :: rest ∧
      (q.2 + ms ECHO_TIMEOUT_MS < now + ms 1 ∨
        c.echoAck = 0 ∧
          now + (q.2 + ms ECHO_TIMEOUT_MS - now) / ms 1 * ms 1 ≤ p.2 + ms ECHO_TIMEOUT_MS)

/-- What any calls leave behind: a history in order whose first frame, where
one has been acknowledged, is that one. -/
structure Pruned (c : Complete T) : Prop where
  order : InOrder c.inputHistory
  above : ∀ p ∈ c.inputHistory, c.echoAck ≤ p.1
  present : c.echoAck = 0 ∨ ∃ p ∈ c.inputHistory, p.1 = c.echoAck

variable {c : Complete T} {now time : Nat} {p q : Nat × Nat} {rest : List (Nat × Nat)}

theorem setEchoAck_changed :
    (c.setEchoAck time).2 = true ↔ newestEchoAck c.inputHistory time ≠ c.echoAck := by
  change decide (c.echoAck ≠ newestEchoAck c.inputHistory time) = true ↔ _
  rw [decide_eq_true_iff, ne_comm]

theorem neverOversleeps_iff :
    c.NeverOversleeps now ↔ ∀ time, now ≤ time → newestEchoAck c.inputHistory time ≠ c.echoAck →
      ∃ d, c.waitTimeMs now = some d ∧ now + ms d ≤ time := by
  constructor
  · intro h time htime hchanged
    obtain ⟨d, hd, hwake⟩ := h.1 time htime (setEchoAck_changed.mpr hchanged)
    exact ⟨d, hd, hwake time htime (setEchoAck_changed.mpr hchanged)⟩
  · intro h
    refine ⟨fun time htime hchanged => ?_, fun hnone time htime => ?_⟩
    · obtain ⟨d, hd, -⟩ := h time htime (setEchoAck_changed.mp hchanged)
      refine ⟨d, hd, fun t ht hchanged => ?_⟩
      obtain ⟨d', hd', hwake⟩ := h t ht (setEchoAck_changed.mp hchanged)
      rw [hd] at hd'
      exact Option.some.inj hd' ▸ hwake
    · rw [Bool.eq_false_iff]
      intro hchanged
      obtain ⟨d, hd, -⟩ := h time htime (setEchoAck_changed.mp hchanged)
      rw [hnone] at hd
      cases hd

theorem newestEchoAck_head (h : InOrder (p :: rest)) (hrest : ∀ q ∈ rest, ¬ Echoed time q) :
    newestEchoAck (p :: rest) time = if Echoed time p then p.1 else 0 := by
  refine (newestEchoAck_largest h time).unique ⟨fun q hq hechoed => ?_, ?_⟩
  · rcases List.mem_cons.mp hq with rfl | hq
    · exact Nat.le_of_eq (if_pos hechoed).symm
    · exact absurd hechoed (hrest q hq)
  · split
    · next hp => exact .inr ⟨p, by simp, hp, rfl⟩
    · exact .inl rfl

theorem waitTimeMs_cons (h : c.inputHistory = p :: q :: rest) :
    c.waitTimeMs now = some ((q.2 + ms ECHO_TIMEOUT_MS - now) / ms 1) := by
  rw [waitTimeMs, h]
  rfl

theorem waitTimeMs_single (h : c.inputHistory = [p]) : c.waitTimeMs now = none := by
  rw [waitTimeMs, h]
  rfl

theorem Echoed.second (h : InOrder (p :: q :: rest)) {s : Nat × Nat} (hs : s ∈ q :: rest)
    (hechoed : Echoed time s) : Echoed time q := by
  rcases List.mem_cons.mp hs with rfl | hs
  · exact hechoed
  · have hle := ((List.pairwise_cons.mp (List.pairwise_cons.mp h).2).1 s hs).2
    unfold Echoed at *
    omega

theorem Pruned.head (h : Pruned c) (hhistory : c.inputHistory = p :: rest)
    (hack : c.echoAck ≠ 0) : p.1 = c.echoAck := by
  obtain ⟨s, hs, hnum⟩ := h.present.resolve_left hack
  have horder := h.order
  rw [hhistory] at hs horder
  rcases List.mem_cons.mp hs with rfl | hs
  · exact hnum
  · have hlt := ((List.pairwise_cons.mp horder).1 s hs).1
    have hge := h.above p (hhistory ▸ List.mem_cons_self)
    omega

/-- With the acknowledged frame in front, only the second one can change the
ack, and the wait is for it. -/
theorem HeadAcknowledged.neverOversleeps (h : c.HeadAcknowledged now) (hpruned : Pruned c) :
    c.NeverOversleeps now := by
  obtain ⟨p, rest, hhistory, hnum, hold⟩ := h
  refine neverOversleeps_iff.mpr fun time htime hchanged => ?_
  have horder := hpruned.order
  rw [hhistory] at hchanged horder
  by_cases hlater : ∃ s ∈ rest, Echoed time s
  · obtain ⟨s, hs, hechoed⟩ := hlater
    cases rest with
    | nil => cases hs
    | cons q rest =>
        refine ⟨_, waitTimeMs_cons hhistory, ?_⟩
        have hsecond := Echoed.second horder hs hechoed
        simp only [Echoed, ms, ECHO_TIMEOUT_MS] at hsecond ⊢
        omega
  · have hnone : ∀ s ∈ rest, ¬ Echoed time s := fun s hs hechoed => hlater ⟨s, hs, hechoed⟩
    rw [newestEchoAck_head horder hnone] at hchanged
    refine absurd ?_ hchanged
    rcases hold with hzero | hechoed
    · split <;> omega
    · rw [if_pos (hechoed.mono htime), hnum]

theorem WokenInTime.neverOversleeps (h : c.WokenInTime now) (hpruned : Pruned c) :
    c.NeverOversleeps now := by
  rcases h with hnil | hhead | ⟨p, q, rest, hhistory, hwake⟩
  · refine neverOversleeps_iff.mpr fun time htime hchanged => absurd ?_ hchanged
    rcases hpruned.present with hzero | ⟨s, hs, -⟩
    · rw [hnil, newestEchoAck_nil, hzero]
    · rw [hnil] at hs
      cases hs
  · exact hhead.neverOversleeps hpruned
  · refine neverOversleeps_iff.mpr fun time htime hchanged => ⟨_, waitTimeMs_cons hhistory, ?_⟩
    rcases hwake with hsoon | ⟨hzero, hwake⟩
    · simp only [ms, ECHO_TIMEOUT_MS] at hsoon ⊢
      omega
    · have horder := hpruned.order
      have hfirst : Echoed time p := by
        rcases (newestEchoAck_largest horder time).attained with hnone | ⟨s, hs, hechoed, -⟩
        · exact absurd (hnone.trans hzero.symm) hchanged
        · rw [hhistory] at hs horder
          rcases List.mem_cons.mp hs with rfl | hs
          · exact hechoed
          · have hle := ((List.pairwise_cons.mp horder).1 s hs).2
            unfold Echoed at *
            omega
      simp only [Echoed, ms, ECHO_TIMEOUT_MS] at hfirst hwake ⊢
      omega

/-- An unacknowledged first frame changes the ack when it is echoed, and an
acknowledged one that is not old enough changes it at once. -/
theorem Pruned.wokenInTime (h : Pruned c) (hsleep : c.NeverOversleeps now) :
    c.WokenInTime now := by
  have hsleep := neverOversleeps_iff.mp hsleep
  have horder := h.order
  cases hhistory : c.inputHistory with
  | nil => exact .inl hhistory
  | cons p rest =>
      by_cases hhead : c.HeadAcknowledged now
      · exact .inr (.inl hhead)
      have hunheard : p.1 = c.echoAck → c.echoAck ≠ 0 ∧ ¬ Echoed now p := fun hnum =>
        ⟨fun hzero => hhead ⟨p, rest, hhistory, hnum, .inl hzero⟩,
          fun hechoed => hhead ⟨p, rest, hhistory, hnum, .inr hechoed⟩⟩
      have hfresh : p.1 ≠ c.echoAck → c.echoAck = 0 := fun hne => by
        by_contra hack
        exact hne (h.head hhistory hack)
      rw [hhistory] at hsleep horder
      -- when the first frame is echoed, or now if it should have been
      have hchange : ∃ time, now ≤ time ∧ time ≤ max now (p.2 + ms ECHO_TIMEOUT_MS) ∧
          (if Echoed time p then p.1 else 0) ≠ c.echoAck ∧
          (p.1 = c.echoAck → time = now) := by
        by_cases hnum : p.1 = c.echoAck
        · obtain ⟨hack, hold⟩ := hunheard hnum
          refine ⟨now, Nat.le_refl _, Nat.le_max_left .., ?_, fun _ => rfl⟩
          rw [if_neg hold]
          exact hack.symm
        · refine ⟨max now (p.2 + ms ECHO_TIMEOUT_MS), Nat.le_max_left .., Nat.le_refl _, ?_,
            fun h => absurd h hnum⟩
          have hechoed : Echoed (max now (p.2 + ms ECHO_TIMEOUT_MS)) p := by
            unfold Echoed
            omega
          rwa [if_pos hechoed]
      obtain ⟨time, htime, hmax, hchanged, hnow⟩ := hchange
      cases rest with
      | nil =>
          rw [← newestEchoAck_head horder (by simp)] at hchanged
          obtain ⟨d, hd, -⟩ := hsleep time htime hchanged
          rw [waitTimeMs_single hhistory] at hd
          cases hd
      | cons q rest =>
          refine .inr (.inr ⟨p, q, rest, hhistory, ?_⟩)
          by_contra hlate
          obtain ⟨hfar, hlong⟩ := not_or.mp hlate
          have hbefore : time < now + (q.2 + ms ECHO_TIMEOUT_MS - now) / ms 1 * ms 1 := by
            by_cases hnum : p.1 = c.echoAck
            · simp only [hnow hnum, ms, ECHO_TIMEOUT_MS] at hfar ⊢
              omega
            · have hwake := not_and.mp hlong (hfresh hnum)
              simp only [ms, ECHO_TIMEOUT_MS] at hfar hmax hwake ⊢
              omega
          have hnone : ∀ s ∈ q :: rest, ¬ Echoed time s := fun s hs hechoed => by
            have hsecond := Echoed.second horder hs hechoed
            simp only [Echoed, ms, ECHO_TIMEOUT_MS] at hsecond hbefore
            omega
          rw [← newestEchoAck_head horder hnone] at hchanged
          obtain ⟨d, hd, hwake⟩ := hsleep time htime hchanged
          rw [waitTimeMs_cons hhistory] at hd
          cases hd
          simp only [ms, ECHO_TIMEOUT_MS] at hwake hbefore
          omega

end Complete

namespace EchoRun

open Complete

variable {T : Type} [Emulator T]

/-- What holds whatever the clock of the `set_echo_ack` calls does. -/
structure Tidy (r : EchoRun T) : Prop where
  order : InOrder r.registered
  sub : r.complete.inputHistory.Sublist r.registered
  pruned : Pruned r.complete

theorem Tidy.step {r r' : EchoRun T} {op : EchoOp} (h : Tidy r) (hstep : r.step op = some r') :
    Tidy r' := by
  have horder := inOrder_step h.order hstep
  obtain ⟨n, now, hlast, rfl⟩ | ⟨now, rfl⟩ | ⟨hregistered, -, hack, hhistory⟩ := step_cases hstep
  · have hsub := h.sub.append (List.Sublist.refl [(n, now)])
    have hn : r.complete.echoAck ≤ n := by
      rcases h.pruned.present with hzero | ⟨p, hp, hnum⟩
      · omega
      · have := (hlast p (h.sub.subset hp)).1
        omega
    refine ⟨horder, hsub, horder.sublist hsub, fun p hp => ?_, ?_⟩
    · rcases List.mem_append.mp hp with hp | hp
      · exact h.pruned.above p hp
      · rw [List.mem_singleton.mp hp]
        exact hn
    · rcases h.pruned.present with hzero | ⟨p, hp, hnum⟩
      · exact .inl hzero
      · exact .inr ⟨p, List.mem_append_left _ hp, hnum⟩
  · have hsub : ((r.complete.setEchoAck now).1.inputHistory).Sublist r.registered :=
      List.filter_sublist.trans h.sub
    refine ⟨horder, hsub, horder.sublist hsub, fun p hp => ?_, ?_⟩
    · exact of_decide_eq_true (List.mem_filter.mp hp).2
    · rcases (newestEchoAck_largest h.pruned.order now).attained with hzero | ⟨p, hp, -, hnum⟩
      · exact .inl hzero
      · exact .inr ⟨p, List.mem_filter.mpr ⟨hp, decide_eq_true (Nat.le_of_eq hnum.symm)⟩, hnum⟩
  · refine ⟨horder, ?_, ?_, ?_, ?_⟩
    · rw [hhistory, hregistered]
      exact h.sub
    · rw [hhistory]
      exact h.pruned.order
    · rw [hhistory, hack]
      exact h.pruned.above
    · rw [hhistory, hack]
      exact h.pruned.present

omit [Emulator T] in
theorem Tidy.start {init : Complete T} (hack : init.echoAck = 0)
    (hhistory : init.inputHistory = []) : Tidy (EchoRun.start init) where
  order := .nil
  sub := by rw [EchoRun.start, hhistory]
  pruned := ⟨by rw [EchoRun.start, hhistory]; exact .nil, by simp [EchoRun.start, hhistory],
    .inl hack⟩

/-- After any calls the timer is good for the next change of the ack exactly
where it is set for the first unacknowledged frame, or as good as. -/
theorem echo_timer_sound_iff {init : Complete T} {cols rows : Nat}
    (hnew : Complete.new cols rows = .ok init) (ops : List EchoOp) (r : EchoRun T)
    (hrun : Run.run EchoRun.step (EchoRun.start init) ops = some r) (now : Nat) :
    r.complete.NeverOversleeps now ↔ r.complete.WokenInTime now := by
  obtain ⟨hack, hhistory⟩ := Complete.new_frame hnew
  have htidy := Run.run_invariant (I := Tidy) (fun _ _ _ h hstep => h.step hstep)
    (Tidy.start hack hhistory) hrun
  exact ⟨htidy.pruned.wokenInTime, fun h => h.neverOversleeps htidy.pruned⟩

omit [Emulator T] in
/-- Once a frame has been acknowledged, and with a clock that does not go back,
the timer never oversleeps. -/
theorem Kept.neverOversleeps {r : EchoRun T} (h : Kept r) (htidy : Tidy r)
    (hack : r.complete.echoAck ≠ 0) {now : Nat} (hnow : ∀ time ∈ r.asked, time ≤ now) :
    r.complete.NeverOversleeps now := by
  obtain ⟨p, hp, hnum, time, htime, hechoed⟩ := h.justified.resolve_left hack
  have hmem : p ∈ r.complete.inputHistory := by
    rw [h.history]
    exact List.mem_filter.mpr ⟨hp, decide_eq_true (Nat.le_of_eq hnum.symm)⟩
  cases hhistory : r.complete.inputHistory with
  | nil =>
      rw [hhistory] at hmem
      cases hmem
  | cons q rest =>
      have hhead := htidy.pruned.head hhistory hack
      have heq : p = q := by
        rw [hhistory] at hmem
        rcases List.mem_cons.mp hmem with heq | hlater
        · exact heq
        · have horder := htidy.pruned.order
          rw [hhistory] at horder
          have hlt := ((List.pairwise_cons.mp horder).1 p hlater).1
          omega
      exact HeadAcknowledged.neverOversleeps
        ⟨q, rest, hhistory, hhead, .inr (heq ▸ hechoed.mono (hnow time htime))⟩ htidy.pruned

end EchoRun

/-- With frame 2 acknowledged the timer waits for frame 5. -/
theorem EchoRun.echo_timer_sound_iff_typedAhead :
    ∃ r, echoRun typedAhead = some r ∧ r.complete.waitTimeMs (ms 70) = some 50 ∧
      r.complete.NeverOversleeps (ms 70) := by
  have heval : (echoRun typedAhead).map (fun r => (r.complete.waitTimeMs (ms 70),
      r.complete.inputHistory, r.complete.echoAck))
      = some (some 50, [(2, ms 10), (5, ms 70)], 2) := by decide +kernel
  obtain ⟨r, hr, heval⟩ := Option.map_eq_some_iff.mp heval
  obtain ⟨hwait, heval⟩ := Prod.mk.inj heval
  obtain ⟨hhistory, hack⟩ := Prod.mk.inj heval
  obtain ⟨init, hnew, hrun⟩ := echoRun_some hr
  have hhead : r.complete.HeadAcknowledged (ms 70) :=
    ⟨(2, ms 10), [(5, ms 70)], hhistory, hack.symm, .inr (by decide)⟩
  exact ⟨r, hr, hwait, (echo_timer_sound_iff hnew _ r hrun (ms 70)).mpr (.inr (.inl hhead))⟩

/-- Nothing is set to wake the server up for the first frame. -/
theorem first_frame_oversleeps :
    ∃ r, echoRun [.registerInputFrame 1 0] = some r ∧ r.complete.waitTimeMs 0 = none ∧
      (r.complete.setEchoAck (ms 50)).2 = true ∧ ¬ r.complete.NeverOversleeps 0 := by
  have heval : (echoRun [.registerInputFrame 1 0]).map (fun r => (r.complete.waitTimeMs 0,
      (r.complete.setEchoAck (ms 50)).2)) = some (none, true) := by decide +kernel
  obtain ⟨r, hr, heval⟩ := Option.map_eq_some_iff.mp heval
  obtain ⟨hwait, hchanged⟩ := Prod.mk.inj heval
  refine ⟨r, hr, hwait, hchanged, fun h => ?_⟩
  rw [h.2 hwait (ms 50) (Nat.zero_le _)] at hchanged
  cases hchanged

end Morsh
