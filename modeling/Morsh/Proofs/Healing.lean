import Morsh.Client.Frame

/-!
# Predictions heal

A validation leaves a cell or a cursor predicted only where it is pending, that
is where its frame has not been late-acked yet. Whatever else the scan meets is
either reset on the spot or resets everything.

The scan goes over cells, rows and the engine, so there is one lemma for each:
once it has decided to reset everything it does not go back on it, and a cell
that it keeps is as it was and pending. After the scan either everything has been
dropped or what is left is what was kept. For the frame it is then enough that a
cell without a prediction paints nothing.
-/

namespace Morsh

theorem ConditionalOverlayCell.pending_of_getValidity {cell : ConditionalOverlayCell}
    {actual : Char}
    {rows cols early late : Nat} (h : cell.getValidity actual rows cols early late = .pending) :
    late < cell.expirationFrame := by
  unfold getValidity at h
  grind

theorem ConditionalOverlayCell.inactive_of_getValidity {cell : ConditionalOverlayCell}
    {actual : Char} {rows cols early late : Nat}
    (h : cell.getValidity actual rows cols early late = .inactive) : cell.active = false := by
  unfold getValidity at h
  grind

theorem ConditionalCursorMove.pending_of_getValidity {cursor : ConditionalCursorMove}
    {row col rows cols late : Nat} (h : cursor.getValidity row col rows cols late = .pending) :
    cursor.active = true ∧ late < cursor.expirationFrame := by
  unfold getValidity at h
  grind

namespace PredictionEngine

variable {p : PredictionEngine} {now : Nat}

/-- A scan that has decided to reset everything does not go back on it. -/
theorem scanCell_judged {actual : Char} {scan : Scan} {cell : ConditionalOverlayCell}
    (h : scan.shouldReset = true) : (p.scanCell now actual scan cell).1.shouldReset = true := by
  unfold scanCell
  split
  · rfl
  · dsimp only
    split <;> exact h
  · exact h
  · dsimp only
    split
    · exact h
    · split <;> exact h
  · exact h

/-- A cell still predicted after a scan that resets nothing is as it was, and
its frame has not been late-acked. -/
theorem scanCell_kept {actual : Char} {scan : Scan} {cell : ConditionalOverlayCell}
    (h : (p.scanCell now actual scan cell).1.shouldReset = false)
    (hactive : (p.scanCell now actual scan cell).2.active = true) :
    (p.scanCell now actual scan cell).2 = cell ∧ p.localFrameLateAcked < cell.expirationFrame := by
  unfold scanCell at h hactive ⊢
  split at h
  · cases h
  · next hvalidity =>
      rw [hvalidity] at hactive
      cases hactive
  · next hvalidity =>
      rw [hvalidity] at hactive
      cases hactive
  · next hvalidity =>
      exact ⟨rfl, ConditionalOverlayCell.pending_of_getValidity hvalidity⟩
  · next hvalidity =>
      rw [hvalidity] at hactive
      have hnot := ConditionalOverlayCell.inactive_of_getValidity hvalidity
      cases hnot.symm.trans hactive

theorem scanCells_judged {getCell : Nat → Char} {scan : Scan} {cells : List ConditionalOverlayCell}
    (h : scan.shouldReset = true) : (p.scanCells now getCell scan cells).1.shouldReset = true := by
  induction cells generalizing scan with
  | nil => exact h
  | cons cell rest ih => exact ih (scanCell_judged h)

theorem scanCells_kept {getCell : Nat → Char} {scan : Scan} {cells : List ConditionalOverlayCell}
    (h : (p.scanCells now getCell scan cells).1.shouldReset = false) :
    ∀ cell ∈ (p.scanCells now getCell scan cells).2, cell.active = true →
      cell ∈ cells ∧ p.localFrameLateAcked < cell.expirationFrame := by
  induction cells generalizing scan with
  | nil => exact fun cell hcell => absurd hcell List.not_mem_nil
  | cons first rest ih =>
      change (p.scanCells now getCell (p.scanCell now (getCell first.col) scan first).1
        rest).1.shouldReset = false at h
      have hfirst : (p.scanCell now (getCell first.col) scan first).1.shouldReset = false := by
        by_contra hjudged
        exact absurd (h.symm.trans (scanCells_judged (eq_true_of_ne_false hjudged)))
          Bool.false_ne_true
      intro cell hcell hactive
      rcases List.mem_cons.mp hcell with hcell | hcell
      · obtain ⟨heq, hpending⟩ := scanCell_kept hfirst (hcell ▸ hactive)
        obtain rfl : cell = first := hcell.trans heq
        exact ⟨List.mem_cons_self, hpending⟩
      · obtain ⟨hmem, hpending⟩ := ih h cell hcell hactive
        exact ⟨List.mem_cons_of_mem _ hmem, hpending⟩

theorem scanRows_judged {getCell : Nat → Nat → Char} {scan : Scan} {rows : List OverlayRow}
    (h : scan.shouldReset = true) : (p.scanRows now getCell scan rows).1.shouldReset = true := by
  induction rows generalizing scan with
  | nil => exact h
  | cons row rest ih => exact ih (scanCells_judged h)

theorem scanRows_kept {getCell : Nat → Nat → Char} {scan : Scan} {rows : List OverlayRow}
    (h : (p.scanRows now getCell scan rows).1.shouldReset = false) :
    ∀ row ∈ (p.scanRows now getCell scan rows).2, ∀ cell ∈ row.cells, cell.active = true →
      (∃ old ∈ rows, cell ∈ old.cells) ∧ p.localFrameLateAcked < cell.expirationFrame := by
  induction rows generalizing scan with
  | nil => exact fun row hrow => absurd hrow List.not_mem_nil
  | cons first rest ih =>
      change (p.scanRows now getCell (p.scanCells now (getCell first.rowNum) scan first.cells).1
        rest).1.shouldReset = false at h
      have hfirst : (p.scanCells now (getCell first.rowNum) scan first.cells).1.shouldReset
          = false := by
        by_contra hjudged
        exact absurd (h.symm.trans (scanRows_judged (eq_true_of_ne_false hjudged)))
          Bool.false_ne_true
      intro row hrow cell hcell hactive
      rcases List.mem_cons.mp hrow with rfl | hrow
      · obtain ⟨hmem, hpending⟩ := scanCells_kept hfirst cell hcell hactive
        exact ⟨⟨first, List.mem_cons_self, hmem⟩, hpending⟩
      · obtain ⟨⟨old, hold, hmem⟩, hpending⟩ := ih h row hrow cell hcell hactive
        exact ⟨⟨old, List.mem_cons_of_mem _ hold, hmem⟩, hpending⟩

/-- After a validation everything still predicted was predicted before it, and
is pending. -/
theorem validatePredictions_kept (p : PredictionEngine) (now : Nat) (getCell : Nat → Nat → Char)
    (cursorRow cursorCol : Nat) :
    (∀ row ∈ (p.validatePredictions now getCell cursorRow cursorCol).overlay.rows,
      ∀ cell ∈ row.cells, cell.active = true →
        (∃ old ∈ p.overlay.rows, cell ∈ old.cells) ∧
          p.localFrameLateAcked < cell.expirationFrame) ∧
    ∀ cursor ∈ (p.validatePredictions now getCell cursorRow cursorCol).cursors,
      cursor ∈ p.cursors ∧ cursor.active = true ∧
        p.localFrameLateAcked < cursor.expirationFrame := by
  unfold validatePredictions
  dsimp only
  split
  · exact ⟨fun row hrow => absurd hrow List.not_mem_nil, fun c hc => absurd hc List.not_mem_nil⟩
  · next hreset =>
      rw [Bool.or_eq_true, not_or] at hreset
      refine ⟨scanRows_kept (eq_false_of_ne_true hreset.1), fun c hc => ?_⟩
      obtain ⟨hmem, hpending⟩ := List.mem_filter.mp hc
      exact ⟨hmem, ConditionalCursorMove.pending_of_getValidity (of_decide_eq_true hpending)⟩

theorem validatePredictions_lateAcked (p : PredictionEngine) (now : Nat)
    (getCell : Nat → Nat → Char) (cursorRow cursorCol : Nat) :
    (p.validatePredictions now getCell cursorRow cursorCol).localFrameLateAcked
      = p.localFrameLateAcked := by
  unfold validatePredictions
  dsimp only
  split <;> rfl

/-! ## The frame -/

theorem applyCell_inactive {rowNum : Nat} {frame : ScreenSnapshot} {cell : ConditionalOverlayCell}
    (h : cell.active = false) : p.applyCell rowNum frame cell = frame := by
  rw [applyCell, h]
  rfl

theorem applyRow_inactive {frame : ScreenSnapshot} {row : OverlayRow}
    (h : ∀ cell ∈ row.cells, cell.active = false) : p.applyRow frame row = frame := by
  obtain ⟨rowNum, cells⟩ := row
  have hcells : cells.foldl (p.applyCell rowNum) frame = frame := by
    induction cells with
    | nil => rfl
    | cons cell rest ih =>
        rw [List.foldl_cons, applyCell_inactive (h cell List.mem_cons_self)]
        exact ih fun cell hcell => h cell (List.mem_cons_of_mem _ hcell)
  unfold applyRow
  split
  · rfl
  · exact hcells

/-- Without a predicted cell or cursor the frame is the server's. An inactive cell
is passed over by the fold over its row, whatever replacement it still carries. -/
theorem applyOverlay_inactive {frame : ScreenSnapshot} (hcursors : p.cursors = [])
    (h : ∀ row ∈ p.overlay.rows, ∀ cell ∈ row.cells, cell.active = false) :
    p.applyOverlay frame = frame := by
  have hrows : p.overlay.rows.foldl p.applyRow frame = frame := by
    generalize p.overlay.rows = rows at h
    induction rows with
    | nil => rfl
    | cons row rest ih =>
        rw [List.foldl_cons, applyRow_inactive (h row List.mem_cons_self)]
        exact ih fun row hrow => h row (List.mem_cons_of_mem _ hrow)
  have hcursor : p.displayCursor = none := by
    rw [displayCursor, hcursors]
    split <;> rfl
  unfold applyOverlay
  split
  · rfl
  · rw [hrows, applyCursor, hcursor]

/-- After a validation against any screen and cursor, whatever is still
predicted expires after the late-acked frame; and where every prediction had
expired, nothing is painted over any frame. -/
theorem predictions_heal (p : PredictionEngine) (now : Nat) (getCell : Nat → Nat → Char)
    (cursorRow cursorCol : Nat) :
    let healed := p.validatePredictions now getCell cursorRow cursorCol
    (∀ row ∈ healed.overlay.rows, ∀ cell ∈ row.cells, cell.active = true →
      healed.localFrameLateAcked < cell.expirationFrame) ∧
    (∀ cursor ∈ healed.cursors, healed.localFrameLateAcked < cursor.expirationFrame) ∧
    ((∀ row ∈ p.overlay.rows, ∀ cell ∈ row.cells, cell.active = true →
        cell.expirationFrame ≤ p.localFrameLateAcked) →
      (∀ cursor ∈ p.cursors, cursor.active = true →
        cursor.expirationFrame ≤ p.localFrameLateAcked) →
      ∀ frame : ScreenSnapshot, healed.applyOverlay frame = frame) := by
  intro healed
  obtain ⟨hcells, hcursors⟩ := p.validatePredictions_kept now getCell cursorRow cursorCol
  have hlate : healed.localFrameLateAcked = p.localFrameLateAcked :=
    p.validatePredictions_lateAcked now getCell cursorRow cursorCol
  refine ⟨fun row hrow cell hcell hactive => ?_, fun cursor hcursor => ?_,
    fun hexpired hexpired' frame => applyOverlay_inactive ?_ fun row hrow cell hcell => ?_⟩
  · rw [hlate]
    exact (hcells row hrow cell hcell hactive).2
  · rw [hlate]
    exact (hcursors cursor hcursor).2.2
  · refine List.eq_nil_iff_forall_not_mem.mpr fun cursor hcursor => ?_
    obtain ⟨hmem, hactive, hpending⟩ := hcursors cursor hcursor
    exact absurd (hexpired' cursor hmem hactive) (Nat.not_le.mpr hpending)
  · by_contra hactive
    have hactive := eq_true_of_ne_false hactive
    obtain ⟨⟨old, hold, hmem⟩, hpending⟩ := hcells row hrow cell hcell hactive
    exact absurd (hexpired old hold cell hmem hactive) (Nat.not_le.mpr hpending)

/-- A key typed on a blank screen that turns out to show something else. -/
def mistyped : Option PredictionEngine :=
  (((new 0).setDisplayPreference .always).newUserByte 'a' 0 0 3 1 0 fun _ _ => ' ').map
    (·.setLocalFrameLateAcked 1)

theorem predictions_heal_mistyped :
    ∃ p, mistyped = some p ∧ p.isActive = true ∧
      ∀ frame : ScreenSnapshot,
        (p.validatePredictions 0 (fun _ _ => 'x') 0 2).applyOverlay frame = frame :=
  ⟨mistyped.get (by decide +kernel), (Option.some_get _).symm, by decide +kernel,
    (predictions_heal _ 0 (fun _ _ => 'x') 0 2).2.2 (by decide +kernel) (by decide +kernel)⟩

end PredictionEngine

end Morsh
