import Morsh.Client.FrameRun
import Morsh.Prediction.EngineRun
import Morsh.Proofs.Transform
import Morsh.Statesync.Wire

/-!
# The screen does not drift

What `apply_overlay` makes of a cell depends on the predictions of that cell
alone. Where they leave the glyphs of the frame whole the result can be drawn,
and the diff draws it; so the terminal goes from frame to frame with the
client's idea of it.

`applyOverlay` goes over rows and cells, and each of them is a fold; read at one
cell it is the fold of that cell's predictions (`overlaid`), and `paintAll_eq`
says which of them decide. The frame that is painted is thus known cell by cell.
A glyph is kept whole where no prediction is painted over its right half and the
text painted takes the columns of the cell it is painted in; such a frame is
drawable, and the diff between two drawable frames draws the second.

`Accurate` is what goes from frame to frame: in every cell that is not a spacer
the terminal shows what the client believes it shows. Underneath a spacer it may
be wrong, and need not be right. Where a prediction breaks a glyph the belief is
wrong in the cells behind it, and the client has no reason to paint them again.
-/

namespace Morsh

open Vt

namespace PredictionEngine

variable {p : PredictionEngine} {frame : ScreenSnapshot} {x y m : Nat}

/-! ## Cell by cell -/

theorem cell_modifyCell (s : ScreenSnapshot) (f : CellData → CellData) (col row : Nat) :
    (s.modifyCell col row f).cell x y
      = (s.cell x y).map fun c => if y = row ∧ x = col then f c else c := by
  unfold ScreenSnapshot.cell ScreenSnapshot.modifyCell
  dsimp only
  rw [List.getElem?_modify]
  cases hrow : s.rows[y]? with
  | none => rfl
  | some r =>
      simp only [Option.map_eq_map, Option.map_some, Option.bind_some]
      by_cases hy : row = y
      · rw [if_pos hy, List.getElem?_modify]
        cases hcell : r[x]? with
        | none => rfl
        | some c =>
            by_cases hx : col = x
            · simp [hx, hy]
            · simp [hx, Ne.symm hx]
      · rw [if_neg hy]
        cases hcell : r[x]? with
        | none => rfl
        | some c => simp [Ne.symm hy]

/-- Nothing but the contents of cells differs. -/
structure Recelled (s s' : ScreenSnapshot) : Prop where
  rest : s' = { s with rows := s'.rows }
  lengths : s'.rows.map List.length = s.rows.map List.length

theorem Recelled.refl (s : ScreenSnapshot) : Recelled s s := ⟨rfl, rfl⟩

theorem Recelled.trans {s s' s'' : ScreenSnapshot} (h : Recelled s s') (h' : Recelled s' s'') :
    Recelled s s'' := by
  refine ⟨?_, h'.lengths.trans h.lengths⟩
  rw [h'.rest, h.rest]

theorem modifyCell_recelled (s : ScreenSnapshot) (col row : Nat) (f : CellData → CellData) :
    Recelled s (s.modifyCell col row f) := by
  refine ⟨rfl, List.ext_getElem? fun i => ?_⟩
  unfold ScreenSnapshot.modifyCell
  rw [List.getElem?_map, List.getElem?_map, List.getElem?_modify]
  cases s.rows[i]? with
  | none => rfl
  | some r =>
      simp only [Option.map_eq_map, Option.map_some]
      split
      · rw [List.length_modify]
      · rfl

theorem applyCell_recelled (g : ScreenSnapshot) (cell : ConditionalOverlayCell) :
    Recelled g (p.applyCell m g cell) := by
  unfold applyCell
  split
  · exact .refl g
  · exact modifyCell_recelled g cell.col m _

theorem applyCell_cell (g : ScreenSnapshot) (cell : ConditionalOverlayCell) :
    (p.applyCell m g cell).cell x y = (g.cell x y).map fun c =>
      if y = m ∧ cell.col = x ∧ p.paints g.cols cell = true then p.paintOver cell c else c := by
  unfold applyCell
  by_cases hpaints : p.paints g.cols cell = true
  · have hguard : ¬ (!cell.active || cell.isTentative p.confirmedEpoch ||
        decide (cell.col + 1 ≥ g.cols)) = true := by
      unfold paints at hpaints
      grind
    rw [if_neg hguard, cell_modifyCell]
    refine congrArg (fun f => Option.map f (g.cell x y)) (funext fun c => ?_)
    simp only [hpaints, and_true, eq_comm (a := x)]
  · have hguard : (!cell.active || cell.isTentative p.confirmedEpoch ||
        decide (cell.col + 1 ≥ g.cols)) = true := by
      unfold paints at hpaints
      grind
    rw [if_pos hguard]
    simp [hpaints]

/-- Predictions painted one after the other into a cell. -/
def paintAll (p : PredictionEngine) (cells : List ConditionalOverlayCell) (c : CellData) :
    CellData := cells.foldl (fun c cell => p.paintOver cell c) c

variable (p m x y) in
theorem applyCells_cell (cells : List ConditionalOverlayCell) (g : ScreenSnapshot) :
    Recelled g (cells.foldl (p.applyCell m) g) ∧
      (cells.foldl (p.applyCell m) g).cell x y = (g.cell x y).map fun c =>
        if y = m then
          p.paintAll (cells.filter fun cell => cell.col == x && p.paints g.cols cell) c
        else c := by
  induction cells generalizing g with
  | nil =>
      refine ⟨.refl g, ?_⟩
      rw [List.foldl_nil]
      cases g.cell x y with
      | none => rfl
      | some c => simp [paintAll]
  | cons cell rest ih =>
      obtain ⟨hrecelled, hcells⟩ := ih (p.applyCell m g cell)
      have hfirst : Recelled g (p.applyCell m g cell) := applyCell_recelled g cell
      refine ⟨hfirst.trans hrecelled, ?_⟩
      have hcols : (p.applyCell m g cell).cols = g.cols := by rw [hfirst.rest]
      rw [List.foldl_cons, hcells, applyCell_cell, Option.map_map, hcols]
      refine congrArg (fun f => Option.map f (g.cell x y)) (funext fun c => ?_)
      by_cases hy : y = m
      · by_cases hpaint : cell.col = x ∧ p.paints g.cols cell = true
        · simp [hy, hpaint.1, hpaint.2, paintAll]
        · have hskip : (cell.col == x && p.paints g.cols cell) = false := by
            simpa using hpaint
          simp [hy, hpaint, hskip]
      · simp [hy]

variable (p x y) in
theorem applyRow_cell (g : ScreenSnapshot) (row : OverlayRow) :
    Recelled g (p.applyRow g row) ∧
      (p.applyRow g row).cell x y = (g.cell x y).map fun c =>
        if row.rowNum = y ∧ row.rowNum < g.rowsCount then
          p.paintAll (row.cells.filter fun cell => cell.col == x && p.paints g.cols cell) c
        else c := by
  unfold applyRow
  by_cases hout : row.rowNum ≥ g.rowsCount
  · rw [if_pos hout]
    refine ⟨.refl g, ?_⟩
    simp [Nat.not_lt.mpr hout]
  · rw [if_neg hout]
    obtain ⟨hrecelled, hcells⟩ := applyCells_cell p x y row.rowNum row.cells g
    refine ⟨hrecelled, hcells.trans ?_⟩
    simp [Nat.not_le.mp hout, eq_comm (a := y)]

theorem applyRows_cell (rows : List OverlayRow) (g : ScreenSnapshot) :
    Recelled g (rows.foldl p.applyRow g) ∧
      (rows.foldl p.applyRow g).cell x y = (g.cell x y).map
        (p.paintAll ((rows.filter fun row => row.rowNum == y && row.rowNum < g.rowsCount).flatMap
          fun row => row.cells.filter fun cell => cell.col == x && p.paints g.cols cell)) := by
  induction rows generalizing g with
  | nil =>
      refine ⟨.refl g, ?_⟩
      rw [List.foldl_nil]
      cases g.cell x y <;> rfl
  | cons row rest ih =>
      obtain ⟨hrecelled, hcells⟩ := ih (p.applyRow g row)
      obtain ⟨hfirst, hrow⟩ := applyRow_cell p x y g row
      refine ⟨hfirst.trans hrecelled, ?_⟩
      have hcols : (p.applyRow g row).cols = g.cols := by rw [hfirst.rest]
      have hrows : (p.applyRow g row).rowsCount = g.rowsCount := by rw [hfirst.rest]
      rw [List.foldl_cons, hcells, hrow, Option.map_map, hcols, hrows]
      refine congrArg (fun f => Option.map f (g.cell x y)) (funext fun c => ?_)
      by_cases hmatch : row.rowNum = y ∧ row.rowNum < g.rowsCount
      · simp [hmatch.1, hmatch.1 ▸ hmatch.2, paintAll]
      · have hskip : (row.rowNum == y && decide (row.rowNum < g.rowsCount)) = false := by
          simpa using hmatch
        simp [hmatch, hskip]

/-! ## What is painted over a cell -/

/-- A cell with the predictions of its place on it. -/
def overlaid (p : PredictionEngine) (frame : ScreenSnapshot) (y x : Nat) (c : CellData) :
    CellData where
  text := ((p.replacementAt frame y x).map fun ch => [ch]).getD c.text
  wide := c.wide && (p.replacementAt frame y x).isNone
  spacer := c.spacer && (p.replacementAt frame y x).isNone
  style := if p.underlines frame y x then { c.style with underline := true } else c.style

/-- The last prediction that knows its character decides on the text, any that
is underlined on the style. -/
theorem paintAll_eq (cells : List ConditionalOverlayCell) (c : CellData) :
    p.paintAll cells c =
      { text := (((cells.filter fun cell => !cell.unknown).getLast?.map (·.replacement)).map
          fun ch => [ch]).getD c.text
        wide := c.wide && (cells.filter fun cell => !cell.unknown).getLast?.isNone
        spacer := c.spacer && (cells.filter fun cell => !cell.unknown).getLast?.isNone
        style :=
          if cells.any fun cell => p.flagging && p.localFrameLateAcked < cell.expirationFrame then
            { c.style with underline := true }
          else c.style } := by
  induction cells using List.reverseRecOn with
  | nil => simp [paintAll]
  | append_singleton cells cell ih =>
      have hlast : p.paintAll (cells ++ [cell]) c = p.paintOver cell (p.paintAll cells c) := by
        simp [paintAll]
      rw [hlast, ih, paintOver, List.any_append, List.filter_append]
      generalize cells.any _ = earlier
      cases hunknown : cell.unknown <;>
        cases hpending : p.flagging && decide (p.localFrameLateAcked < cell.expirationFrame) <;>
        cases earlier <;> simp [hunknown, hpending]

variable (p frame) in
/-- The frame with the predictions on it. -/
structure Overlays (g : ScreenSnapshot) : Prop where
  rest : g = { frame with rows := g.rows, cursorX := g.cursorX, cursorY := g.cursorY }
  lengths : g.rows.map List.length = frame.rows.map List.length
  cells : ∀ x y, g.cell x y = (frame.cell x y).map (p.overlaid frame y x)
  cursorX : frame.cursorX < frame.cols → g.cursorX < frame.cols
  cursorY : frame.cursorY < frame.rowsCount → g.cursorY < frame.rowsCount

theorem Overlays.applyCursor {g : ScreenSnapshot} (h : Overlays p frame g) :
    Overlays p frame (p.applyCursor g) := by
  obtain ⟨hrest, hlengths, hcells, hx, hy⟩ := h
  have hcols : g.cols = frame.cols := by rw [hrest]
  have hrows : g.rowsCount = frame.rowsCount := by rw [hrest]
  unfold PredictionEngine.applyCursor
  split
  · split
    · next hin =>
        rw [hcols, hrows] at hin
        exact ⟨by rw [hrest], hlengths, hcells, fun _ => hin.2, fun _ => hin.1⟩
    · exact ⟨hrest, hlengths, hcells, hx, hy⟩
  · exact ⟨hrest, hlengths, hcells, hx, hy⟩

variable (p frame) in
theorem applyOverlay_overlays : Overlays p frame (p.applyOverlay frame) := by
  unfold applyOverlay
  by_cases hshown : p.shouldDisplay = true
  · rw [if_neg (by simp [hshown])]
    have hrecelled := fun x y => @applyRows_cell p x y p.overlay.rows frame
    refine Overlays.applyCursor ⟨?_, (hrecelled 0 0).1.lengths, fun x y => ?_, ?_, ?_⟩
    · rw [(hrecelled 0 0).1.rest]
    · refine (hrecelled x y).2.trans (congrArg (fun f => Option.map f _) (funext fun c => ?_))
      rw [paintAll_eq]
      unfold overlaid replacementAt underlines paintedAt
      simp only [if_pos hshown, Option.isNone_map]
    · rw [(hrecelled 0 0).1.rest]
      exact id
    · rw [(hrecelled 0 0).1.rest]
      exact id
  · rw [if_pos (by simpa using hshown)]
    have hnone : ∀ x y, p.paintedAt frame y x = [] := fun x y => if_neg hshown
    refine ⟨rfl, rfl, fun x y => ?_, id, id⟩
    have hsame : p.overlaid frame y x = id := by
      funext c
      simp [overlaid, replacementAt, underlines, hnone]
    rw [hsame, Option.map_id, id]

/-! ## What can be drawn -/

variable [CharWidth]

theorem overlaid_sound (hkeeps : p.KeepsGlyphs frame) {c : CellData} (hc : c.Sound) :
    (p.overlaid frame y x c).Sound := by
  unfold overlaid
  cases hnew : p.replacementAt frame y x with
  | none => exact ⟨hc.printable, by simpa using hc.wide, by simpa using hc.narrow⟩
  | some ch =>
      obtain ⟨hwidth, hprint⟩ := hkeeps.narrow hnew
      refine ⟨fun d hd => ?_, by simp, fun _ => Or.inr ⟨ch, [], rfl, hwidth, ?_⟩⟩
      · rw [List.mem_singleton.mp hd]
        exact hprint
      · exact fun m hm => absurd hm List.not_mem_nil

omit [CharWidth] in
theorem Overlays.row {g : ScreenSnapshot} {row : List CellData} (h : Overlays p frame g)
    (hrow : g.rows[y]? = some row) :
    ∃ plain, frame.rows[y]? = some plain ∧ row.length = plain.length ∧
      ∀ x, row[x]? = plain[x]?.map (p.overlaid frame y x) := by
  have hlength := congrArg (·[y]?) h.lengths
  simp only [List.getElem?_map, hrow, Option.map_some] at hlength
  obtain ⟨plain, hplain, hlen⟩ := Option.map_eq_some_iff.mp hlength.symm
  refine ⟨plain, hplain, hlen.symm, fun x => ?_⟩
  have hcell := h.cells x y
  rwa [ScreenSnapshot.cell, ScreenSnapshot.cell, hrow, hplain] at hcell

theorem Overlays.drawable {g : ScreenSnapshot} (h : Overlays p frame g) (hframe : Drawable frame)
    (hkeeps : p.KeepsGlyphs frame) : Drawable g := by
  have hcols : g.cols = frame.cols := by rw [h.rest]
  have hrows : g.rowsCount = frame.rowsCount := by rw [h.rest]
  refine ⟨?_, fun row hrow => ?_, hcols ▸ h.cursorX hframe.cursorX,
    hrows ▸ h.cursorY hframe.cursorY, ?_⟩
  · rw [hrows, ← hframe.rows]
    simpa using congrArg List.length h.lengths
  · obtain ⟨y, hy⟩ := List.getElem?_of_mem hrow
    obtain ⟨plain, hplain, hlen, hcells⟩ := h.row hy
    have hsound : SoundRow frame.cols plain := hframe.sound plain (List.mem_of_getElem? hplain)
    have hcell : ∀ x, frame.cell x y = plain[x]? := fun x => by rw [ScreenSnapshot.cell, hplain]; rfl
    refine ⟨by rw [hlen, hsound.length, hcols], fun c hc => ?_, fun {x c} hget hwide => ?_⟩
    · obtain ⟨x, hx⟩ := List.getElem?_of_mem hc
      rw [hcells] at hx
      obtain ⟨c₀, hc₀, rfl⟩ := Option.map_eq_some_iff.mp hx
      exact overlaid_sound hkeeps (hsound.sound c₀ (List.mem_of_getElem? hc₀))
    · rw [hcells] at hget
      obtain ⟨c₀, hc₀, rfl⟩ := Option.map_eq_some_iff.mp hget
      obtain ⟨hwide₀, hstays⟩ : c₀.wide = true ∧ p.replacementAt frame y x = none := by
        simpa [overlaid] using hwide
      obtain ⟨hspacer, d, hd, hds, hdw, -⟩ := hsound.paired hc₀ hwide₀
      obtain ⟨hright, hstyles⟩ := hkeeps.halves ((hcell x).trans hc₀) hwide₀ hstays
      refine ⟨by simp [overlaid, hspacer], p.overlaid frame y (x + 1) d, ?_, ?_, ?_, ?_⟩
      · rw [hcells, hd, Option.map_some]
      · simp [overlaid, hds, hright]
      · simp [overlaid, hdw]
      · intro e he hsame
        rw [hcells] at he
        obtain ⟨e₀, he₀, rfl⟩ := Option.map_eq_some_iff.mp he
        -- the styles of the three cells are those of `styleAt`
        have hstyle : ∀ {x c}, plain[x]? = some c →
            p.styleAt frame y x = some (p.overlaid frame y x c).style := fun {x c} hc => by
          rw [styleAt, hcell, hc]
          rfl
        have hleft := hstyles _ (hstyle he₀) (by rw [hstyle hd, hsame])
        rw [hstyle hc₀, Option.some.injEq] at hleft
        rw [hleft, hsame]
  · rw [h.rest]
    exact hframe.title

omit [CharWidth] in
theorem styleAt_of_plain (hplain : p.flagging = false) :
    p.styleAt frame y x = (frame.cell x y).map (·.style) := by
  simp [styleAt, underlines, hplain]

/-- Where nothing is underlined, it is enough that no right half is painted
over. -/
theorem KeepsGlyphs.of_plain (hframe : WellFormed frame) (hplain : p.flagging = false)
    (hnarrow : ∀ {y x ch}, p.replacementAt frame y x = some ch →
      CharWidth.width ch = 1 ∧ Vt.isControl ch = false)
    (hright : ∀ {y x c}, frame.cell x y = some c → c.wide = true →
      p.replacementAt frame y (x + 1) = none) : p.KeepsGlyphs frame := by
  refine ⟨hnarrow, fun {y x c} hc hwide _ => ⟨hright hc hwide, fun style _ hstyle => ?_⟩⟩
  obtain ⟨row, hrow, hget⟩ := Option.bind_eq_some_iff.mp hc
  obtain ⟨-, d, hd, -, -, -, hsame⟩ :=
    (hframe.spaced row (List.mem_of_getElem? hrow)).wide hget hwide
  rw [styleAt_of_plain hplain, ScreenSnapshot.cell, hrow, Option.bind_some, hd] at hstyle
  rw [styleAt_of_plain hplain, hc, Option.map_some, ← hsame]
  exact hstyle

end PredictionEngine

/-! ## What is painted -/

section

variable [CharWidth] {s : Screen CellStyle} {old new : ScreenSnapshot}

theorem diff_redraws (hold : Drawn s old) (hnew : Drawable new) (hcols : old.cols = new.cols)
    (hrows : old.rowsCount = new.rowsCount) :
    ∃ s', Feeds s (DisplayDiff.diff old new) s' ∧ Drawn s' new ∧
      s'.modes 25 = if old.cursorVisible = new.cursorVisible then s.modes 25
        else new.cursorVisible := by
  obtain ⟨s₁, hchanges, hrest, hvisible⟩ :=
    DisplayDiff.stateChanges_rest (s := s) (some old) hnew.title
  obtain ⟨s', hfeeds, hdrawn, hvisible', -⟩ :=
    DisplayDiff.diff_drawn hold hnew hcols hrows hchanges hrest hvisible
  exact ⟨s', hfeeds, hdrawn, hvisible'⟩

/-- A changed screen is drawn with the cursor hidden, and the cursor is then as
the new frame has it. -/
theorem paint_feeds (hold : Drawn s old) (hvisible : s.modes 25 = old.cursorVisible)
    (hnew : Drawable new) (hcols : old.cols = new.cols) (hrows : old.rowsCount = new.rowsCount) :
    ∃ s', Feeds s (paint old new) s' ∧ Drawn s' new ∧ s'.modes 25 = new.cursorVisible := by
  have hdirect : ∃ s', Feeds s (DisplayDiff.diff old new) s' ∧ Drawn s' new ∧
      s'.modes 25 = new.cursorVisible := by
    obtain ⟨s', hfeeds, hdrawn, hmode⟩ := diff_redraws hold hnew hcols hrows
    refine ⟨s', hfeeds, hdrawn, ?_⟩
    rw [hmode, hvisible]
    split
    · assumption
    · rfl
  unfold paint
  dsimp only
  split
  · next hnil =>
      rw [hnil] at hdirect
      exact hdirect
  · split
    · have hhidden : Drawn ((s.setMode true 2026).setMode false 25) old :=
        (hold.setMode true 2026).setMode false 25
      have hstart : Feeds s "\x1b[?2026h\x1b[?25l".toList
          ((s.setMode true 2026).setMode false 25) :=
        (feeds_mode 2026 true).append (feeds_mode 25 false)
      have hend : ∀ {s' : Screen CellStyle}, Feeds s' "\x1b[?2026l".toList
          (s'.setMode false 2026) := feeds_mode 2026 false
      obtain ⟨s₁, hfeeds, hdrawn, hmode⟩ := diff_redraws hhidden hnew hcols hrows
      by_cases hshown : new.cursorVisible = true
      · have hshow : Feeds s₁ "\x1b[?25h".toList (s₁.setMode true 25) :=
          feeds_mode 25 true
        refine ⟨(s₁.setMode true 25).setMode false 2026, ?_,
          (hdrawn.setMode true 25).setMode false 2026, ?_⟩
        · rw [if_pos hshown]
          exact ((hstart.append hfeeds).append hshow).append hend
        · rw [hshown]
          rfl
      · refine ⟨s₁.setMode false 2026, ?_, hdrawn.setMode false 2026, ?_⟩
        · rw [if_neg hshown, List.append_nil]
          exact (hstart.append hfeeds).append hend
        · have hkept : (s₁.setMode false 2026).modes 25 = s₁.modes 25 := rfl
          have hoff : ((s.setMode true 2026).setMode false 25).modes 25 = false := rfl
          rw [hkept, hmode, hoff]
          split
          · exact (Bool.not_eq_true _ ▸ hshown : new.cursorVisible = false).symm
          · rfl
    · exact hdirect

end

/-! ## Frame after frame -/

namespace FrameRun

variable {T : Type} [CharWidth]

/-- The terminal shows the client's idea of it: in every cell that is not a
spacer the same text and style, and the same cursor. -/
def Accurate (s : FrameRun T) : Prop :=
  ∃ screen, s.terminal = ⟨.ground, screen⟩ ∧ Drawn screen s.client.localFramebuffer ∧
    screen.modes 25 = s.client.localFramebuffer.cursorVisible

/-- A frame the terminal can show, of this size, all of its glyphs kept whole by
the predictions. -/
structure Showable (cols rows : Nat) (op : FrameOp T) : Prop where
  wellFormed : WellFormed op.frame
  fitting : ∀ row ∈ op.frame.rows, ∀ c ∈ row, Fitting c
  cols : op.frame.cols = cols
  rows : op.frame.rowsCount = rows
  keeps : op.prediction.KeepsGlyphs op.frame

theorem Accurate.step {cols rows : Nat} {s : FrameRun T} {op : FrameOp T} (h : s.Accurate)
    (hcols : s.client.localFramebuffer.cols = cols)
    (hrows : s.client.localFramebuffer.rowsCount = rows) (hop : Showable cols rows op) :
    ∃ s', s.step op = some s' ∧ s'.Accurate ∧ s'.client.localFramebuffer.cols = cols ∧
      s'.client.localFramebuffer.rowsCount = rows ∧
      s'.client.localFramebuffer = op.prediction.applyOverlay op.frame := by
  obtain ⟨screen, hterminal, hdrawn, hvisible⟩ := h
  have hover := PredictionEngine.applyOverlay_overlays op.prediction op.frame
  have hcols' : (op.prediction.applyOverlay op.frame).cols = cols := by
    rw [hover.rest]
    exact hop.cols
  have hrows' : (op.prediction.applyOverlay op.frame).rowsCount = rows := by
    rw [hover.rest]
    exact hop.rows
  have hnew := hover.drawable (hop.wellFormed.drawable hop.fitting) hop.keeps
  obtain ⟨screen', hfeeds, hdrawn', hvisible'⟩ := paint_feeds hdrawn hvisible hnew
    (hcols.trans hcols'.symm) (hrows.trans hrows'.symm)
  refine ⟨_, rfl, ⟨screen', ?_, hdrawn', hvisible'⟩, hcols', hrows', rfl⟩
  change s.terminal.feed (paint _ _) = _
  rw [hterminal]
  exact hfeeds

omit [CharWidth] in
/-- What an accurate terminal has in a cell that is not a spacer: the text of the
local framebuffer's cell in its style. What is under a wide character is not
looked at. -/
theorem Accurate.cell {s : FrameRun T} {x y : Nat} {c : CellData} (h : s.Accurate)
    (hc : s.client.localFramebuffer.cell x y = some c) (hspacer : c.spacer = false) :
    (s.terminal.screen.grid[y]?.bind fun row => row[x]?) = some c.shownAs := by
  obtain ⟨screen, hterminal, hdrawn, -⟩ := h
  rw [ScreenSnapshot.cell] at hc
  obtain ⟨row, hrow, hc⟩ := Option.bind_eq_some_iff.mp hc
  obtain ⟨hy, hget⟩ := List.getElem?_eq_some_iff.mp hrow
  have hy' : y < screen.grid.length := hdrawn.grid.length_eq ▸ hy
  have hshows := hdrawn.grid.get hy' hy
  rw [List.get_eq_getElem, List.get_eq_getElem, hget] at hshows
  rw [hterminal, List.getElem?_eq_getElem hy']
  exact hshows.cells hc hspacer

/-- However many frames of the one size there are, and whatever is predicted
between them, the terminal shows the last of them with its predictions on it,
where in each the predictions leave the glyphs whole. -/
theorem screen_never_drifts (cols rows : Nat) (s : FrameRun T) (ops : List (FrameOp T))
    (hstart : s.Accurate) (hcols : s.client.localFramebuffer.cols = cols)
    (hrows : s.client.localFramebuffer.rowsCount = rows) (hops : ∀ op ∈ ops, Showable cols rows op) :
    ∃ s', Run.run step s ops = some s' ∧ s'.Accurate ∧
      s'.client.localFramebuffer = (ops.getLast?.map fun op =>
        op.prediction.applyOverlay op.frame).getD s.client.localFramebuffer := by
  suffices h : ∃ s', Run.run FrameRun.step s ops = some s' ∧ s'.Accurate ∧
      s'.client.localFramebuffer.cols = cols ∧ s'.client.localFramebuffer.rowsCount = rows ∧
      s'.client.localFramebuffer = (ops.getLast?.map fun op =>
        op.prediction.applyOverlay op.frame).getD s.client.localFramebuffer by
    obtain ⟨s', hrun, haccurate, -, -, hlast⟩ := h
    exact ⟨s', hrun, haccurate, hlast⟩
  induction ops using List.reverseRecOn with
  | nil => exact ⟨s, rfl, hstart, hcols, hrows, rfl⟩
  | append_singleton ops op ih =>
      obtain ⟨m, hrun, haccurate, hcols', hrows', -⟩ :=
        ih fun op hop => hops op (List.mem_append_left _ hop)
      obtain ⟨s', hstep, haccurate', hcols'', hrows'', hlast⟩ :=
        haccurate.step hcols' hrows' (hops op (by simp))
      refine ⟨s', Run.run_concat.mpr ⟨m, hrun, hstep⟩, haccurate', hcols'', hrows'', ?_⟩
      rw [hlast]
      simp

end FrameRun

/-! ## On concrete screens -/

section

def plainCell (ch : Char) : CellData := ⟨[ch], false, false, .defaultStyle⟩

/-- A wide glyph and its spacer. -/
def wideCells (ch : Char) : List CellData :=
  [⟨[ch], true, false, .defaultStyle⟩, ⟨[], false, true, .defaultStyle⟩]

/-- A screen of one row. -/
def oneLine (row : List CellData) (cursorX : Nat) : ScreenSnapshot :=
  { ScreenSnapshot.new row.length 1 with rows := [row], cursorX := cursorX }

theorem wellFormed_oneLine {row : List CellData} {cursorX : Nat}
    (hwide : ∀ x < row.length, ∀ c ∈ row[x]?, c.wide = true → c.spacer = false ∧
      ∃ d ∈ row[x + 1]?, d.spacer = true ∧ d.wide = false ∧ d.text = [] ∧ d.style = c.style)
    (hspacer : ∀ x < row.length, ∀ c ∈ row[x]?, c.spacer = true →
      x ≠ 0 ∧ ∃ d ∈ row[x - 1]?, d.wide = true)
    (hcursor : cursorX < row.length)
    (hprint : (row.all fun c => c.text.all fun ch => !Vt.isControl ch) = true) :
    WellFormed (oneLine row cursorX) where
  rows := rfl
  cols r hr := congrArg List.length (List.mem_singleton.mp hr)
  spaced r hr := by
    rw [List.mem_singleton.mp hr]
    constructor
    · intro x c hc hw
      exact hwide x (List.getElem?_eq_some_iff.mp hc).1 c hc hw
    · intro x c hc hs
      obtain ⟨hx, d, hd, hw⟩ := hspacer x (List.getElem?_eq_some_iff.mp hc).1 c hc hs
      exact ⟨x - 1, d, (Nat.sub_add_cancel (Nat.pos_of_ne_zero hx)).symm, hd, hw⟩
  cursorX := hcursor
  cursorY := Nat.zero_lt_one
  title _ hc := nomatch hc
  printable r hr c hc ch hch := by
    rw [List.mem_singleton.mp hr] at hc
    simpa using List.all_eq_true.mp (List.all_eq_true.mp hprint c hc) ch hch

/-- A cell of one character at most. -/
def CellData.fits [CharWidth] (c : CellData) : Bool :=
  match c.text with
  | [] => !c.wide
  | [ch] => CharWidth.width ch == if c.wide then 2 else 1
  | _ => false

theorem fitting_oneLine [CharWidth] {row : List CellData} {cursorX : Nat}
    (h : row.all CellData.fits = true) : ∀ r ∈ (oneLine row cursorX).rows, ∀ c ∈ r, Fitting c := by
  intro r hr c hc
  rw [List.mem_singleton.mp hr] at hc
  have hfits := List.all_eq_true.mp h c hc
  unfold CellData.fits at hfits
  unfold Fitting
  split at hfits
  · next hempty =>
      rw [if_neg (by simpa using hfits)]
      exact .inl hempty
  · next ch htext =>
      have hglyph : Glyph (if c.wide then 2 else 1) c.text :=
        ⟨ch, [], htext, by simpa using hfits, fun _ hm => absurd hm List.not_mem_nil⟩
      cases hw : c.wide with
      | true => simpa [hw] using hglyph
      | false => exact .inr (by simpa [hw] using hglyph)
  · cases hfits

/-- The frame `a你b`, an insertion point behind the `a`. -/
def beforeKey : ScreenSnapshot :=
  oneLine ([plainCell 'a'] ++ wideCells '你' ++ [plainCell 'b', .empty, .empty]) 1

/-- And the frame after an `x` there. -/
def afterKey : ScreenSnapshot :=
  oneLine ([plainCell 'a', plainCell 'x'] ++ wideCells '你' ++ [plainCell 'b', .empty]) 2

end

namespace FrameRun

/-- A frame of the server, painted with these predictions. -/
def shown (screen : ScreenSnapshot) (prediction : PredictionEngine) : FrameOp VtTerminal :=
  ⟨.start 0 ⟨true, 0, 0⟩ ⟨[]⟩ ⟨none, screen, 0, []⟩, prediction⟩

/-- A terminal nothing has been painted on. -/
def blank : FrameRun VtTerminal :=
  ⟨⟨(shown (.new 6 1) (.new 0)).endpoint, .new 0, .new 6 1⟩, ⟨.ground, .new 6 1⟩⟩

theorem accurate_blank : blank.Accurate := by
  have hdisplays := (wellFormed_new (by decide) (by decide)).displays_iff.mp (displays_new 6 1)
  exact ⟨.new 6 1, rfl, hdisplays.1.drawn, hdisplays.2⟩

/-- The `a` is typed and echoed; then the rest of the line has come, and the `x`
is typed. -/
def typed : List EngineOp :=
  [.setDisplayPreference .always, .newUserByte 'a' 0 0 6 1 0 (ScreenSnapshot.new 6 1).charAt,
    .setLocalFrameLateAcked 1,
    .validatePredictions 0 (oneLine (plainCell 'a' :: List.replicate 5 .empty) 1).charAt 0 1,
    .newUserByte 'x' 0 1 6 1 0 beforeKey.charAt]

/-- The server echoes the `x` as predicted. -/
def echoed : List EngineOp := typed ++ [.validatePredictions 0 afterKey.charAt 0 2]

/-- The line, the `x` predicted in it, and the line as the server then has it. -/
def inserting (predicted settled : EngineRun) : List (FrameOp VtTerminal) :=
  [shown beforeKey (.new 0), shown beforeKey predicted.engine, shown afterKey settled.engine]

/-- The glyph moves one column to the right in a cell that is not wide, so the
`b` behind it is written one column too far; and there it stays, since the
client takes it to be where the server has it. -/
theorem screen_drifts : letI := wcwidths
    ∃ predicted settled s', Run.run EngineRun.step (.new 0) typed = some predicted ∧
      Run.run EngineRun.step (.new 0) echoed = some settled ∧
      (∀ op ∈ inserting predicted settled, WellFormed op.frame ∧
        (∀ row ∈ op.frame.rows, ∀ c ∈ row, Fitting c) ∧ op.frame.cols = 6 ∧
        op.frame.rowsCount = 1) ∧
      blank.Accurate ∧ Run.run step blank (inserting predicted settled) = some s' ∧
      ¬ s'.Accurate := by
  let _ : CharWidth := wcwidths
  have heval : (Run.run EngineRun.step (.new 0) typed).bind (fun predicted =>
      (Run.run EngineRun.step (.new 0) echoed).bind fun settled =>
        (Run.run step blank (inserting predicted settled)).map fun s' =>
          (s'.client.localFramebuffer.cell 4 0,
            s'.terminal.screen.grid[0]?.bind fun row => row[4]?))
      = some (some (plainCell 'b'), some ⟨[' '], .defaultStyle, .narrow⟩) := by decide +kernel
  obtain ⟨predicted, hpredicted, heval⟩ := Option.bind_eq_some_iff.mp heval
  obtain ⟨settled, hsettled, heval⟩ := Option.bind_eq_some_iff.mp heval
  obtain ⟨s', hrun, hcells⟩ := Option.map_eq_some_iff.mp heval
  obtain ⟨hmodel, hscreen⟩ := Prod.mk.inj hcells
  have hbefore : WellFormed beforeKey :=
    wellFormed_oneLine (by decide) (by decide) (by decide) (by decide)
  have hafter : WellFormed afterKey :=
    wellFormed_oneLine (by decide) (by decide) (by decide) (by decide)
  have hfitsBefore : ∀ row ∈ beforeKey.rows, ∀ c ∈ row, Fitting c := fitting_oneLine (by decide)
  have hfitsAfter : ∀ row ∈ afterKey.rows, ∀ c ∈ row, Fitting c := fitting_oneLine (by decide)
  refine ⟨predicted, settled, s', hpredicted, hsettled, fun op hop => ?_, accurate_blank, hrun,
    fun haccurate => ?_⟩
  · simp only [inserting, List.mem_cons, List.not_mem_nil, or_false] at hop
    rcases hop with rfl | rfl | rfl
    · exact ⟨hbefore, hfitsBefore, rfl, rfl⟩
    · exact ⟨hbefore, hfitsBefore, rfl, rfl⟩
    · exact ⟨hafter, hfitsAfter, rfl, rfl⟩
  · have hcell := haccurate.cell hmodel rfl
    rw [hscreen] at hcell
    exact absurd hcell (by decide)

def expectedCell (col : Nat) (ch : Char) : ConditionalOverlayCell :=
  { ConditionalOverlayCell.new col 0 0 with
    active := true
    replacement := ch }

/-- One prediction in the first row, and it is not tentative. -/
def expecting (col : Nat) (ch : Char) : PredictionEngine :=
  { PredictionEngine.new 0 with
    overlay := ⟨[⟨0, [expectedCell col ch]⟩]⟩
    displayPreference := .always }

theorem replacementAt_expecting (col : Nat) (ch : Char) (row : List CellData) (n y x : Nat) :
    (expecting col ch).replacementAt (oneLine row n) y x
      = if y = 0 ∧ x = col ∧ col + 1 < row.length then some ch else none := by
  have hshown : (expecting col ch).shouldDisplay = true := rfl
  have hpaints : (expecting col ch).paints row.length (expectedCell col ch)
      = decide (col + 1 < row.length) := by
    simp only [PredictionEngine.paints, expecting, expectedCell, ConditionalOverlayCell.new,
      ConditionalOverlayCell.isTentative]
    rfl
  have hrows : (expecting col ch).overlay.rows = [⟨0, [expectedCell col ch]⟩] := rfl
  have hcol : (expectedCell col ch).col = col := rfl
  have hknown : (expectedCell col ch).unknown = false := rfl
  have hreplacement : (expectedCell col ch).replacement = ch := rfl
  have hcols : (oneLine row n).cols = row.length := rfl
  have hcount : (oneLine row n).rowsCount = 1 := rfl
  unfold PredictionEngine.replacementAt PredictionEngine.paintedAt
  rw [if_pos hshown, hrows, hcols, hcount]
  by_cases hy : y = 0
  · by_cases hx : x = col ∧ col + 1 < row.length
    · simp [hy, hx, hcol, hpaints, hknown, hreplacement]
    · have hskip : (col == x && decide (col + 1 < row.length)) = false := by
        simpa [eq_comm (a := x)] using hx
      simp [hy, hx, hcol, hpaints, hskip]
  · simp [hy, Ne.symm hy]

/-- The line, and a letter predicted at its end. -/
theorem screen_never_drifts_appended : letI := wcwidths
    ∃ s', Run.run step blank [shown beforeKey (.new 0), shown beforeKey (expecting 4 'c')]
      = some s' ∧ s'.Accurate ∧
      s'.client.localFramebuffer = (expecting 4 'c').applyOverlay beforeKey := by
  let _ : CharWidth := wcwidths
  have hbefore : WellFormed beforeKey :=
    wellFormed_oneLine (by decide) (by decide) (by decide) (by decide)
  have hfits : ∀ row ∈ beforeKey.rows, ∀ c ∈ row, Fitting c := fitting_oneLine (by decide)
  refine screen_never_drifts 6 1 blank _ accurate_blank rfl rfl fun op hop => ?_
  rcases List.mem_pair.mp hop with rfl | rfl
  · exact ⟨hbefore, hfits, rfl, rfl, .of_plain hbefore rfl nofun fun _ _ => rfl⟩
  · refine ⟨hbefore, hfits, rfl, rfl, .of_plain hbefore rfl ?_ ?_⟩
    · intro y x ch hch
      change (expecting 4 'c').replacementAt (oneLine _ 1) y x = some ch at hch
      rw [replacementAt_expecting] at hch
      split at hch
      · cases hch
        exact ⟨rfl, rfl⟩
      · cases hch
    · intro y x c hc hwide
      change (expecting 4 'c').replacementAt (oneLine _ 1) y (x + 1) = none
      rw [replacementAt_expecting, if_neg]
      rintro ⟨rfl, hx, -⟩
      obtain rfl : x = 3 := Nat.succ.inj hx
      cases hc
      cases hwide

end FrameRun

end Morsh
