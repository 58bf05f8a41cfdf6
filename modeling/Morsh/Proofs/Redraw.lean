import Morsh.Proofs.Transform

/-!
# The full redraw

The sequences ahead of the rows leave a blank screen without a scrolling
region, whatever the terminal was showing, so the rows are written on blank
ones. Each row starts at its own position with the plain pen and is written from
the left without a gap. What is not set anew is the title of a terminal that has
one, where the snapshot has none.

The proof goes down the output. Resetting the pen, the region and the screen
brings any terminal to `Cleared`, where only the modes and the title are left of
what was there. The rows are written from there by induction over the cells of a
row and over the rows; a cell never has to look at what it covers, since to its
right everything is blank. The state changes come last and are those of a diff
against nothing, which sets every mode and says nothing of an empty title.
-/

namespace Morsh

open Vt

namespace DisplayDiff

variable [CharWidth] {s s' : Screen CellStyle} {cols y x : Nat} {row : List CellData}
  {rows : List (List CellData)} {tr : Row CellStyle} {snap : ScreenSnapshot}

theorem feeds_plain {pen : CellStyle} (hpen : s.pen = pen) :
    Feeds s (if pen.isDefault then [] else csi [0] 'm') { s with pen := .defaultStyle } := by
  by_cases hdefault : pen.isDefault = true
  · have hsame : ({ s with pen := .defaultStyle } : Screen CellStyle) = s := by
      rw [← of_decide_eq_true hdefault, ← hpen]
    rw [if_pos hdefault, hsame]
    exact Feeds.nil
  · rw [if_neg hdefault]
    exact feeds_csi (by decide) [0]

theorem feeds_style {style pen : CellStyle} (hpen : s.pen = pen) :
    Feeds s (if style ≠ pen then setPen style else []) { s with pen := style } := by
  by_cases hsame : style = pen
  · have hkept : ({ s with pen := style } : Screen CellStyle) = s := by rw [hsame, ← hpen]
    rw [if_neg (not_not.mpr hsame), hkept]
    exact Feeds.nil
  · rw [if_pos hsame]
    exact feeds_setPen style

omit [CharWidth] in
theorem redrawRow_nil (fuel : Nat) (pen : CellStyle) :
    redrawRow fuel [] pen = if pen.isDefault then [] else csi [0] 'm' := by
  cases fuel <;> rfl

/-- The cells from column `x` on, the cursor standing there. -/
theorem redrawRow_feeds (hnew : SoundRow cols row) (fuel : Nat) {pen : CellStyle}
    (hfuel : cols ≤ x + fuel) (h : Standing cols y [] row x pen (some (y + 1, x + 1)) s tr) :
    ∃ s' tr', Feeds s (redrawRow fuel (row.drop x) pen) s' ∧ OnRow s s' y tr' ∧
      Shows cols tr' row ∧ s'.pen = .defaultStyle := by
  induction fuel generalizing x pen s tr with
  | zero =>
      have hend : row.drop x = [] := List.drop_eq_nil_of_le (hnew.length ▸ hfuel)
      rw [hend, redrawRow_nil]
      exact ⟨_, tr, feeds_plain h.pen, .same h.row ⟨rfl, rfl, rfl, rfl, rfl, rfl⟩ rfl,
        h.reached.finish hnew hfuel, rfl⟩
  | succ fuel ih =>
      by_cases hx : x < cols
      · have hlt : x < row.length := hnew.length ▸ hx
        have hget : row[x]? = some row[x] := List.getElem?_eq_getElem hlt
        obtain ⟨hy, hsx, hwrap⟩ := h.tracked rfl (h.width ▸ hx)
        let s₁ : Screen CellStyle := { s with pen := row[x].style }
        have hrow : s₁.grid[s₁.y]? = some tr := hy ▸ h.row
        have hreached : Reached cols [] row s₁.x tr := hsx ▸ h.reached
        obtain ⟨s₂, tr₂, hshown, honrow, hstanding⟩ := writeCell_feeds (s := s₁) hnew
          (hsx ▸ hget) hrow hreached h.width (hy ▸ h.height) hwrap rfl
        change OnRow s₁ s₂ s.y tr₂ at honrow
        change Standing cols s.y [] row (s.x + _) _ (some (s.y + 1, s.x + 1 + _)) s₂ tr₂
          at hstanding
        rw [hy] at honrow hstanding
        rw [hsx, Nat.add_right_comm] at hstanding
        obtain ⟨s₃, tr₃, hfeeds, honrow₃, hshows, hpen⟩ := ih (by split <;> omega) hstanding
        have hdrop : row.drop (x + if row[x].wide then 2 else 1)
            = if row[x].wide then (row.drop (x + 1)).drop 1 else row.drop (x + 1) := by
          split
          · rw [List.drop_drop]
          · rfl
        have hstyled : OnRow s s₂ y tr₂ :=
          ⟨⟨honrow.frame.cols, honrow.frame.rows, honrow.frame.top, honrow.frame.bottom,
            honrow.frame.modes, honrow.frame.title⟩, honrow.grid⟩
        refine ⟨s₃, tr₃, ?_, hstyled.trans honrow₃, hshows, hpen⟩
        rw [List.drop_eq_getElem_cons hlt, redrawRow, ← hdrop]
        exact ((feeds_style h.pen).append hshown).append hfeeds
      · have hend : cols ≤ x := Nat.le_of_not_lt hx
        rw [List.drop_eq_nil_of_le (hnew.length ▸ hend), redrawRow_nil]
        exact ⟨_, tr, feeds_plain h.pen, .same h.row ⟨rfl, rfl, rfl, rfl, rfl, rfl⟩ rfl,
          h.reached.finish hnew hend, rfl⟩

/-- The rows, written on rows of which nothing is known but that they are
whole. -/
theorem redrawRows_feeds {above below : List (Row CellStyle)} (hgrid : s.grid = above ++ below)
    (hcols : s.cols = cols) (hpos : 0 < cols) (hlength : s.grid.length = s.rows)
    (hbelow : List.Forall₂ (fun tr _ => Shows cols tr []) below rows)
    (hnew : ∀ row ∈ rows, SoundRow cols row) (hpen : s.pen = .defaultStyle) :
    ∃ s' below', Feeds s (redrawRows above.length rows) s' ∧ Frame s s' ∧
      s'.grid = above ++ below' ∧ List.Forall₂ (Shows cols) below' rows ∧
      s'.pen = .defaultStyle := by
  induction rows generalizing s above below with
  | nil =>
      cases hbelow
      exact ⟨s, [], Feeds.nil, .refl s, hgrid, .nil, hpen⟩
  | cons row rows ih =>
      cases hbelow with
      | @cons tr _ below _ hfirst hrest =>
          have hrow : s.grid[above.length]? = some tr := by simp [hgrid]
          have hheight : above.length < s.rows := hlength ▸ (List.getElem?_eq_some_iff.mp hrow).1
          let s₁ : Screen CellStyle := { s with y := above.length, x := 0, pendingWrap := false }
          have hcup : Feeds s (cup (above.length + 1) 1) s₁ := feeds_cup hheight (hcols ▸ hpos)
          have hsound := hnew row List.mem_cons_self
          have hstart : Standing cols above.length [] row 0 .defaultStyle
              (some (above.length + 1, 0 + 1)) s₁ tr :=
            { width := hcols, height := hheight, row := hrow, reached := .start hfirst,
              pen := hpen, tracked := fun _ _ => ⟨rfl, rfl, rfl⟩ }
          obtain ⟨s₂, tr₂, hfeeds, honrow, hshows, hpen₂⟩ :=
            redrawRow_feeds hsound row.length (by rw [hsound.length]; exact Nat.le_add_left _ _)
              hstart
          have hgrid₂ : s₂.grid = (above ++ [tr₂]) ++ below := by
            rw [honrow.grid]
            change s.grid.set above.length tr₂ = _
            simp [hgrid]
          have hmoved : Frame s s₁ := ⟨rfl, rfl, rfl, rfl, rfl, rfl⟩
          have hframe₂ : Frame s s₂ := hmoved.trans honrow.frame
          have hlength₂ : s₂.grid.length = s₂.rows := by
            rw [honrow.grid, List.length_set, hframe₂.rows]
            exact hlength
          obtain ⟨s₃, below₃, hfeeds₃, hframe₃, hgrid₃, hshows₃, hpen₃⟩ :=
            ih hgrid₂ (hframe₂.cols.trans hcols) hlength₂ hrest
              (fun q hq => hnew q (List.mem_cons_of_mem row hq)) hpen₂
          rw [List.length_append] at hfeeds₃
          exact ⟨s₃, tr₂ :: below₃, (hcup.append hfeeds).append hfeeds₃, hframe₂.trans hframe₃,
            by simpa using hgrid₃, .cons hshows hshows₃, hpen₃⟩

/-- A screen of blanks, nothing left of what the terminal was showing but its
modes and its title. -/
structure Cleared (s s' : Screen CellStyle) : Prop where
  cols : s'.cols = s.cols
  rows : s'.rows = s.rows
  grid : s'.grid = List.replicate s.rows (List.replicate s.cols (.blank .defaultStyle))
  top : s'.top = 0
  bottom : s'.bottom = s.rows - 1
  pen : s'.pen = .defaultStyle
  hidden : s'.modes 25 = false
  title : s'.title = s.title

omit [CharWidth] in
/-- Without parameters the region is the whole screen; on one line it cannot have
been anything else. -/
theorem setMargins_whole (htop : s.top ≤ s.bottom) (hbottom : s.bottom < s.rows) :
    (s.setMargins 0 0).cols = s.cols ∧ (s.setMargins 0 0).rows = s.rows ∧
      (s.setMargins 0 0).modes = s.modes ∧ (s.setMargins 0 0).title = s.title ∧
      (s.setMargins 0 0).top = 0 ∧ (s.setMargins 0 0).bottom = s.rows - 1 := by
  unfold Screen.setMargins
  dsimp only
  rw [if_pos rfl]
  split
  · exact ⟨rfl, rfl, rfl, rfl, rfl, rfl⟩
  · next hone => refine ⟨rfl, rfl, rfl, rfl, ?_, ?_⟩ <;> omega

theorem clear_feeds (htop : s.top ≤ s.bottom) (hbottom : s.bottom < s.rows) :
    ∃ s', Feeds s (mode 25 false ++ csi [] 'r' ++ csi [0] 'm' ++ csi [] 'H' ++ csi [2] 'J') s' ∧
      Cleared s s' := by
  obtain ⟨hcols, hrows, hmodes, htitle, htop', hbottom'⟩ :=
    setMargins_whole (s := s.setMode false 25) htop hbottom
  generalize hs₁ : (s.setMode false 25).setMargins 0 0 = s₁ at *
  let s₂ : Screen CellStyle := { s₁ with pen := .defaultStyle }
  have hmargins : Feeds (s.setMode false 25) (csi [] 'r') s₁ := hs₁ ▸ feeds_csi (by decide) []
  have hplain : Feeds s₁ (csi [0] 'm') s₂ := feeds_csi (by decide) [0]
  have hhome : Feeds s₂ (csi [] 'H') (s₂.cursorPosition 0 0) := feeds_csi (by decide) []
  have herase : Feeds (s₂.cursorPosition 0 0) (csi [2] 'J') (s₂.cursorPosition 0 0).eraseDisplay :=
    feeds_csi (by decide) [2]
  refine ⟨_, ((((feeds_mode 25 false).append hmargins).append hplain).append hhome).append herase,
    hcols, hrows, ?_, htop', hbottom', rfl,
    ?_, htitle⟩
  · change List.replicate s₁.rows (List.replicate s₁.cols _) = _
    rw [hrows, hcols]
    rfl
  · exact congrFun hmodes 25

/-- The redraw is right whatever the terminal was showing, but for the title: it
is the snapshot's unless that is empty, in which case it stays. -/
theorem fullRedraw_feeds (hsnap : Drawable snap) (hcols : s.cols = snap.cols)
    (hrows : s.rows = snap.rowsCount) (htop : s.top ≤ s.bottom) (hbottom : s.bottom < s.rows) :
    ∃ s', Feeds s (fullRedraw snap) s' ∧ s'.modes 25 = snap.cursorVisible ∧
      s'.title = (if snap.title = [] then s.title else snap.title) ∧
      (s'.title = snap.title → Painted s' snap) := by
  obtain ⟨s₁, hfeeds₁, hclear⟩ := clear_feeds htop hbottom
  obtain ⟨s₂, hfeeds₂, hannounced, hrest, hvisible⟩ := stateChanges_modes (s := s₁)
    none (fun o ho => nomatch ho) (titleChange_none_feeds hsnap.title)
  have hcols₂ : s₂.cols = snap.cols := by rw [hrest, ← hcols, ← hclear.cols]
  have hrows₂ : s₂.rows = snap.rowsCount := by rw [hrest, ← hrows, ← hclear.rows]
  have hgrid₂ : s₂.grid
      = List.replicate snap.rowsCount (List.replicate snap.cols (.blank .defaultStyle)) := by
    rw [hrest, ← hrows, ← hcols, ← hclear.grid]
  have hblank : ∀ tr ∈ s₂.grid, Shows snap.cols tr [] := by
    intro tr htr
    have hshows := shows_blank snap.cols
    rw [hgrid₂] at htr
    rw [List.eq_of_mem_replicate htr]
    exact ⟨hshows.length, hshows.whole, fun hc => nomatch hc⟩
  have hlength₂ : s₂.grid.length = s₂.rows := by rw [hgrid₂, List.length_replicate, hrows₂]
  have hall : List.Forall₂ (fun tr _ => Shows snap.cols tr []) s₂.grid snap.rows := by
    rw [List.forall₂_iff_zip]
    refine ⟨by rw [hlength₂, hrows₂, hsnap.rows], fun {tr row} hmem => ?_⟩
    exact hblank tr (List.of_mem_zip hmem).1
  have hbelow : s₂.grid = [] ++ s₂.grid := rfl
  have hpos : 0 < snap.cols := Nat.lt_of_le_of_lt (Nat.zero_le _) hsnap.cursorX
  have hpen₂ : s₂.pen = .defaultStyle := by rw [hrest]; exact hclear.pen
  obtain ⟨s₃, grid₃, hfeeds₃, hframe₃, hgrid₃, hshows, -⟩ :=
    redrawRows_feeds hbelow hcols₂ hpos hlength₂ hall hsnap.sound hpen₂
  have hcup := feeds_cup (s := s₃) (y := snap.cursorY) (x := snap.cursorX)
    (by rw [hframe₃.rows, hrows₂]; exact hsnap.cursorY)
    (by rw [hframe₃.cols, hcols₂]; exact hsnap.cursorX)
  let s₄ : Screen CellStyle :=
    { s₃ with y := snap.cursorY, x := snap.cursorX, pendingWrap := false }
  have hpainted : s₄.title = snap.title → Painted s₄ snap := by
    intro htitle
    have hframe₄ : Frame s₂ s₄ := hframe₃.trans ⟨rfl, rfl, rfl, rfl, rfl, rfl⟩
    have hsame : s₄.title = _ := hframe₄.title.trans (congrArg Screen.title hrest)
    refine ⟨hframe₄.cols.trans hcols₂, hframe₄.rows.trans hrows₂, ?_, rfl, rfl,
      (hannounced (hsame.symm.trans htitle)).frame hframe₄, ?_, ?_, ?_⟩
    · change List.Forall₂ _ s₃.grid _
      exact hgrid₃ ▸ hshows
    · change s₃.grid.length = s₃.rows
      rw [hgrid₃, List.nil_append, hshows.length_eq, hsnap.rows, hframe₃.rows, hrows₂]
    · rw [hframe₄.top, hrest]
      exact hclear.top
    · rw [hframe₄.bottom, hframe₄.rows, hrest]
      exact hclear.bottom.trans (congrArg (· - 1) hclear.rows.symm)
  have htitle : s₄.title = if snap.title = [] then s.title else snap.title := by
    rw [← hclear.title]
    exact hframe₃.title.trans (congrArg Screen.title hrest)
  have hbody := ((hfeeds₁.append hfeeds₂).append hfeeds₃).append hcup
  by_cases hshown : snap.cursorVisible = true
  · refine ⟨s₄.setMode true 25, ?_, hshown.symm, htitle, fun h => ?_⟩
    · rw [fullRedraw, if_pos hshown]
      exact hbody.append (feeds_mode 25 true)
    · have hpainted := hpainted h
      exact ⟨hpainted.cols, hpainted.rows, hpainted.grid, hpainted.x, hpainted.y,
        hpainted.announced.setVisible true, ⟨hpainted.full.grid, hpainted.full.top,
          hpainted.full.bottom⟩⟩
  · have hhidden : s₄.modes 25 = false := by
      change s₃.modes 25 = false
      rw [hframe₃.modes, hvisible, hclear.hidden]
    refine ⟨s₄, ?_, hhidden.trans (eq_false_of_ne_true hshown).symm, htitle, hpainted⟩
    rw [fullRedraw, if_neg hshown, List.append_nil]
    exact hbody

/-- Fed to any terminal of its size, whatever that shows, the redraw of a
snapshot leaves it displaying the snapshot if and only if the snapshot has a
title or the terminal has none. -/
theorem full_redraw_displays_iff (snap : ScreenSnapshot) (s : Screen CellStyle)
    (hsnap : WellFormed snap) (hfit : ∀ row ∈ snap.rows, ∀ c ∈ row, Fitting c)
    (hcols : s.cols = snap.cols) (hrows : s.rows = snap.rowsCount) (htop : s.top ≤ s.bottom)
    (hbottom : s.bottom < s.rows) :
    ∃ s', Feeds s (fullRedraw snap) s' ∧
      (Displays s' snap ↔ snap.title ≠ [] ∨ s.title = []) := by
  obtain ⟨s', hfeeds, hvisible, htitle, hpainted⟩ :=
    fullRedraw_feeds (hsnap.drawable hfit) hcols hrows htop hbottom
  refine ⟨s', hfeeds, fun hdisplays => ?_, fun hnamed => ?_⟩
  · by_cases hempty : snap.title = []
    · rw [if_pos hempty] at htitle
      exact .inr (htitle.symm.trans (hdisplays.announced.title.trans hempty))
    · exact .inl hempty
  · refine hsnap.displays_iff.mpr ⟨hpainted ?_, hvisible⟩
    rw [htitle]
    split
    · next hempty => exact (hnamed.resolve_left (not_not.mpr hempty)).trans hempty.symm
    · rfl

/-- A terminal in use: something written, a pen, a region, a title and modes. -/
def inUse (cols rows : Nat) : Screen CellStyle where
  cols := cols
  rows := rows
  grid := List.replicate rows (List.replicate cols ⟨['x'], .defaultStyle, .narrow⟩)
  x := cols - 1
  y := 0
  pendingWrap := true
  pen := { CellStyle.defaultStyle with bold := true }
  top := rows - 1
  bottom := rows - 1
  modes := fun _ => true
  title := ['o', 'l', 'd']

omit [CharWidth] in
theorem full_redraw_displays_iff_wideGlyph : letI := wcwidths
    ∃ s', Feeds (inUse 2 2) (fullRedraw wideGlyph) s' ∧ Displays s' wideGlyph := by
  let _ : CharWidth := wcwidths
  obtain ⟨s', hfeeds, hiff⟩ := full_redraw_displays_iff wideGlyph (inUse 2 2)
    wellFormed_wideGlyph fitting_wideGlyph rfl rfl (by decide) (by decide)
  exact ⟨s', hfeeds, hiff.mpr (.inl (by decide))⟩

omit [CharWidth] in
/-- A screen without a title, on a terminal that still has one. -/
theorem full_redraw_leaves_title : letI := wcwidths
    ¬∀ (snap : ScreenSnapshot) (s : Screen CellStyle), WellFormed snap →
      (∀ row ∈ snap.rows, ∀ c ∈ row, Fitting c) → s.cols = snap.cols → s.rows = snap.rowsCount →
      s.top ≤ s.bottom → s.bottom < s.rows →
      ∃ s', Feeds s (fullRedraw snap) s' ∧ Displays s' snap := by
  intro h
  obtain ⟨s', hfeeds, hdisplays⟩ := h (.new 1 1) (inUse 1 1)
    (wellFormed_new (by decide) (by decide))
    (fun row hrow c hc => by
      rw [List.eq_of_mem_replicate hrow] at hc
      rw [List.eq_of_mem_replicate hc]
      exact Or.inl rfl) rfl rfl (by decide) (by decide)
  have htitle : s'.title = ['o', 'l', 'd'] := by
    rw [← congrArg (·.screen.title) hfeeds]
    decide +kernel
  rw [hdisplays.announced.title] at htitle
  exact absurd htitle (by decide)

end DisplayDiff

end Morsh
