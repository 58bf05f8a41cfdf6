import Morsh.Proofs.RowPass

/-!
# The row pass on a terminal

`diffCell` leaves the pen at the style of its cell, and where it claims to know
the cursor it is right. The row loop and the loop over the rows follow by
induction.

What a cell writes depends on where the cursor is and how the pen is set, and the
loop knows both only in part. `Standing` is its invariant: which columns are
done, that the pen is the one it believes in, and that the cursor is where it
thinks it is, if it thinks anything (`Tracked`). `diffCell_feeds` follows the
branches of the body: a cell that is as it was is passed over, any other is
written where the cursor stands or after the cursor was brought there. What lies
outside the row never changes, and `Frame`, which says so, composes.
-/

namespace Morsh

open Vt

namespace DisplayDiff

variable [CharWidth] {s s' s'' : Screen CellStyle} {cols y x : Nat}
  {oldRow newRow : List CellData} {tr tr' : Row CellStyle}

/-- What the row pass does not touch. -/
structure Frame (s s' : Screen CellStyle) : Prop where
  cols : s'.cols = s.cols
  rows : s'.rows = s.rows
  top : s'.top = s.top
  bottom : s'.bottom = s.bottom
  modes : s'.modes = s.modes
  title : s'.title = s.title

/-- Row `y` becomes `tr`; the cursor and the pen are free. -/
structure OnRow (s s' : Screen CellStyle) (y : Nat) (tr : Row CellStyle) : Prop where
  frame : Frame s s'
  grid : s'.grid = s.grid.set y tr

omit [CharWidth] in
theorem Frame.refl (s : Screen CellStyle) : Frame s s := ⟨rfl, rfl, rfl, rfl, rfl, rfl⟩

omit [CharWidth] in
theorem Frame.trans (h : Frame s s') (h' : Frame s' s'') : Frame s s'' :=
  ⟨h'.cols.trans h.cols, h'.rows.trans h.rows, h'.top.trans h.top, h'.bottom.trans h.bottom,
    h'.modes.trans h.modes, h'.title.trans h.title⟩

omit [CharWidth] in
theorem OnRow.same (hrow : s.grid[y]? = some tr) (hframe : Frame s s') (hgrid : s'.grid = s.grid) :
    OnRow s s' y tr := by
  obtain ⟨hy, rfl⟩ := List.getElem?_eq_some_iff.mp hrow
  exact ⟨hframe, by rw [hgrid, List.set_getElem_self]⟩

omit [CharWidth] in
theorem OnRow.trans (h : OnRow s s' y tr) (h' : OnRow s' s'' y tr') : OnRow s s'' y tr' :=
  ⟨h.frame.trans h'.frame, by rw [h'.grid, h.grid, List.set_set]⟩

omit [CharWidth] in
theorem OnRow.row (h : OnRow s s' y tr) (hy : y < s.grid.length) : s'.grid[y]? = some tr := by
  rw [h.grid, List.getElem?_set_self hy]

/-- The cursor, where `diffRow` thinks it knows it. -/
def Tracked (s : Screen CellStyle) (y x : Nat) (cursor : Option (Nat × Nat)) : Prop :=
  cursor = some (y + 1, x + 1) → x < s.cols → s.y = y ∧ s.x = x ∧ s.pendingWrap = false

omit [CharWidth] in
theorem advance_frame (s : Screen CellStyle) (n : Nat) : Frame s (s.advance n) := by
  unfold Screen.advance
  split <;> exact ⟨rfl, rfl, rfl, rfl, rfl, rfl⟩

omit [CharWidth] in
theorem advance_grid (s : Screen CellStyle) (n : Nat) : (s.advance n).grid = s.grid := by
  unfold Screen.advance
  split <;> rfl

omit [CharWidth] in
theorem advance_pen (s : Screen CellStyle) (n : Nat) : (s.advance n).pen = s.pen := by
  unfold Screen.advance
  split <;> rfl

omit [CharWidth] in
theorem OnRow.advance (hframe : Frame s s') (hgrid : s'.grid.set s'.y tr = s.grid.set y tr)
    (n : Nat) : OnRow s ((s'.setRow tr).advance n) y tr := by
  have hset : Frame s' (s'.setRow tr) := ⟨rfl, rfl, rfl, rfl, rfl, rfl⟩
  exact ⟨(hframe.trans hset).trans (advance_frame _ n), (advance_grid _ n).trans hgrid⟩

omit [CharWidth] in
theorem advance_tracked {n : Nat} (hwrap : s.pendingWrap = false) :
    Tracked (s.advance n) s.y (s.x + n) (some (s.y + 1, s.x + 1 + n)) := by
  intro _ hlt
  rw [(advance_frame s n).cols] at hlt
  rw [Screen.advance, if_pos hlt]
  exact ⟨rfl, rfl, hwrap⟩

/-- What `diffCell` writes to bring the pen to a style. -/
theorem feeds_pen {style pen : CellStyle} {cursor : Option (Nat × Nat)}
    (hpen : style = pen → s.pen = pen) (htracked : Tracked s y x cursor) (hy : y < s.rows)
    (hx : x < s.cols) :
    ∃ s', Feeds s (if pen ≠ style then cup (y + 1) (x + 1) ++ setPen style else []) s' ∧
      Frame s s' ∧ s'.grid = s.grid ∧ s'.pen = style ∧
      Tracked s' y x (if pen ≠ style then some (y + 1, x + 1) else cursor) := by
  by_cases hsame : pen = style
  · refine ⟨s, ?_, .refl s, rfl, (hpen hsame.symm).trans hsame, ?_⟩
    · rw [if_neg (not_not.mpr hsame)]
      exact Feeds.nil
    · rw [if_neg (not_not.mpr hsame)]
      exact htracked
  · refine ⟨{ s with y := y, x := x, pendingWrap := false, pen := style }, ?_,
      ⟨rfl, rfl, rfl, rfl, rfl, rfl⟩, rfl, rfl, fun _ _ => ⟨rfl, rfl, rfl⟩⟩
    rw [if_pos hsame]
    exact (feeds_cup hy hx).append (feeds_setPen style)

theorem feeds_goto {cursor : Option (Nat × Nat)} (htracked : Tracked s y x cursor)
    (hy : y < s.rows) (hx : x < s.cols) :
    Feeds s (if cursor ≠ some (y + 1, x + 1) then cup (y + 1) (x + 1) else [])
      { s with y := y, x := x, pendingWrap := false } := by
  by_cases hknown : cursor = some (y + 1, x + 1)
  · obtain ⟨hsy, hsx, hwrap⟩ := htracked hknown hx
    have hsame : ({ s with y := y, x := x, pendingWrap := false } : Screen CellStyle) = s := by
      rw [← hsy, ← hsx, ← hwrap]
    rw [if_neg (not_not.mpr hknown), hsame]
    exact Feeds.nil
  · rw [if_pos hknown]
    exact feeds_cup hy hx

/-- What is shown for a cell, written at its place. -/
theorem feeds_shown {c : CellData} (hsound : c.Sound) (hrow : s.grid[s.y]? = some tr)
    (hlen : tr.length = s.cols) (hwrap : s.pendingWrap = false) (hpen : s.pen = c.style)
    (hx : s.x < s.cols) (hroom : c.wide = true → s.x + 1 < s.cols) :
    Feeds s (shown c) (if c.wide then
        (s.setRow (putWide s.blank tr s.x c.shownAs)).advance 2
      else (s.setRow (putNarrow s.blank tr s.x c.shownAs)).advance 1) := by
  have hshown : c.shownAs = ⟨shown c, s.pen, if c.wide then .wide else .narrow⟩ := by
    rw [hpen]
    rfl
  by_cases hwide : c.wide = true
  · obtain ⟨base, marks, htext, hbase, hmarks⟩ := hsound.wide hwide
    have htext' : shown c = base :: marks := by rw [shown, htext]; rfl
    rw [if_pos hwide, hshown, if_pos hwide, htext']
    exact Feeds.wide hrow (hroom hwide) hlen hwrap hbase hmarks (htext ▸ hsound.printable)
  · have hnarrow : c.wide = false := by simpa using hwide
    rw [if_neg hwide, hshown, if_neg hwide]
    rcases hsound.narrow hnarrow with hempty | ⟨base, marks, htext, hbase, hmarks⟩
    · have htext' : shown c = [' '] := by rw [shown, if_pos hempty]
      rw [htext']
      refine Feeds.narrow hrow hx hlen hwrap CharWidth.width_space (by simp) fun c hc => ?_
      rw [List.mem_singleton.mp hc]
      rfl
    · have htext' : shown c = base :: marks := by rw [shown, htext]; rfl
      rw [htext']
      exact Feeds.narrow hrow hx hlen hwrap hbase hmarks (htext ▸ hsound.printable)

/-- Standing at column `x` of row `y`, with the loop's pen and cursor. -/
structure Standing (cols y : Nat) (oldRow newRow : List CellData) (x : Nat) (pen : CellStyle)
    (cursor : Option (Nat × Nat)) (s : Screen CellStyle) (tr : Row CellStyle) : Prop where
  width : s.cols = cols
  height : y < s.rows
  row : s.grid[y]? = some tr
  reached : Reached cols oldRow newRow x tr
  pen : s.pen = pen
  tracked : Tracked s y x cursor

/-- A cell written where the cursor stands, with the pen of its style. A wide cell
takes the next column with it, which the new row has as its spacer, so there is
always room. -/
theorem writeCell_feeds {c : CellData} (hnew : SoundRow cols newRow)
    (hget : newRow[s.x]? = some c) (hrow : s.grid[s.y]? = some tr)
    (hreached : Reached cols oldRow newRow s.x tr) (hwidth : s.cols = cols) (hheight : s.y < s.rows)
    (hwrap : s.pendingWrap = false) (hpen : s.pen = c.style) :
    ∃ s' tr', Feeds s (shown c) s' ∧ OnRow s s' s.y tr' ∧
      Standing cols s.y oldRow newRow (s.x + if c.wide then 2 else 1) c.style
        (some (s.y + 1, s.x + 1 + if c.wide then 2 else 1)) s' tr' := by
  have hx : s.x < cols := hnew.length ▸ (List.getElem?_eq_some_iff.mp hget).1
  have hlen := hreached.length
  have hroom : c.wide = true → s.x + 1 < s.cols := by
    intro hwide
    obtain ⟨-, d, hd, -⟩ := hnew.paired hget hwide
    exact hwidth ▸ hnew.length ▸ (List.getElem?_eq_some_iff.mp hd).1
  have hshown := feeds_shown (hnew.sound c (List.mem_of_getElem? hget)) hrow
    (hlen.trans hwidth.symm) hwrap hpen (hwidth ▸ hx) hroom
  have hset : ∀ row : Row CellStyle, (s.grid.set s.y row)[s.y]? = some row := fun row =>
    List.getElem?_set_self (List.getElem?_eq_some_iff.mp hrow).1
  by_cases hwide : c.wide = true
  · rw [if_pos hwide] at hshown
    simp only [hwide, if_true]
    refine ⟨_, putWide s.blank tr s.x c.shownAs, hshown, OnRow.advance (.refl s) rfl 2,
      ?_, ?_, ?_, ?_, ?_, ?_⟩
    · exact (advance_frame _ 2).cols.trans hwidth
    · exact (advance_frame (s.setRow _) 2).rows ▸ hheight
    · exact (advance_grid (s.setRow _) 2).symm ▸ hset _
    · exact hreached.writeWide hnew rfl hget hwide
    · exact (advance_pen _ 2).trans hpen
    · exact advance_tracked (s := s.setRow _) hwrap
  · have hnarrow : c.wide = false := by simpa using hwide
    rw [if_neg hwide] at hshown
    simp only [hnarrow, Bool.false_eq_true, if_false]
    refine ⟨_, putNarrow s.blank tr s.x c.shownAs, hshown, OnRow.advance (.refl s) rfl 1,
      ?_, ?_, ?_, ?_, ?_, ?_⟩
    · exact (advance_frame _ 1).cols.trans hwidth
    · exact (advance_frame (s.setRow _) 1).rows ▸ hheight
    · exact (advance_grid (s.setRow _) 1).symm ▸ hset _
    · exact hreached.writeNarrow rfl hget hnarrow hx
    · exact (advance_pen _ 1).trans hpen
    · exact advance_tracked (s := s.setRow _) hwrap

/-- The body of the row loop. The pen it goes by need not be the terminal's
where the cell has another style. -/
theorem diffCell_feeds {pen actual : CellStyle} {cursor : Option (Nat × Nat)} {c : CellData}
    (h : Standing cols y oldRow newRow x actual cursor s tr) (hnew : SoundRow cols newRow)
    (hget : newRow[x]? = some c) (hknown : c.style = pen → actual = pen) :
    ∃ s' tr', Feeds s (diffCell y x (oldRow[x]? ≠ newRow[x]?) c pen cursor).1 s' ∧
      OnRow s s' y tr' ∧
      Standing cols y oldRow newRow (x + if c.wide then 2 else 1) c.style
        (diffCell y x (oldRow[x]? ≠ newRow[x]?) c pen cursor).2 s' tr' := by
  have hx : x < cols := hnew.length ▸ (List.getElem?_eq_some_iff.mp hget).1
  obtain ⟨s₁, hfeeds, hframe, hgrid, hpen, htracked⟩ :=
    @feeds_pen _ _ _ _ c.style pen _ (fun hc => h.pen.trans (hknown hc)) h.tracked h.height
      (h.width ▸ hx)
  have hwidth₁ : s₁.cols = cols := hframe.cols.trans h.width
  have hheight₁ : y < s₁.rows := hframe.rows ▸ h.height
  have hrow₁ : s₁.grid[y]? = some tr := hgrid ▸ h.row
  unfold diffCell
  by_cases hsame : oldRow[x]? = newRow[x]?
  · -- the cell is as it was
    simp only [hsame, ne_eq, not_true_eq_false, decide_false, Bool.false_eq_true, if_false]
    refine ⟨s₁, tr, by simpa using hfeeds, .same h.row hframe hgrid, hwidth₁, hheight₁, hrow₁,
      h.reached.skip hnew hget (hsame.trans hget), hpen, ?_⟩
    intro hnone
    cases hnone
  · simp only [hsame, ne_eq, not_false_eq_true, decide_true, if_true]
    let s₂ : Screen CellStyle := { s₁ with y := y, x := x, pendingWrap := false }
    have hgoto := feeds_goto htracked hheight₁ (hwidth₁ ▸ hx)
    obtain ⟨s', tr', hshown, honrow, hstanding⟩ := writeCell_feeds (s := s₂) hnew hget hrow₁
      h.reached hwidth₁ hheight₁ rfl hpen
    have hmoved : Frame s s₂ := hframe.trans ⟨rfl, rfl, rfl, rfl, rfl, rfl⟩
    have honrow' : OnRow s s' y tr' :=
      ⟨hmoved.trans honrow.frame, honrow.grid.trans (congrArg (List.set · y tr') hgrid)⟩
    exact ⟨s', tr', by simpa using (hfeeds.append hgoto).append hshown, honrow', hstanding⟩

/-- The row loop turns a row that shows the old one into one that shows the
new one. -/
theorem diffRow_feeds (hnew : SoundRow cols newRow) (fuel : Nat) {pen actual : CellStyle}
    {cursor : Option (Nat × Nat)} (hfuel : cols ≤ x + fuel)
    (h : Standing cols y oldRow newRow x actual cursor s tr)
    (hknown : ∀ c, newRow[x]? = some c → c.style = pen → actual = pen) :
    ∃ s' tr', Feeds s (diffRow cols y oldRow newRow fuel x pen cursor) s' ∧ OnRow s s' y tr' ∧
      Shows cols tr' newRow := by
  induction fuel generalizing x pen actual cursor s tr with
  | zero =>
      exact ⟨s, tr, Feeds.nil, .same h.row (.refl s) rfl, h.reached.finish hnew hfuel⟩
  | succ fuel ih =>
      unfold diffRow
      by_cases hx : x < cols
      · have hget : newRow[x]? = some (newRow.getD x .empty) := by
          have hlt : x < newRow.length := hnew.length ▸ hx
          simp [hlt]
        obtain ⟨s₁, tr₁, hfeeds, honrow, hstanding⟩ := diffCell_feeds h hnew hget (hknown _ hget)
        rw [if_pos hx]
        by_cases hwide : (newRow.getD x .empty).wide = true
        · -- the loop takes the pen to have the style of the spacer
          obtain ⟨-, d, hd, -, -, hstyle⟩ := hnew.paired hget hwide
          have hroom : x + 1 < cols := hnew.length ▸ (List.getElem?_eq_some_iff.mp hd).1
          have hd' : newRow.getD (x + 1) .empty = d := by simp [hd]
          rw [if_pos hwide] at hstanding
          obtain ⟨s₂, tr₂, hfeeds₂, honrow₂, hshows⟩ :=
            @ih _ _ _ (newRow.getD (x + 1) .empty).style _ _ (by omega) hstanding
              fun e he hsame => by
                rw [hd'] at hsame ⊢
                exact (hstyle e he hsame).symm
          refine ⟨s₂, tr₂, ?_, honrow.trans honrow₂, hshows⟩
          simp only [if_pos (And.intro hwide hroom)]
          exact hfeeds.append hfeeds₂
        · rw [if_neg hwide] at hstanding
          obtain ⟨s₂, tr₂, hfeeds₂, honrow₂, hshows⟩ := ih (by omega) hstanding fun _ _ _ => rfl
          refine ⟨s₂, tr₂, ?_, honrow.trans honrow₂, hshows⟩
          simp only [if_neg (fun hboth : _ ∧ x + 1 < cols => hwide hboth.1)]
          exact hfeeds.append hfeeds₂
      · rw [if_neg hx]
        exact ⟨s, tr, Feeds.nil, .same h.row (.refl s) rfl,
          h.reached.finish hnew (Nat.le_of_not_lt hx)⟩

theorem diffOneRow_feeds (hrow : s.grid[y]? = some tr) (hshows : Shows cols tr oldRow)
    (hnew : SoundRow cols newRow) (hwidth : s.cols = cols) (hheight : y < s.rows) :
    ∃ s' tr', Feeds s (diffOneRow cols y oldRow newRow) s' ∧ OnRow s s' y tr' ∧
      Shows cols tr' newRow := by
  unfold diffOneRow
  by_cases hsame : oldRow = newRow
  · rw [if_pos hsame]
    exact ⟨s, tr, Feeds.nil, .same hrow (.refl s) rfl, hsame ▸ hshows⟩
  · rw [if_neg hsame]
    have hreset : Feeds s (csi [0] 'm') { s with pen := .defaultStyle } :=
      feeds_csi (by decide) [0]
    have hstart : Standing cols y oldRow newRow 0 .defaultStyle none
        ({ s with pen := .defaultStyle } : Screen CellStyle) tr :=
      { width := hwidth, height := hheight, row := hrow, reached := .start hshows, pen := rfl,
        tracked := by intro hnone; cases hnone }
    obtain ⟨s', tr', hfeeds, honrow, hshows'⟩ :=
      diffRow_feeds hnew cols (Nat.le_add_left cols 0) hstart fun _ _ _ => rfl
    have hpen : Frame s ({ s with pen := .defaultStyle } : Screen CellStyle) :=
      ⟨rfl, rfl, rfl, rfl, rfl, rfl⟩
    exact ⟨s', tr', hreset.append hfeeds, ⟨hpen.trans honrow.frame, honrow.grid⟩, hshows'⟩

/-- The rows of the pass, those above them untouched. The induction is on the rows
left to do; each is done by `diffOneRow_feeds` and then counts as one of those
above. -/
theorem diffRows_feeds {pairs : List (List CellData × List CellData)}
    {above below : List (Row CellStyle)}
    (hgrid : s.grid = above ++ below) (hwidth : s.cols = cols) (hheight : s.grid.length = s.rows)
    (hold : List.Forall₂ (Shows cols) below (pairs.map (·.1)))
    (hnew : ∀ p ∈ pairs, SoundRow cols p.2) :
    ∃ s' below', Feeds s (diffRows cols above.length pairs) s' ∧ Frame s s' ∧
      s'.grid = above ++ below' ∧ List.Forall₂ (Shows cols) below' (pairs.map (·.2)) := by
  induction pairs generalizing s above below with
  | nil =>
      cases hold
      exact ⟨s, [], Feeds.nil, .refl s, hgrid, .nil⟩
  | cons p pairs ih =>
      cases hold with
      | @cons tr _ below _ hfirst hrest =>
          have hrow : s.grid[above.length]? = some tr := by simp [hgrid]
          have hlt : above.length < s.rows :=
            hheight ▸ (List.getElem?_eq_some_iff.mp hrow).1
          obtain ⟨s₁, tr₁, hfeeds, honrow, hshows⟩ :=
            diffOneRow_feeds hrow hfirst (hnew p List.mem_cons_self) hwidth hlt
          have hgrid₁ : s₁.grid = (above ++ [tr₁]) ++ below := by
            rw [honrow.grid, hgrid]
            simp
          obtain ⟨s₂, below₂, hfeeds₂, hframe₂, hgrid₂, hshows₂⟩ :=
            ih hgrid₁ (honrow.frame.cols.trans hwidth)
              (by rw [honrow.grid, List.length_set, hheight, honrow.frame.rows]) hrest
              fun q hq => hnew q (List.mem_cons_of_mem p hq)
          rw [List.length_append] at hfeeds₂
          exact ⟨s₂, tr₁ :: below₂, hfeeds.append hfeeds₂, honrow.frame.trans hframe₂,
            by simpa using hgrid₂, .cons hshows hshows₂⟩

end DisplayDiff

end Morsh
