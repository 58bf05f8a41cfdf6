import Morsh.Prediction.View

/-!
# Typing predictions simulate line editing

Every cell that is shifted looks at its neighbour as it was before, and takes
over what the neighbour's view was: unknown, predicted or the server's. So one
key does to the view of the row what the edit does to a line, and the rows
around it are not touched.

A row of the overlay is looked at through its view: what each cell is known to
show, if anything is known. Inserting and deleting shift cells from the cursor to
the margin, and what a cell takes over from its neighbour is the neighbour's view,
so in terms of views the shift is the shift of a line. The lemmas about `Updated`
say that a row filed under its number is found again and the others are not
touched.

For a sequence of keys the engine must be ready to predict at every one of them:
an epoch that is not hidden from view, a cursor left of the margin, the screen of
the key before. `Ready` is that, and a key that edits the line keeps it.
-/

namespace Morsh

open LineEdit

namespace ConditionalOverlayCell

variable {cell : ConditionalOverlayCell} {epoch frame now : Nat} {actual : Char}

theorem repredict_active : (cell.repredict epoch frame now).active = true := rfl

theorem view_unknown (h : cell.active = true) :
    ({ cell with unknown := true } : ConditionalOverlayCell).view actual = none := by
  rw [view, if_pos h]
  rfl

theorem view_known {ch : Char} (h : cell.active = true) :
    ({ cell with unknown := false, replacement := ch } : ConditionalOverlayCell).view actual
      = some ch := by
  rw [view, if_pos h]
  rfl

/-- A cell that takes over its neighbour's prediction, or the server's
character under it, takes over its view. -/
theorem view_takeOver {neighbour : ConditionalOverlayCell} {beside : Char}
    (h : cell.active = true) :
    (if neighbour.active then
      if neighbour.unknown then { cell with unknown := true }
      else { cell with unknown := false, replacement := neighbour.replacement }
    else { cell with unknown := false, replacement := beside }).view actual
      = neighbour.view beside := by
  rw [view.eq_1 neighbour]
  split
  · split
    · exact view_unknown h
    · exact view_known h
  · exact view_known h

end ConditionalOverlayCell

namespace OverlayRow

variable {row row' : OverlayRow} {cellAt : Nat → Char} {c n epoch frame now : Nat} {ch : Char}

theorem view_some {cell : ConditionalOverlayCell} {i : Nat} (h : row.cells[i]? = some cell) :
    row.view cellAt i = cell.view (cellAt i) := by
  rw [view, h]

theorem view_new (rowNum col : Nat) :
    (OverlayRow.new rowNum n epoch now).view cellAt col = some (cellAt col) := by
  rw [view]
  split
  · next cell hcell =>
      rw [new, List.getElem?_map] at hcell
      obtain ⟨i, -, rfl⟩ := Option.map_eq_some_iff.mp hcell
      rfl
  · rfl

theorem exists_cell (hlen : row.cells.length = n) {i : Nat} (hi : i < n) :
    ∃ cell, row.cells[i]? = some cell :=
  ⟨_, List.getElem?_eq_getElem (hlen ▸ hi)⟩

theorem view_mapIdx {f : Nat → ConditionalOverlayCell → ConditionalOverlayCell}
    {cell : ConditionalOverlayCell} {i : Nat} (h : row.cells[i]? = some cell) :
    ({ row with cells := row.cells.mapIdx f } : OverlayRow).view cellAt i
      = (f i cell).view (cellAt i) := by
  rw [view, List.getElem?_mapIdx, h]
  rfl

variable (cellAt epoch frame now ch) in
open ConditionalOverlayCell in
theorem insert_view (hlen : row.cells.length = n) (hc : c + 1 < n) :
    ∃ row', row.insert ch c (n - 1) n epoch frame now cellAt = some row' ∧
      row'.rowNum = row.rowNum ∧ row'.cells.length = n ∧
      Inserted n c ch (row.view cellAt) (row'.view cellAt) := by
  have hfit : n - 1 ≤ row.cells.length ∧ (c < n - 1 → n - 1 < row.cells.length) ∧
      c < row.cells.length := by omega
  refine ⟨_, if_pos hfit, rfl, by rw [List.length_mapIdx, hlen], ?_⟩
  constructor
  case before =>
    intro i hi
    obtain ⟨cell, hcell⟩ := exists_cell hlen (show i < n by omega)
    rw [view_mapIdx hcell, if_neg (by omega), if_neg (by omega), view_some hcell]
  case here =>
    obtain ⟨cell, hcell⟩ := exists_cell hlen (show c < n by omega)
    rw [view_mapIdx hcell, if_pos rfl]
    exact view_known repredict_active
  case after =>
    intro i hgt hlt
    obtain ⟨cell, hcell⟩ := exists_cell hlen (show i < n by omega)
    obtain ⟨left, hleft⟩ := exists_cell hlen (show i - 1 < n by omega)
    rw [view_mapIdx hcell, if_neg (by omega), if_pos (by omega), if_neg (by omega), hleft,
      view_some hleft]
    exact view_takeOver repredict_active
  case margin =>
    obtain ⟨cell, hcell⟩ := exists_cell hlen (show n - 1 < n by omega)
    rw [view_mapIdx hcell, if_neg (by omega), if_pos (by omega), if_pos rfl]
    exact view_unknown repredict_active

variable (cellAt epoch frame now) in
open ConditionalOverlayCell in
theorem shiftLeft_view (hlen : row.cells.length = n) (hpos : 1 ≤ c) (hc : c < n) :
    ∃ row', row.shiftLeft (c - 1) n epoch frame now cellAt = some row' ∧
      row'.rowNum = row.rowNum ∧ row'.cells.length = n ∧
      Deleted n c (row.view cellAt) (row'.view cellAt) := by
  have hfit : (2 ≤ n → n ≤ row.cells.length) ∧ (c - 1 < n → n ≤ row.cells.length) := by omega
  refine ⟨_, if_pos hfit, rfl, by rw [List.length_mapIdx, hlen], ?_⟩
  constructor
  case before =>
    intro i hi
    obtain ⟨cell, hcell⟩ := exists_cell hlen (show i < n by omega)
    rw [view_mapIdx hcell, if_neg (by omega), view_some hcell]
  case after =>
    intro i hge hlt
    obtain ⟨cell, hcell⟩ := exists_cell hlen (show i < n by omega)
    obtain ⟨next, hnext⟩ := exists_cell hlen (show i + 1 < n by omega)
    rw [view_mapIdx hcell, if_pos (by omega), if_pos (by omega), hnext, view_some hnext]
    exact view_takeOver repredict_active
  case margin =>
    intro i hge hmargin hlt
    obtain ⟨cell, hcell⟩ := exists_cell hlen hlt
    rw [view_mapIdx hcell, if_pos (by omega), if_neg (by omega)]
    exact view_unknown repredict_active

end OverlayRow

namespace Overlay

variable {o o' : Overlay} {rowNum n epoch now : Nat} {f : OverlayRow → Option OverlayRow}
  {r fresh row : OverlayRow} {rows rest : List OverlayRow}

theorem find_cons :
    find rowNum (r :: rest) = if r.rowNum = rowNum then some r else find rowNum rest := by
  by_cases h : r.rowNum = rowNum
  · rw [if_pos h]
    exact List.find?_cons_of_pos (beq_iff_eq.mpr h)
  · rw [if_neg h]
    exact List.find?_cons_of_neg (by rwa [beq_iff_eq])

theorem find_none (h : ∀ r ∈ rows, rowNum < r.rowNum) : find rowNum rows = none := by
  rw [find, List.find?_eq_none]
  intro r hr heq
  have hlt := h r hr
  rw [beq_iff_eq.mp heq] at hlt
  exact Nat.lt_irrefl _ hlt

/-- `row` is now filed under its number, and nothing else has changed. -/
structure Updated (row : OverlayRow) (rows rows' : List OverlayRow) : Prop where
  found : find row.rowNum rows' = some row
  others : ∀ m ≠ row.rowNum, find m rows' = find m rows
  mem : ∀ r ∈ rows', r ∈ rows ∨ r = row
  order : Ordered rows'

theorem Updated.front (hafter : ∀ r ∈ rows, row.rowNum < r.rowNum) (horder : Ordered rows) :
    Updated row rows (row :: rows) where
  found := by rw [find_cons, if_pos rfl]
  others m hm := by rw [find_cons, if_neg hm.symm]
  mem r hr := (List.mem_cons.mp hr).symm
  order := List.pairwise_cons.mpr ⟨hafter, horder⟩

theorem Updated.replace (hnum : r.rowNum = row.rowNum) (horder : Ordered (r :: rest)) :
    Updated row (r :: rest) (row :: rest) where
  found := by rw [find_cons, if_pos rfl]
  others m hm := by rw [find_cons, find_cons, if_neg hm.symm, if_neg (hnum ▸ hm.symm)]
  mem s hs := by
    rcases List.mem_cons.mp hs with hs | hs
    · exact .inr hs
    · exact .inl (List.mem_cons_of_mem _ hs)
  order := by
    obtain ⟨hafter, hrest⟩ := List.pairwise_cons.mp horder
    exact List.pairwise_cons.mpr ⟨fun s hs => hnum ▸ hafter s hs, hrest⟩

theorem Updated.behind {rows' : List OverlayRow} (h : Updated row rest rows')
    (hlt : r.rowNum < row.rowNum) (horder : Ordered (r :: rest)) :
    Updated row (r :: rest) (r :: rows') where
  found := by rw [find_cons, if_neg (Nat.ne_of_lt hlt), h.found]
  others m hm := by rw [find_cons, find_cons, h.others m hm]
  mem s hs := by
    rcases List.mem_cons.mp hs with rfl | hs
    · exact .inl List.mem_cons_self
    · exact (h.mem s hs).imp (List.mem_cons_of_mem _) id
  order := by
    obtain ⟨hafter, -⟩ := List.pairwise_cons.mp horder
    refine List.pairwise_cons.mpr ⟨fun s hs => ?_, h.order⟩
    rcases h.mem s hs with hs | rfl
    · exact hafter s hs
    · exact hlt

theorem updateRows_updated (horder : Ordered rows)
    (hrow : f ((find row.rowNum rows).getD fresh) = some row) :
    ∃ rows', updateRows row.rowNum fresh f rows = some rows' ∧ Updated row rows rows' := by
  induction rows with
  | nil =>
      have hfresh : f fresh = some row := hrow
      exact ⟨[row], by rw [updateRows, hfresh]; rfl, .front (by simp) horder⟩
  | cons r rest ih =>
      obtain ⟨hafter, hrest⟩ := List.pairwise_cons.mp horder
      rw [find_cons] at hrow
      rw [updateRows]
      by_cases heq : r.rowNum = row.rowNum
      · rw [if_pos heq] at hrow
        have hrow : f r = some row := hrow
        rw [if_pos heq, hrow]
        exact ⟨_, rfl, .replace heq horder⟩
      · rw [if_neg heq] at hrow
        rw [if_neg heq]
        by_cases hlt : row.rowNum < r.rowNum
        · have hfirst : ∀ s ∈ r :: rest, row.rowNum < s.rowNum := fun s hs => by
            rcases List.mem_cons.mp hs with rfl | hs
            · exact hlt
            · exact Nat.lt_trans hlt (hafter s hs)
          rw [find_none fun s hs => hfirst s (List.mem_cons_of_mem _ hs)] at hrow
          have hfresh : f fresh = some row := hrow
          rw [if_pos hlt, hfresh]
          exact ⟨_, rfl, .front hfirst horder⟩
        · obtain ⟨rows', hrows', hupdated⟩ := ih hrest hrow
          rw [if_neg hlt, hrows']
          exact ⟨_, rfl, hupdated.behind (by omega) horder⟩

/-- The row a prediction is made on. -/
def current (o : Overlay) (rowNum n epoch now : Nat) : OverlayRow :=
  (o.getRow rowNum).getD (.new rowNum n epoch now)

variable (rowNum epoch now) in
theorem Wide.current (h : o.Wide n) (cellAt : Nat → Nat → Char) :
    (o.current rowNum n epoch now).rowNum = rowNum ∧
      (o.current rowNum n epoch now).cells.length = n ∧
      (o.current rowNum n epoch now).view (cellAt rowNum) = o.view cellAt rowNum := by
  unfold Overlay.current
  cases hrow : o.getRow rowNum with
  | none =>
      refine ⟨rfl, by simp [OverlayRow.new], funext fun col => ?_⟩
      rw [view, hrow]
      exact OverlayRow.view_new rowNum col
  | some row =>
      refine ⟨beq_iff_eq.mp (List.find?_some hrow :), h.cells row (List.mem_of_find?_eq_some hrow),
        funext fun col => ?_⟩
      rw [view, hrow]
      rfl

variable (f) in
theorem Wide.updateRow (h : o.Wide n) (hrow : f (o.current rowNum n epoch now) = some row)
    (hnum : row.rowNum = rowNum) (hlen : row.cells.length = n) (cellAt : Nat → Nat → Char) :
    ∃ o', o.updateRow rowNum n epoch now f = some o' ∧ o'.Wide n ∧
      o'.view cellAt rowNum = row.view (cellAt rowNum) ∧
      ∀ m ≠ rowNum, o'.view cellAt m = o.view cellAt m := by
  subst hnum
  obtain ⟨rows', hrows', hupdated⟩ := updateRows_updated h.order hrow
  refine ⟨⟨rows'⟩, by rw [Overlay.updateRow, hrows']; rfl, ⟨hupdated.order, fun r hr => ?_⟩,
    funext fun col => ?_, fun m hm => funext fun col => ?_⟩
  · rcases hupdated.mem r hr with hr | rfl
    · exact h.cells r hr
    · exact hlen
  · rw [view, getRow, hupdated.found]
  · rw [view, getRow, hupdated.others m hm]
    rfl

end Overlay

namespace PredictionEngine

variable {p : PredictionEngine} {ch : Char} {row c n numRows now : Nat}
  {cellAt : Nat → Nat → Char}

/-- What a key does not change of the engine. -/
structure SameModes (p p' : PredictionEngine) : Prop where
  overwrite : p'.predictOverwrite = p.predictOverwrite
  preference : p'.displayPreference = p.displayPreference
  input : p'.inputState = p.inputState
  height : p'.lastHeight = p.lastHeight
  width : p'.lastWidth = p.lastWidth

variable (ch row numRows now cellAt) in
theorem predictInsert_view (hmode : p.predictOverwrite = false) (hwide : p.overlay.Wide n)
    (hc : c + 1 < n) :
    ∃ p', p.predictInsert ch row c n numRows now cellAt = some p' ∧ SameModes p p' ∧
      p'.overlay.Wide n ∧
      Inserted n c ch (p.overlay.view cellAt row) (p'.overlay.view cellAt row) ∧
      ∀ m ≠ row, p'.overlay.view cellAt m = p.overlay.view cellAt m := by
  obtain ⟨hnum, hlen, hview⟩ := hwide.current row p.predictionEpoch now cellAt
  obtain ⟨r', hr', hnum', hlen', hinserted⟩ := OverlayRow.insert_view (cellAt row)
    p.predictionEpoch (p.localFrameSent + 1) now ch hlen hc
  obtain ⟨o', ho', hwide', hsame, hothers⟩ := hwide.updateRow
    (fun r => r.insert ch c (n - 1) n p.predictionEpoch (p.localFrameSent + 1) now (cellAt row))
    hr' (hnum'.trans hnum) hlen' cellAt
  have hn : ¬ (!p.predictOverwrite && decide (n = 0)) = true := by
    simp only [hmode, Bool.not_false, Bool.true_and, decide_eq_true_eq]
    omega
  refine ⟨{ p with
      overlay := o'
      cursors := updateLast (fun k => { k with
        col := c + 1
        expirationFrame := p.localFrameSent + 1 }) p.cursors },
    ?_, ⟨rfl, rfl, rfl, rfl, rfl⟩, hwide', ?_, hothers⟩
  · unfold predictInsert
    dsimp only
    rw [if_neg (Nat.not_le.mpr hc), if_neg hn, hmode, if_neg Bool.false_ne_true, ho',
      Option.bind_some, if_pos hc]
  · rw [hsame, ← hview]
    exact hinserted

variable (row now cellAt) in
theorem predictBackspace_view (hmode : p.predictOverwrite = false) (hwide : p.overlay.Wide n)
    (hpos : 1 ≤ c) (hc : c < n) :
    ∃ p', p.predictBackspace row c n now cellAt = some p' ∧ SameModes p p' ∧ p'.overlay.Wide n ∧
      Deleted n c (p.overlay.view cellAt row) (p'.overlay.view cellAt row) ∧
      ∀ m ≠ row, p'.overlay.view cellAt m = p.overlay.view cellAt m := by
  obtain ⟨hnum, hlen, hview⟩ := hwide.current row p.predictionEpoch now cellAt
  obtain ⟨r', hr', hnum', hlen', hdeleted⟩ := OverlayRow.shiftLeft_view (cellAt row)
    p.predictionEpoch (p.localFrameSent + 1) now hlen hpos hc
  obtain ⟨o', ho', hwide', hsame, hothers⟩ := hwide.updateRow
    (fun r => r.shiftLeft (c - 1) n p.predictionEpoch (p.localFrameSent + 1) now (cellAt row))
    hr' (hnum'.trans hnum) hlen' cellAt
  refine ⟨{ p with
      overlay := o'
      cursors := updateLast (fun k => { k with
        col := c - 1
        expirationFrame := p.localFrameSent + 1 }) p.cursors },
    ?_, ⟨rfl, rfl, rfl, rfl, rfl⟩, hwide', ?_, hothers⟩
  · unfold predictBackspace
    dsimp only
    rw [if_neg (by omega), hmode]
    simp only [Bool.false_eq_true, if_false, ho']
    rfl
  · rw [hsame, ← hview]
    exact hdeleted

/-! ## Keys -/

theorem prune_view {o : Overlay} {m : Nat} (hm : m < numRows) :
    (o.prune numRows).view cellAt m = o.view cellAt m := by
  have hfind : (o.prune numRows).getRow m = o.getRow m := by
    unfold Overlay.prune Overlay.getRow Overlay.find
    rw [List.find?_filter]
    refine congrArg (fun f => List.find? f o.rows) (funext fun r => ?_)
    by_cases heq : r.rowNum = m
    · simp [heq, hm]
    · simp [heq]
  funext col
  rw [Overlay.view, hfind]
  rfl

theorem prune_wide {o : Overlay} (h : o.Wide n) : (o.prune numRows).Wide n where
  order := h.order.sublist List.filter_sublist
  cells r hr := h.cells r (List.mem_filter.mp hr).1

theorem SameModes.trans {p q r : PredictionEngine} (h : SameModes p q) (h' : SameModes q r) :
    SameModes p r where
  overwrite := h'.overwrite.trans h.overwrite
  preference := h'.preference.trans h.preference
  input := h'.input.trans h.input
  height := h'.height.trans h.height
  width := h'.width.trans h.width

variable (p row c n numRows) in
theorem sized_same :
    SameModes { p with lastHeight := numRows, lastWidth := n } (p.sized numRows n) := by
  unfold sized
  split
  · exact ⟨rfl, rfl, rfl, rfl, rfl⟩
  · next h =>
      rw [not_or, not_not, not_not] at h
      exact ⟨rfl, rfl, rfl, h.1, h.2⟩

variable (numRows) in
theorem cull_same (hpref : p.displayPreference ≠ .never) :
    SameModes p (p.cull numRows) ∧ (p.cull numRows).overlay = p.overlay.prune numRows := by
  unfold cull
  rw [if_neg hpref]
  refine ⟨⟨?_, ?_, ?_, ?_, ?_⟩, ?_⟩ <;> grind

variable (p row c) in
theorem initCursor_same :
    SameModes p (p.initCursor row c) ∧ (p.initCursor row c).overlay = p.overlay := by
  unfold initCursor
  refine ⟨⟨?_, ?_, ?_, ?_, ?_⟩, ?_⟩ <;> grind

variable (row c n numRows) in
/-- What a key finds: the predictions for this size and the rows on the
screen. -/
theorem prepare_same (hpref : p.displayPreference ≠ .never) :
    SameModes { p with lastHeight := numRows, lastWidth := n } (p.prepare row c n numRows) ∧
      (p.prepare row c n numRows).overlay = (p.sized numRows n).overlay.prune numRows := by
  have hsized := sized_same p n numRows
  obtain ⟨hculled, hpruned⟩ := cull_same (p := p.sized numRows n) numRows
    (hsized.preference.trans_ne hpref)
  obtain ⟨hinit, hoverlay⟩ := initCursor_same ((p.sized numRows n).cull numRows) row c
  exact ⟨(hsized.trans hculled).trans hinit, hoverlay.trans hpruned⟩

theorem not_isControl (h : isAsciiGraphic ch = true ∨ ch = ' ') : isControl ch = false := by
  rcases h with h | rfl
  · simp only [isAsciiGraphic, Bool.and_eq_true, decide_eq_true_eq] at h
    simp only [isControl, Bool.or_eq_false_iff, Bool.and_eq_false_imp, decide_eq_true_eq,
      decide_eq_false_iff_not]
    omega
  · rfl

theorem newUserByte_insert (hpref : p.displayPreference ≠ .never) (hinput : p.inputState = .ground)
    (hch : isAsciiGraphic ch = true ∨ ch = ' ') :
    p.newUserByte ch row c n numRows now cellAt
      = (p.prepare row c n numRows).predictInsert ch row c n numRows now cellAt := by
  have hesc : ch ≠ '\x1b' := by rintro rfl; revert hch; decide
  have hdel : ch ≠ '\x7f' := by rintro rfl; revert hch; decide
  have hplain : ¬ (isControl ch || (!isAsciiGraphic ch && decide (ch ≠ ' '))) = true := by
    rcases hch with hgraphic | hspace
    · simp [not_isControl (.inl hgraphic), hgraphic]
    · simp [hspace, not_isControl (.inr rfl)]
  rw [newUserByte, if_neg hpref, dispatch, (prepare_same row c n numRows hpref).1.input, hinput]
  dsimp only
  rw [if_neg hesc, if_neg hdel, if_neg hplain]

theorem newUserByte_backspace (hpref : p.displayPreference ≠ .never)
    (hinput : p.inputState = .ground) :
    p.newUserByte '\x7f' row c n numRows now cellAt
      = (p.prepare row c n numRows).predictBackspace row c n now cellAt := by
  rw [newUserByte, if_neg hpref, dispatch, (prepare_same row c n numRows hpref).1.input, hinput]
  rfl

/-- A state in which the keys of the row are predicted. -/
structure Ready (p : PredictionEngine) (numRows n : Nat) : Prop where
  overwrite : p.predictOverwrite = false
  preference : p.displayPreference ≠ .never
  ground : p.inputState = .ground
  wide : (p.sized numRows n).overlay.Wide n

variable (row c cellAt) in
theorem Ready.prepare (h : Ready p numRows n) :
    (p.prepare row c n numRows).predictOverwrite = false ∧
      (p.prepare row c n numRows).overlay.Wide n ∧
      ∀ m < numRows, (p.prepare row c n numRows).overlay.view cellAt m
        = p.lineView numRows n cellAt m := by
  obtain ⟨hsame, hoverlay⟩ := prepare_same row c n numRows h.preference
  rw [hoverlay]
  exact ⟨hsame.overwrite.trans h.overwrite, prune_wide h.wide, fun m hm => prune_view hm⟩

variable (cellAt) in
/-- After a key the engine is on the screen the key was typed on. -/
theorem Ready.after {q p' : PredictionEngine} (h : Ready p numRows n)
    (hq : SameModes { p with lastHeight := numRows, lastWidth := n } q) (hp : SameModes q p')
    (hwide : p'.overlay.Wide n) :
    Ready p' numRows n ∧ ∀ m, p'.lineView numRows n cellAt m = p'.overlay.view cellAt m := by
  have hsame := hq.trans hp
  have hsized : p'.sized numRows n = p' :=
    if_neg (not_or.mpr ⟨not_not.mpr hsame.height, not_not.mpr hsame.width⟩)
  refine ⟨⟨hsame.overwrite.trans h.overwrite, hsame.preference.trans_ne h.preference,
    hsame.input.trans h.ground, by rwa [hsized]⟩, fun m => funext fun col => ?_⟩
  rw [lineView, hsized]

variable (now cellAt) in
theorem Ready.insert (h : Ready p numRows n) (hrow : row < numRows)
    (hch : isAsciiGraphic ch = true ∨ ch = ' ') (hc : c + 1 < n) :
    ∃ p', p.newUserByte ch row c n numRows now cellAt = some p' ∧ Ready p' numRows n ∧
      Inserted n c ch (p.lineView numRows n cellAt row) (p'.lineView numRows n cellAt row) ∧
      ∀ m < numRows, m ≠ row →
        p'.lineView numRows n cellAt m = p.lineView numRows n cellAt m := by
  obtain ⟨hmode, hwide, hview⟩ := h.prepare row c cellAt
  obtain ⟨p', hp', hsame, hwide', hinserted, hothers⟩ :=
    predictInsert_view ch row numRows now cellAt hmode hwide hc
  obtain ⟨hready, hview'⟩ := h.after cellAt
    (prepare_same row c n numRows h.preference).1 hsame hwide'
  refine ⟨p', by rw [newUserByte_insert h.preference h.ground hch, hp'], hready, ?_,
    fun m hm hne => ?_⟩
  · rw [hview', ← hview row hrow]
    exact hinserted
  · rw [hview', hothers m hne, hview m hm]

variable (now cellAt) in
theorem Ready.backspace (h : Ready p numRows n) (hrow : row < numRows) (hpos : 1 ≤ c)
    (hc : c < n) :
    ∃ p', p.newUserByte '\x7f' row c n numRows now cellAt = some p' ∧ Ready p' numRows n ∧
      Deleted n c (p.lineView numRows n cellAt row) (p'.lineView numRows n cellAt row) ∧
      ∀ m < numRows, m ≠ row →
        p'.lineView numRows n cellAt m = p.lineView numRows n cellAt m := by
  obtain ⟨hmode, hwide, hview⟩ := h.prepare row c cellAt
  obtain ⟨p', hp', hsame, hwide', hdeleted, hothers⟩ :=
    predictBackspace_view row now cellAt hmode hwide hpos hc
  obtain ⟨hready, hview'⟩ := h.after cellAt
    (prepare_same row c n numRows h.preference).1 hsame hwide'
  refine ⟨p', by rw [newUserByte_backspace h.preference h.ground, hp'], hready, ?_,
    fun m hm hne => ?_⟩
  · rw [hview', ← hview row hrow]
    exact hdeleted
  · rw [hview', hothers m hne, hview m hm]

variable (row now cellAt) in
theorem Ready.backspace_zero (h : Ready p numRows n) :
    ∃ p', p.newUserByte '\x7f' row 0 n numRows now cellAt = some p' ∧ Ready p' numRows n ∧
      ∀ m < numRows, p'.lineView numRows n cellAt m = p.lineView numRows n cellAt m := by
  obtain ⟨-, hwide, hview⟩ := h.prepare row 0 cellAt
  obtain ⟨hready, hview'⟩ := h.after cellAt
    (prepare_same row 0 n numRows h.preference).1 ⟨rfl, rfl, rfl, rfl, rfl⟩ hwide
  refine ⟨p.prepare row 0 n numRows, ?_, hready, fun m hm => by rw [hview', hview m hm]⟩
  rw [newUserByte_backspace h.preference h.ground, predictBackspace, if_pos rfl]

/-- Keys of one row, none at the right margin: what is known of the row is the
line with the same edits made on it, and the other rows stay as they were. -/
theorem typeLine_knows {edits : List (Edit Char × Nat)} {cells : List Char}
    (h : Ready p numRows n) (hrow : row < numRows) (hlen : cells.length = n)
    (hprint : ∀ e ∈ edits, Printable e.1) (hleft : StaysLeft n c (edits.map Prod.fst))
    (hknows : Knows (p.lineView numRows n cellAt row) cells) :
    ∃ p', typeLine row n numRows cellAt p c edits = some p' ∧
      Knows (p'.lineView numRows n cellAt row)
        ((edits.map Prod.fst).foldl (Line.edit ' ') ⟨cells, c⟩).cells ∧
      ∀ m < numRows, m ≠ row →
        p'.lineView numRows n cellAt m = p.lineView numRows n cellAt m := by
  induction edits generalizing p c cells with
  | nil => exact ⟨p, rfl, hknows, fun m _ _ => rfl⟩
  | cons e rest ih =>
      obtain ⟨edit, now⟩ := e
      have hrest : ∀ e ∈ rest, Printable e.1 := fun e he => hprint e (List.mem_cons_of_mem _ he)
      cases edit with
      | insert ch =>
          obtain ⟨hc, hleft⟩ := hleft
          obtain ⟨q, hq, hready, hinserted, hothers⟩ :=
            h.insert now cellAt hrow (hprint _ List.mem_cons_self) hc
          obtain ⟨p', hp', hknows', hothers'⟩ := ih hready
            ((length_insertAt (by omega)).trans hlen) hrest hleft
            (hknows.insertAt hlen hc hinserted)
          refine ⟨p', ?_, hknows', fun m hm hne => (hothers' m hm hne).trans (hothers m hm hne)⟩
          rw [typeLine, keyOf, hq]
          exact hp'
      | backspace =>
          obtain ⟨hc, hleft⟩ := hleft
          by_cases hzero : c = 0
          · subst hzero
            obtain ⟨q, hq, hready, hsame⟩ := h.backspace_zero row now cellAt
            obtain ⟨p', hp', hknows', hothers'⟩ := ih hready hlen hrest hleft
              (hsame row hrow ▸ hknows)
            refine ⟨p', ?_, hknows', fun m hm hne => (hothers' m hm hne).trans (hsame m hm)⟩
            rw [typeLine, keyOf, hq]
            exact hp'
          · obtain ⟨q, hq, hready, hdeleted, hothers⟩ :=
              h.backspace now cellAt hrow (Nat.pos_of_ne_zero hzero) hc
            obtain ⟨p', hp', hknows', hothers'⟩ := ih hready
              ((length_deleteAt (by omega)).trans hlen) hrest hleft
              (hknows.deleteAt hlen (Nat.pos_of_ne_zero hzero) hc hdeleted)
            refine ⟨p', ?_, ?_, fun m hm hne => (hothers' m hm hne).trans (hothers m hm hne)⟩
            · rw [typeLine, keyOf, hq]
              exact hp'
            · rw [List.map_cons, List.foldl_cons, Line.edit, if_neg hzero]
              exact hknows'

theorem sized_wide (h : p.overlay.Wide n) : (p.sized numRows n).overlay.Wide n := by
  unfold sized
  split
  · exact ⟨.nil, fun r hr => absurd hr List.not_mem_nil⟩
  · exact h

/-- In insert mode, on rows of `n` cells: an insertion left of the margin and a
backspace do to the view of the row what the edit does to a line, and leave the
other rows alone. So while keys stay left of the last column, what is known of
the row is the displayed line with the same edits made on it. -/
theorem typing_simulates_line_editing (p : PredictionEngine) (n : Nat)
    (cellAt : Nat → Nat → Char) (hmode : p.predictOverwrite = false)
    (hwide : p.overlay.Wide n) :
    (∀ ch row c numRows now, c + 1 < n →
      ∃ p', p.predictInsert ch row c n numRows now cellAt = some p' ∧
        Inserted n c ch (p.overlay.view cellAt row) (p'.overlay.view cellAt row) ∧
        ∀ m ≠ row, p'.overlay.view cellAt m = p.overlay.view cellAt m) ∧
    (∀ row c now, 1 ≤ c → c < n →
      ∃ p', p.predictBackspace row c n now cellAt = some p' ∧
        Deleted n c (p.overlay.view cellAt row) (p'.overlay.view cellAt row) ∧
        ∀ m ≠ row, p'.overlay.view cellAt m = p.overlay.view cellAt m) ∧
    ∀ row c numRows (edits : List (Edit Char × Nat)) (cells : List Char),
      p.displayPreference ≠ .never → p.inputState = .ground → row < numRows →
      cells.length = n → (∀ e ∈ edits, Printable e.1) →
      StaysLeft n c (edits.map Prod.fst) → Knows (p.lineView numRows n cellAt row) cells →
      ∃ p', typeLine row n numRows cellAt p c edits = some p' ∧
        Knows (p'.lineView numRows n cellAt row)
          ((edits.map Prod.fst).foldl (Line.edit ' ') ⟨cells, c⟩).cells ∧
        ∀ m < numRows, m ≠ row →
          p'.lineView numRows n cellAt m = p.lineView numRows n cellAt m := by
  refine ⟨fun ch row c numRows now hc => ?_, fun row c now hpos hc => ?_,
    fun row c numRows edits cells hpref hinput hrow hlen hprint hleft hknows => ?_⟩
  · obtain ⟨p', hp', -, -, hinserted, hothers⟩ :=
      predictInsert_view ch row numRows now cellAt hmode hwide hc
    exact ⟨p', hp', hinserted, hothers⟩
  · obtain ⟨p', hp', -, -, hdeleted, hothers⟩ :=
      predictBackspace_view row now cellAt hmode hwide hpos hc
    exact ⟨p', hp', hdeleted, hothers⟩
  · exact typeLine_knows ⟨hmode, hpref, hinput, sized_wide hwide⟩ hrow hlen hprint hleft hknows

/-- A command typed in front of what the line already shows. -/
def promptLine : List Char := "ls -a ".toList

theorem typing_simulates_line_editing_prompt :
    ∃ p', typeLine 0 6 1 (fun _ col => promptLine.getD col ' ') (.new 0) 2
        [(.insert 'x', 0), (.insert ' ', 1), (.backspace, 2)] = some p' ∧
      Knows (p'.lineView 1 6 (fun _ col => promptLine.getD col ' ') 0) "lsx - ".toList := by
  have hknows : Knows ((PredictionEngine.new 0).lineView 1 6
      (fun _ col => promptLine.getD col ' ') 0) promptLine := by
    intro i hi x hx
    cases hx
    change promptLine[i]? = some (promptLine.getD i ' ')
    rw [List.getD_eq_getElem?_getD, List.getElem?_eq_getElem hi, Option.getD_some]
  obtain ⟨-, -, htyping⟩ := typing_simulates_line_editing (.new 0) 6
    (fun _ col => promptLine.getD col ' ') rfl
    ⟨.nil, fun r hr => absurd hr List.not_mem_nil⟩
  obtain ⟨p', hp', hline, -⟩ := htyping 0 2 1
    [(.insert 'x', 0), (.insert ' ', 1), (.backspace, 2)] promptLine (by decide) rfl (by decide)
    rfl (by decide) (by simp [StaysLeft]) hknows
  exact ⟨p', hp', hline⟩

end PredictionEngine

end Morsh
