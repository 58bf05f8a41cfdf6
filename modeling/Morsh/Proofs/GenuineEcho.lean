import Morsh.Client.Frame
import Morsh.Prediction.CreditRun
import Morsh.Proofs.InRange
import Morsh.Proofs.TentativeCursor

/-!
# Credit is earned by an echo

What a key does to every cell of the overlay: leaves it alone, or predicts it
anew, with the characters predicted there before as the ones that earn no
credit. A prediction the server already showed when it was made is not among
them, so credit is an echo only where no such prediction is made. Then a cell
with credit shows what it did not show before, and what is painted rests on an
epoch the server has echoed.

The first part reads every key at one cell. `Edited` gives the row after an edit
cell by cell, `After` the overlay after a key, and `KeyAfter` says that the key
has left the predictions alone or has done this to them; the lemmas follow the
code from the edit of a row up to `new_user_byte`. The second part does the same
for a state of the server: a cell is kept, reset or found right, and only a cell
found right can earn credit.

`Earned` is the invariant of a run. Its one delicate field says of a prediction
that repeats what the server showed when it was made that the shown character is
among those that earn no credit. A key establishes it unless it is typed where
the server already shows it, which is the condition of the theorem, and a state
of the server cannot undo it. What is typed after an unpredictable key is of a
later epoch (`Since`), so an epoch that was confirmed before says nothing of it.
-/

namespace Morsh

namespace ConditionalOverlayCell

variable {cell cell' : ConditionalOverlayCell} {epoch : Nat}

/-- `cell'` is `cell` predicted anew. -/
structure Anew (cell cell' : ConditionalOverlayCell) (epoch : Nat) : Prop where
  col : cell'.col = cell.col
  active : cell'.active = true
  epoch : cell'.tentativeUntilEpoch = epoch
  originals : cell'.originalContents = cell.resetWithOrig.originalContents

theorem repredict_anew (cell : ConditionalOverlayCell) (epoch frame now : Nat) :
    Anew cell (cell.repredict epoch frame now) epoch := by
  refine ⟨?_, rfl, rfl, rfl⟩
  show cell.resetWithOrig.col = cell.col
  unfold resetWithOrig reset
  split <;> rfl

theorem Anew.mark (h : Anew cell cell' epoch) (unknown : Bool) (ch : Char) :
    Anew cell { cell' with unknown := unknown, replacement := ch } epoch :=
  ⟨h.col, h.active, h.epoch, h.originals⟩

theorem Anew.takeOver (h : Anew cell cell' epoch) (neighbour : ConditionalOverlayCell)
    (beside : Char) :
    Anew cell (if neighbour.active then
        if neighbour.unknown then { cell' with unknown := true }
        else { cell' with unknown := false, replacement := neighbour.replacement }
      else { cell' with unknown := false, replacement := beside }) epoch := by
  split
  · split
    · exact h.mark true cell'.replacement
    · exact h.mark false neighbour.replacement
  · exact h.mark false beside

theorem view_of_known {actual : Char} (hactive : cell.active = true)
    (hknown : cell.unknown = false) : cell.view actual = some cell.replacement := by
  rw [view, if_pos hactive, hknown]
  rfl

end ConditionalOverlayCell

namespace OverlayRow

open ConditionalOverlayCell

variable {row row' : OverlayRow} {cellAt : Nat → Char} {c n epoch frame now : Nat} {ch : Char}
  {i : Nat} {cell' : ConditionalOverlayCell}

/-- Cell `i` of the row after the edit: as it was, or where it is touched
predicted anew as what is foretold. -/
def Edited (row : OverlayRow) (cellAt : Nat → Char) (touched : Prop) (foretold : Option Char)
    (epoch i : Nat) (cell' : ConditionalOverlayCell) : Prop :=
  ∃ cell, row.cells[i]? = some cell ∧
    (¬ touched ∧ cell' = cell ∨
      touched ∧ Anew cell cell' epoch ∧ cell'.view (cellAt i) = foretold)

theorem insert_edited (hlen : row.cells.length = n)
    (h : row.insert ch c (n - 1) n epoch frame now cellAt = some row')
    (hcell : row'.cells[i]? = some cell') :
    row.Edited cellAt (c ≤ i)
      (if i = c then some ch else if i + 1 < n then row.view cellAt (i - 1) else none)
      epoch i cell' := by
  unfold insert at h
  split at h
  · cases h
    rw [List.getElem?_mapIdx, Option.map_eq_some_iff] at hcell
    obtain ⟨cell, hold, rfl⟩ := hcell
    have hi : i < n := hlen ▸ (List.getElem?_eq_some_iff.mp hold).1
    have hanew := repredict_anew cell epoch frame now
    refine ⟨cell, hold, ?_⟩
    by_cases heq : i = c
    · rw [if_pos heq, if_pos heq]
      exact .inr ⟨Nat.le_of_eq heq.symm, hanew.mark false ch, view_known rfl⟩
    · rw [if_neg heq, if_neg heq]
      by_cases hlt : c < i
      · rw [if_pos (by omega)]
        refine .inr ⟨Nat.le_of_lt hlt, ?_⟩
        by_cases hmargin : i = n - 1
        · rw [if_pos hmargin, if_neg (by omega)]
          exact ⟨hanew.mark true _, view_unknown rfl⟩
        · obtain ⟨left, hleft⟩ := exists_cell hlen (show i - 1 < n by omega)
          rw [if_neg hmargin, if_pos (by omega), hleft, view_some hleft]
          exact ⟨hanew.takeOver left _, view_takeOver rfl⟩
      · rw [if_neg (by omega)]
        exact .inl ⟨by omega, rfl⟩
  · cases h

theorem shiftLeft_edited (hlen : row.cells.length = n)
    (h : row.shiftLeft c n epoch frame now cellAt = some row')
    (hcell : row'.cells[i]? = some cell') :
    row.Edited cellAt (c ≤ i) (if i + 2 < n then row.view cellAt (i + 1) else none)
      epoch i cell' := by
  unfold shiftLeft at h
  split at h
  · cases h
    rw [List.getElem?_mapIdx, Option.map_eq_some_iff] at hcell
    obtain ⟨cell, hold, rfl⟩ := hcell
    have hi : i < n := hlen ▸ (List.getElem?_eq_some_iff.mp hold).1
    have hanew := repredict_anew cell epoch frame now
    refine ⟨cell, hold, ?_⟩
    by_cases hlt : c ≤ i
    · rw [if_pos ⟨hlt, hi⟩]
      refine .inr ⟨hlt, ?_⟩
      by_cases hmargin : i + 2 < n
      · obtain ⟨next, hnext⟩ := exists_cell hlen (show i + 1 < n by omega)
        rw [if_pos hmargin, if_pos hmargin, hnext, view_some hnext]
        exact ⟨hanew.takeOver next _, view_takeOver rfl⟩
      · rw [if_neg hmargin, if_neg hmargin]
        exact ⟨hanew.mark true _, view_unknown rfl⟩
    · rw [if_neg fun hboth => hlt hboth.1]
      exact .inl ⟨hlt, rfl⟩
  · cases h

theorem insert_rowNum {rightmost : Nat}
    (h : row.insert ch c rightmost n epoch frame now cellAt = some row') :
    row'.rowNum = row.rowNum := by
  unfold insert at h
  split at h
  · cases h
    rfl
  · cases h

theorem shiftLeft_rowNum (h : row.shiftLeft c n epoch frame now cellAt = some row') :
    row'.rowNum = row.rowNum := by
  unfold shiftLeft at h
  split at h
  · cases h
    rfl
  · cases h

theorem blank_cells (hcell : (row.blank epoch frame now).cells[i]? = some cell') :
    ∃ cell, row.cells[i]? = some cell ∧ cell'.col = cell.col ∧ cell'.active = true ∧
      cell'.tentativeUntilEpoch = epoch ∧ cell'.replacement = ' ' := by
  unfold blank at hcell
  rw [List.getElem?_map, Option.map_eq_some_iff] at hcell
  obtain ⟨cell, hold, rfl⟩ := hcell
  exact ⟨cell, hold, rfl, rfl, rfl, rfl⟩

end OverlayRow

namespace Overlay

open ConditionalOverlayCell

variable {o o' : Overlay} {rowNum n epoch now i : Nat} {f : OverlayRow → Option OverlayRow}
  {r : OverlayRow} {rows : List OverlayRow} {cell : ConditionalOverlayCell}

/-- Every cell knows its column. -/
def Indexed (o : Overlay) : Prop :=
  ∀ r ∈ o.rows, ∀ (i : Nat) (cell : ConditionalOverlayCell), r.cells[i]? = some cell → cell.col = i

theorem find_of_mem (horder : Ordered rows) (hr : r ∈ rows) : find r.rowNum rows = some r := by
  induction rows with
  | nil => exact absurd hr List.not_mem_nil
  | cons first rest ih =>
      obtain ⟨hafter, hrest⟩ := List.pairwise_cons.mp horder
      rw [find_cons]
      rcases List.mem_cons.mp hr with rfl | hr
      · rw [if_pos rfl]
      · rw [if_neg (Nat.ne_of_lt (hafter r hr)), ih hrest hr]

/-- A change of one row leaves that row changed, and the others as they are. -/
theorem Wide.updateRow_rows (h : o.Wide n) (hf : ∀ r r', f r = some r' → r'.rowNum = r.rowNum)
    (ho' : o.updateRow rowNum n epoch now f = some o') :
    ∃ row', f (o.current rowNum n epoch now) = some row' ∧ row'.rowNum = rowNum ∧
      ∀ r ∈ o'.rows, r = row' ∨ r ∈ o.rows ∧ r.rowNum ≠ rowNum := by
  cases hrow : f (o.current rowNum n epoch now) with
  | none => cases (h.updateRow_none hrow).symm.trans ho'
  | some row' =>
      obtain ⟨hnum, -, -⟩ := h.current rowNum epoch now fun _ _ => ' '
      obtain rfl : row'.rowNum = rowNum := (hf _ _ hrow).trans hnum
      obtain ⟨rows', hrows', hupdated⟩ := updateRows_updated h.order hrow
      rw [Overlay.updateRow, hrows'] at ho'
      cases ho'
      refine ⟨row', rfl, rfl, fun r hr => ?_⟩
      by_cases hsame : r.rowNum = row'.rowNum
      · have hfound := find_of_mem hupdated.order hr
        rw [hsame, hupdated.found] at hfound
        exact .inl (Option.some.inj hfound).symm
      · rcases hupdated.mem r hr with hr | rfl
        · exact .inr ⟨hr, hsame⟩
        · exact absurd rfl hsame

/-- A cell of the row a prediction is made on: one of the overlay, or an idle
one. -/
theorem current_cell (hcell : (o.current rowNum n epoch now).cells[i]? = some cell) :
    o.uncredited rowNum i = cell.resetWithOrig.originalContents ∧
      ((∃ r ∈ o.rows, r.rowNum = rowNum ∧ r.cells[i]? = some cell) ∨
        cell.col = i ∧ cell.active = false) := by
  unfold current at hcell
  unfold uncredited
  cases hrow : o.getRow rowNum with
  | none =>
      rw [hrow, Option.getD_none, OverlayRow.new, List.getElem?_map, Option.map_eq_some_iff]
        at hcell
      obtain ⟨k, hk, rfl⟩ := hcell
      obtain ⟨hlt, heq⟩ := List.getElem?_eq_some_iff.mp hk
      rw [List.getElem_range] at heq
      subst heq
      exact ⟨rfl, .inr ⟨rfl, rfl⟩⟩
  | some r =>
      rw [hrow, Option.getD_some] at hcell
      rw [Option.bind_some, hcell]
      exact ⟨rfl, .inl ⟨r, List.mem_of_find?_eq_some hrow, beq_iff_eq.mp (List.find?_some hrow :),
        hcell⟩⟩

theorem Indexed.current (h : o.Indexed)
    (hcell : (o.current rowNum n epoch now).cells[i]? = some cell) : cell.col = i := by
  obtain ⟨-, ⟨r, hr, -, hcell'⟩ | ⟨hcol, -⟩⟩ := current_cell hcell
  · exact h r hr i cell hcell'
  · exact hcol

/-- What a key has made of the overlay `o` in row `m` and column `i`: a cell of
`o` that the key does not touch, an idle one, or a new prediction, of an epoch
from `lo` to `hi` and as `foretold` unless it is a blank. -/
inductive After (o : Overlay) (touched : Prop) (lo hi : Nat) (foretold : Option Char) (m i : Nat)
    (cell : ConditionalOverlayCell) : Prop where
  | kept {r : OverlayRow} (hr : r ∈ o.rows) (hnum : r.rowNum = m)
      (hcell : r.cells[i]? = some cell) (h : ¬ touched)
  | idle (hcol : cell.col = i) (h : cell.active = false)
  | anew (h : touched) (hcol : cell.col = i) (hactive : cell.active = true)
      (hlow : lo ≤ cell.tentativeUntilEpoch) (hhigh : cell.tentativeUntilEpoch ≤ hi)
      (hknown : cell.unknown = false → cell.replacement = ' ' ∨
        foretold = some cell.replacement ∧ cell.originalContents = o.uncredited m i)

theorem After.col {touched : Prop} {lo hi m : Nat} {foretold : Option Char}
    (h : After o touched lo hi foretold m i cell) (hindexed : o.Indexed) : cell.col = i := by
  cases h with
  | kept hr hnum hcell => exact hindexed _ hr i cell hcell
  | idle hcol => exact hcol
  | anew _ hcol => exact hcol

theorem After.mono {touched touched' : Prop} {lo hi lo' hi' m : Nat}
    {foretold foretold' : Option Char} (h : After o touched lo hi foretold m i cell)
    (htouched : touched ↔ touched') (hlow : lo' ≤ lo) (hhigh : hi ≤ hi')
    (hforetold : touched → foretold = foretold') :
    After o touched' lo' hi' foretold' m i cell := by
  cases h with
  | kept hr hnum hcell h => exact .kept hr hnum hcell (mt htouched.mpr h)
  | idle hcol h => exact .idle hcol h
  | anew h hcol hactive hlow' hhigh' hknown =>
      exact .anew (htouched.mp h) hcol hactive (Nat.le_trans hlow hlow')
        (Nat.le_trans hhigh' hhigh) (hforetold h ▸ hknown)

theorem Wide.edit_after (h : o.Wide n) (hindexed : o.Indexed)
    (hf : ∀ r r', f r = some r' → r'.rowNum = r.rowNum)
    (ho' : o.updateRow rowNum n epoch now f = some o') {cellAt : Nat → Nat → Char}
    {touched : Nat → Prop} {foretold : Nat → Option Char}
    (hrow : ∀ r', f (o.current rowNum n epoch now) = some r' → ∀ i cell,
      r'.cells[i]? = some cell → (o.current rowNum n epoch now).Edited (cellAt rowNum) (touched i)
        (foretold i) epoch i cell) :
    ∀ r ∈ o'.rows, ∀ i cell, r.cells[i]? = some cell →
      After o (r.rowNum = rowNum ∧ touched i) epoch epoch (foretold i) r.rowNum i cell := by
  obtain ⟨row', hrow', hnum, hrows⟩ := h.updateRow_rows hf ho'
  intro r hr i cell hcell
  rcases hrows r hr with rfl | ⟨hr, hother⟩
  · obtain ⟨old, hold, hedit⟩ := hrow r hrow' i cell hcell
    obtain ⟨hcredit, hwhere⟩ := current_cell hold
    have hcol : old.col = i := hindexed.current hold
    rcases hedit with ⟨huntouched, rfl⟩ | ⟨htouched, hanew, hview⟩
    · rcases hwhere with ⟨r', hr', hnum', hcell'⟩ | ⟨hcol, hidle⟩
      · exact .kept hr' (hnum'.trans hnum.symm) hcell' fun hboth => huntouched hboth.2
      · exact .idle hcol hidle
    · refine .anew ⟨hnum, htouched⟩ (hanew.col.trans hcol) hanew.active
        (Nat.le_of_eq hanew.epoch.symm) (Nat.le_of_eq hanew.epoch) fun hknown => .inr ⟨?_, ?_⟩
      · rw [← hview, view_of_known hanew.active hknown]
      · rw [hanew.originals, hnum, hcredit]
  · exact .kept hr rfl hcell fun hboth => hother hboth.1

end Overlay

namespace PredictionEngine

open Overlay

variable {p p' q : PredictionEngine} {ch : Char} {row c n numRows now : Nat}
  {cellAt : Nat → Nat → Char}

/-- What a key has made of the predictions it found. -/
def KeyAfter (p p' : PredictionEngine) (ch : Char) (row c n numRows : Nat)
    (cellAt : Nat → Nat → Char) : Prop :=
  p.predictionEpoch ≤ p'.predictionEpoch ∧
    ∀ r ∈ p'.overlay.rows, ∀ i cell, r.cells[i]? = some cell →
      After p.overlay (p.Edits ch c ∧ r.rowNum = row ∧ touches ch row c n numRows i = true)
        p.predictionEpoch p'.predictionEpoch
        (foretold ch row c n numRows (p.overlay.view cellAt row) i) r.rowNum i cell

theorem KeyAfter.of_same (hoverlay : p'.overlay = p.overlay)
    (hepoch : p.predictionEpoch ≤ p'.predictionEpoch) (hedits : ¬ p.Edits ch c) :
    KeyAfter p p' ch row c n numRows cellAt := by
  refine ⟨hepoch, fun r hr i cell hcell => .kept (hoverlay ▸ hr) rfl hcell ?_⟩
  exact fun h => hedits h.1

theorem predictBackspace_after (h : p.Fits n) (hindexed : p.overlay.Indexed)
    (hedits : p.Edits '\x7f' c) (hc : c ≠ 0)
    (hp' : p.predictBackspace row c n now cellAt = some p') :
    KeyAfter p p' '\x7f' row c n numRows cellAt := by
  unfold predictBackspace at hp'
  rw [if_neg hc] at hp'
  dsimp only at hp'
  rw [h.overwrite] at hp'
  simp only [Bool.false_eq_true, if_false, Option.map_eq_some_iff] at hp'
  obtain ⟨o', ho', rfl⟩ := hp'
  obtain ⟨-, hlen, hview⟩ := h.wide.current row p.predictionEpoch now cellAt
  refine ⟨Nat.le_refl _, fun r hr i cell hcell => ?_⟩
  have hafter := h.wide.edit_after hindexed (fun _ _ => OverlayRow.shiftLeft_rowNum) ho'
    (fun r' hr' i cell hcell => OverlayRow.shiftLeft_edited hlen hr' hcell) r hr i cell hcell
  rw [hview] at hafter
  refine hafter.mono ?_ (Nat.le_refl _) (Nat.le_refl _) ?_
  · rw [touches, if_pos rfl, decide_eq_true_eq, Nat.sub_le_iff_le_add]
    exact ⟨fun htouched => ⟨hedits, htouched⟩, fun htouched => htouched.2⟩
  · intro htouched
    have hright : c ≤ i + 1 := Nat.sub_le_iff_le_add.mp htouched.2
    rw [foretold, if_pos rfl]
    by_cases hmargin : i + 2 < n
    · rw [if_pos hmargin, if_pos ⟨hright, hmargin⟩]
    · rw [if_neg hmargin, if_neg fun hboth => hmargin hboth.2]

/-- Where the line is broken, the row of the key is blanked if it is the last
one. -/
theorem newlineCarriageReturn_rows (hp' : p.newlineCarriageReturn row n numRows now = some p')
    (h : p.Fits n) :
    p'.predictionEpoch = p.predictionEpoch ∧
    if row + 1 ≥ numRows then
      ∀ r ∈ p'.overlay.rows, (r ∈ p.overlay.rows ∧ r.rowNum ≠ row) ∨
        r.rowNum = row ∧ r = (p.overlay.current row n p.predictionEpoch now).blank
          p.predictionEpoch (p.localFrameSent + 1) now
    else p'.overlay = p.overlay := by
  unfold newlineCarriageReturn at hp'
  dsimp only at hp'
  split at hp'
  · next hlast =>
      rw [if_pos hlast]
      obtain ⟨o', ho', rfl⟩ := Option.map_eq_some_iff.mp hp'
      refine ⟨rfl, fun r hr => ?_⟩
      have hf : ∀ r r' : OverlayRow,
          some (r.blank p.predictionEpoch (p.localFrameSent + 1) now) = some r' →
            r'.rowNum = r.rowNum := by
        rintro r r' ⟨⟩
        rfl
      obtain ⟨row', hrow', hnum, hrows⟩ := h.wide.updateRow_rows hf ho'
      cases hrow'
      rcases hrows r hr with rfl | hr
      · exact .inr ⟨hnum, rfl⟩
      · exact .inl hr
  · next hlast =>
      rw [if_neg hlast]
      cases hp'
      exact ⟨rfl, rfl⟩

theorem insert_after (h : p.Fits n) (hindexed : p.overlay.Indexed) {frame : Nat} {o' : Overlay}
    (ho' : (p.overlay.updateRow row n p.predictionEpoch now fun r =>
      r.insert ch c (n - 1) n p.predictionEpoch frame now (cellAt row)) = some o') :
    ∀ r ∈ o'.rows, ∀ i cell, r.cells[i]? = some cell →
      After p.overlay (r.rowNum = row ∧ c ≤ i) p.predictionEpoch p.predictionEpoch
        (if i = c then some ch else if i + 1 < n then p.overlay.view cellAt row (i - 1) else none)
        r.rowNum i cell := by
  obtain ⟨-, hlen, hview⟩ := h.wide.current row p.predictionEpoch now cellAt
  rw [← hview]
  exact h.wide.edit_after hindexed (fun _ _ => OverlayRow.insert_rowNum) ho'
    fun r' hr' i cell hcell => OverlayRow.insert_edited hlen hr' hcell

theorem touches_insert (hch : ch ≠ '\x7f') (i : Nat) :
    touches ch row c n numRows i = true ↔ c ≤ i ∨ n ≤ c + 1 ∧ numRows ≤ row + 1 := by
  rw [touches, if_neg hch, Bool.or_eq_true, Bool.and_eq_true]
  simp only [decide_eq_true_eq]

theorem foretold_insert (hch : ch ≠ '\x7f') (hroom : ¬ (n ≤ c + 1 ∧ numRows ≤ row + 1))
    (view : Nat → Option Char) {i : Nat} (hi : c ≤ i) :
    foretold ch row c n numRows view i
      = if i = c then some ch else if i + 1 < n then view (i - 1) else none := by
  rw [foretold, if_neg hch, if_neg hroom]
  by_cases heq : i = c
  · rw [if_pos heq, if_pos heq]
  · rw [if_neg heq, if_neg heq]
    have hlt : c < i := by omega
    by_cases hmargin : i + 1 < n
    · rw [if_pos ⟨hlt, hmargin⟩, if_pos hmargin]
    · rw [if_neg fun hboth => hmargin hboth.2, if_neg hmargin]

/-- An insertion after which the row is not blanked. -/
theorem After.inserted (hedits : p.Edits ch c) (hch : ch ≠ '\x7f')
    (hroom : ¬ (n ≤ c + 1 ∧ numRows ≤ row + 1)) {view : Nat → Option Char} {lo hi m i : Nat}
    {cell : ConditionalOverlayCell} (hlow : p.predictionEpoch ≤ lo)
    (hhigh : lo ≤ hi)
    (h : After p.overlay (m = row ∧ c ≤ i) lo lo
      (if i = c then some ch else if i + 1 < n then view (i - 1) else none) m i cell) :
    After p.overlay (p.Edits ch c ∧ m = row ∧ touches ch row c n numRows i = true)
      p.predictionEpoch hi (foretold ch row c n numRows view i) m i cell := by
  refine h.mono ?_ hlow hhigh fun htouched => (foretold_insert hch hroom view htouched.2).symm
  rw [touches_insert hch]
  constructor
  · intro htouched
    exact ⟨hedits, htouched.1, .inl htouched.2⟩
  · rintro ⟨-, hrow, hi | hlast⟩
    · exact ⟨hrow, hi⟩
    · exact absurd hlast hroom

/-- A wrap on the last row predicts blanks, whatever was inserted. -/
theorem blanked_after (hindexed : p.overlay.Indexed) (hedits : p.Edits ch c)
    (hch : ch ≠ '\x7f') (hlast : n ≤ c + 1 ∧ numRows ≤ row + 1) {o' : Overlay}
    {foretold₁ : Nat → Option Char} {lo epoch frame : Nat}
    (hlow : p.predictionEpoch ≤ epoch)
    (hinserted : ∀ r ∈ o'.rows, ∀ i cell, r.cells[i]? = some cell →
      After p.overlay (r.rowNum = row ∧ c ≤ i) lo lo (foretold₁ i) r.rowNum i cell)
    {rows : List OverlayRow}
    (hrows : ∀ r ∈ rows, (r ∈ o'.rows ∧ r.rowNum ≠ row) ∨
      r.rowNum = row ∧ r = (o'.current row n epoch now).blank epoch frame now) :
    ∀ r ∈ rows, ∀ i cell, r.cells[i]? = some cell →
      After p.overlay (p.Edits ch c ∧ r.rowNum = row ∧ touches ch row c n numRows i = true)
        p.predictionEpoch epoch
        (foretold ch row c n numRows (p.overlay.view cellAt row) i) r.rowNum i cell := by
  intro r hr i cell hcell
  rcases hrows r hr with ⟨hr, hother⟩ | ⟨hnum, hblank⟩
  · cases hinserted r hr i cell hcell with
    | kept hold hnum hcell' => exact .kept hold hnum hcell' fun hall => hother hall.2.1
    | idle hcol hidle => exact .idle hcol hidle
    | anew htouched => exact absurd htouched.1 hother
  · have hindexed' : o'.Indexed := fun r hr i cell hcell =>
      (hinserted r hr i cell hcell).col hindexed
    rw [hblank] at hcell
    obtain ⟨old, hold, hcol, hactive, hepoch, hspace⟩ := OverlayRow.blank_cells hcell
    refine .anew ⟨hedits, hnum, (touches_insert hch i).mpr (.inr hlast)⟩
      (hcol.trans (hindexed'.current hold)) hactive (hepoch ▸ hlow) (Nat.le_of_eq hepoch)
      fun _ => .inl hspace

theorem predictInsert_after (h : p.Fits n) (hindexed : p.overlay.Indexed)
    (hedits : p.Edits ch c) (hch : ch ≠ '\x7f') (hc : c < n)
    (hp' : p.predictInsert ch row c n numRows now cellAt = some p') :
    KeyAfter p p' ch row c n numRows cellAt := by
  unfold predictInsert at hp'
  dsimp only at hp'
  by_cases hmargin : c + 1 < n
  case pos =>
    have hroom : ¬ (n ≤ c + 1 ∧ numRows ≤ row + 1) := fun hlast => Nat.not_lt.mpr hlast.1 hmargin
    rw [if_neg (Nat.not_le.mpr hmargin)] at hp'
    split at hp'
    · cases hp'
    · rw [h.overwrite, if_neg Bool.false_ne_true] at hp'
      obtain ⟨o', ho', hp'⟩ := Option.bind_eq_some_iff.mp hp'
      cases hp'
      exact ⟨Nat.le_refl _, fun r hr i cell hcell =>
        After.inserted hedits hch hroom (Nat.le_refl _) (Nat.le_refl _)
          (insert_after h hindexed ho' r hr i cell hcell)⟩
  case neg =>
    have hwrap : n ≤ c + 1 := Nat.not_lt.mp hmargin
    rw [if_pos hwrap] at hp'
    split at hp'
    · cases hp'
    · have htentative : p.becomeTentative.Fits n := ⟨h.overwrite, h.width, h.wide⟩
      rw [show p.becomeTentative.predictOverwrite = false from h.overwrite,
        if_neg Bool.false_ne_true] at hp'
      obtain ⟨o', ho', hp'⟩ := Option.bind_eq_some_iff.mp hp'
      have hinserted := insert_after htentative hindexed ho'
      obtain ⟨o, ho, hwide⟩ := htentative.wide.updateRow_total row (p.predictionEpoch + 1) now
        fun r hlen => OverlayRow.insert_total (p.predictionEpoch + 1) (p.localFrameSent + 1) now
          hlen hc ch (cellAt row)
      obtain rfl : o = o' := Option.some.inj (ho.symm.trans ho')
      obtain ⟨hepoch, hrows⟩ := newlineCarriageReturn_rows hp' ⟨rfl, h.width, hwide⟩
      have hepoch : p'.predictionEpoch = p.predictionEpoch + 1 + 1 := hepoch
      refine ⟨by omega, ?_⟩
      by_cases hlast : row + 1 ≥ numRows
      · rw [if_pos hlast] at hrows
        rw [hepoch]
        exact blanked_after hindexed hedits hch ⟨hwrap, hlast⟩ (by omega) hinserted hrows
      · rw [if_neg hlast] at hrows
        intro r hr i cell hcell
        rw [hrows] at hr
        refine After.inserted hedits hch (fun hboth => hlast hboth.2) (Nat.le_succ _) ?_
          (hinserted r hr i cell hcell)
        rw [hepoch]
        exact Nat.le_succ _

theorem predictCursorKey_after (input : InputState) (numCols : Nat)
    (hedits : ¬ p.Edits ch c) :
    KeyAfter p ({ p with inputState := input }.predictCursorKey ch numCols) ch row c n numRows
      cellAt := by
  unfold predictCursorKey
  dsimp only
  split
  · split <;> exact .of_same rfl (Nat.le_refl _) hedits
  · split <;> exact .of_same rfl (Nat.le_refl _) hedits
  · exact .of_same rfl (Nat.le_succ _) hedits

theorem dispatch_after (h : p.Fits n) (hindexed : p.overlay.Indexed)
    (hpref : p.displayPreference ≠ .never)
    (hp' : p.dispatch ch row c n numRows now cellAt = some p') :
    KeyAfter p p' ch row c n numRows cellAt := by
  have hsequence : p.inputState ≠ .ground → ¬ p.Edits ch c := fun hinput hedits =>
    hinput hedits.2.1
  unfold dispatch at hp'
  split at hp'
  case h_1 hinput =>
    have hedits := hsequence (hinput ▸ nofun)
    split at hp'
    · cases hp'
      exact .of_same rfl (Nat.le_refl _) hedits
    · split at hp'
      · cases hp'
        exact .of_same rfl (Nat.le_refl _) hedits
      · cases hp'
        exact .of_same rfl (Nat.le_succ _) hedits
  case h_2 hinput =>
    have hedits := hsequence (hinput ▸ nofun)
    split at hp'
    · cases hp'
      exact predictCursorKey_after .ground n hedits
    · cases hp'
      exact .of_same rfl (Nat.le_refl _) hedits
  case h_3 hinput =>
    cases hp'
    exact predictCursorKey_after .ground n (hsequence (hinput ▸ nofun))
  case h_4 hinput =>
    split at hp'
    · next hesc =>
        cases hp'
        refine .of_same rfl (Nat.le_refl _) fun hedits => ?_
        have hkey := hedits.2.2
        subst hesc
        revert hkey
        simp [isAsciiGraphic]
    · split at hp'
      · next hdel =>
          subst hdel
          by_cases hc : c = 0
          · unfold predictBackspace at hp'
            rw [if_pos hc] at hp'
            cases hp'
            refine .of_same rfl (Nat.le_refl _) fun hedits => ?_
            have hkey := hedits.2.2
            revert hkey
            simp [isAsciiGraphic, hc]
          · exact predictBackspace_after h hindexed ⟨hpref, hinput, .inl ⟨rfl, hc⟩⟩ hc hp'
      · next hdel =>
          split at hp'
          · next hcontrol =>
              cases hp'
              refine .of_same rfl (Nat.le_succ _) fun hedits => ?_
              rcases hedits.2.2 with ⟨hkey, -⟩ | hprint
              · exact hdel hkey
              · rw [not_isControl hprint] at hcontrol
                grind
          · next hcontrol =>
              have hprint : isAsciiGraphic ch = true ∨ ch = ' ' := by grind
              have hc : c < n := by
                by_contra hout
                rw [h.predictInsert_none ch row numRows now cellAt (Nat.not_lt.mp hout)] at hp'
                cases hp'
              exact predictInsert_after h hindexed ⟨hpref, hinput, .inr hprint⟩ hdel hc hp'

/-! ## Keys do not confirm anything -/

theorem predictInsert_confirmed
    (hp' : p.predictInsert ch row c n numRows now cellAt = some p') :
    p'.confirmedEpoch = p.confirmedEpoch := by
  have hwrapped : ∀ q : PredictionEngine, q.newlineCarriageReturn row n numRows now = some p' →
      p'.confirmedEpoch = q.confirmedEpoch := by
    intro q hq
    unfold newlineCarriageReturn at hq
    dsimp only at hq
    split at hq
    · obtain ⟨o', -, rfl⟩ := Option.map_eq_some_iff.mp hq
      rfl
    · cases hq
      rfl
  unfold predictInsert at hp'
  dsimp only at hp'
  generalize hq : (if c + 1 ≥ n then p.becomeTentative else p) = q at hp'
  have hsame : q.confirmedEpoch = p.confirmedEpoch := by
    subst hq
    split <;> rfl
  split at hp'
  · cases hp'
  · obtain ⟨o', -, hp'⟩ := Option.bind_eq_some_iff.mp hp'
    split at hp'
    · cases hp'
      exact hsame
    · exact (hwrapped _ hp').trans hsame

theorem dispatch_confirmed (hp' : p.dispatch ch row c n numRows now cellAt = some p') :
    p'.confirmedEpoch = p.confirmedEpoch := by
  have hcursor : ∀ q : PredictionEngine, (q.predictCursorKey ch n).confirmedEpoch
      = q.confirmedEpoch := by
    intro q
    unfold predictCursorKey
    dsimp only
    split
    · split <;> rfl
    · split <;> rfl
    · rfl
  unfold dispatch at hp'
  split at hp'
  case h_1 =>
    split at hp'
    · cases hp'; rfl
    · split at hp' <;> (cases hp'; rfl)
  case h_2 =>
    split at hp'
    · cases hp'
      exact hcursor _
    · cases hp'; rfl
  case h_3 =>
    cases hp'
    exact hcursor _
  case h_4 =>
    split at hp'
    · cases hp'; rfl
    · split at hp'
      · unfold predictBackspace at hp'
        split at hp'
        · cases hp'; rfl
        · obtain ⟨o', -, rfl⟩ := Option.map_eq_some_iff.mp hp'
          rfl
      · split at hp'
        · cases hp'; rfl
        · exact predictInsert_confirmed hp'

variable (p row c n numRows) in
theorem prepare_epochs :
    p.predictionEpoch ≤ (p.prepare row c n numRows).predictionEpoch ∧
      (p.prepare row c n numRows).confirmedEpoch = p.confirmedEpoch := by
  obtain ⟨-, hsized⟩ := sized_cursors p numRows n
  obtain ⟨-, hculled⟩ := cull_cursors (p.sized numRows n) numRows
  obtain ⟨hinit, -⟩ := initCursor_cursors ((p.sized numRows n).cull numRows) row c
  have hprepare : p.prepare row c n numRows
      = ((p.sized numRows n).cull numRows).initCursor row c := rfl
  rw [hprepare]
  refine ⟨by omega, ?_⟩
  have hinitConfirmed : ∀ q : PredictionEngine, (q.initCursor row c).confirmedEpoch
      = q.confirmedEpoch := by
    intro q
    unfold initCursor
    dsimp only
    split <;> rfl
  have hcullConfirmed : ∀ q : PredictionEngine, (q.cull numRows).confirmedEpoch
      = q.confirmedEpoch := by
    intro q
    unfold cull
    grind
  rw [hinitConfirmed, hcullConfirmed]
  unfold sized
  split <;> rfl

/-- A key on a screen of `n` columns, from whatever the engine is at. -/
theorem newUserByte_after {m : Nat} (h : p.Fits m) (hindexed : p.overlay.Indexed)
    (hp' : p.newUserByte ch row c n numRows now cellAt = some p') :
    p'.confirmedEpoch = p.confirmedEpoch ∧ p.predictionEpoch ≤ p'.predictionEpoch ∧
    (p' = p ∧ p.displayPreference = .never ∨
      p'.Fits n ∧ ∀ r ∈ p'.overlay.rows, ∀ i cell, r.cells[i]? = some cell →
        After (p.fitted numRows n)
          (p.Edits ch c ∧ r.rowNum = row ∧ touches ch row c n numRows i = true)
          p.predictionEpoch p'.predictionEpoch
          (foretold ch row c n numRows ((p.fitted numRows n).view cellAt row) i)
          r.rowNum i cell) := by
  unfold newUserByte at hp'
  split at hp'
  · next hnever =>
      cases hp'
      exact ⟨rfl, Nat.le_refl _, .inl ⟨rfl, hnever⟩⟩
  · next hpref =>
      obtain ⟨hsame, hoverlay⟩ := prepare_same (p := p) row c n numRows hpref
      obtain ⟨hepoch, hconfirmed⟩ := prepare_epochs p row c n numRows
      have hfits := h.prepare row c n numRows hpref
      have hpref' : (p.prepare row c n numRows).displayPreference ≠ .never :=
        hsame.preference.trans_ne hpref
      have hfitted : (p.prepare row c n numRows).overlay = p.fitted numRows n := hoverlay
      have hindexed' : (p.prepare row c n numRows).overlay.Indexed := by
        rw [hoverlay]
        intro r hr
        have hr := (List.mem_filter.mp hr).1
        revert hr
        unfold sized
        split
        · exact fun hr => absurd hr List.not_mem_nil
        · exact fun hr => hindexed r hr
      obtain ⟨hepoch', hafter⟩ := dispatch_after hfits hindexed' hpref' hp'
      refine ⟨(dispatch_confirmed hp').trans hconfirmed, Nat.le_trans hepoch hepoch', .inr ⟨?_, ?_⟩⟩
      · rcases hfits.dispatch ch row c numRows now cellAt with ⟨hnone, -⟩ | ⟨q, hq, hfits', -⟩
        · cases hnone.symm.trans hp'
        · exact Option.some.inj (hq.symm.trans hp') ▸ hfits'
      · intro r hr i cell hcell
        have hcellAfter := hafter r hr i cell hcell
        rw [hfitted] at hcellAfter
        refine hcellAfter.mono ?_ hepoch (Nat.le_refl _) fun _ => rfl
        have hiff : (p.prepare row c n numRows).Edits ch c ↔ p.Edits ch c := by
          unfold Edits
          rw [hsame.preference, hsame.input]
        rw [hiff]

/-- An unpredictable key begins a new epoch, and predicts nothing. Every way the
engine has with such a byte makes it tentative, and it is neither an insertion nor
a backspace. -/
theorem unpredictable_epoch (h : p.Unpredictable ch)
    (hp' : p.newUserByte ch row c n numRows now cellAt = some p') :
    p.predictionEpoch < p'.predictionEpoch ∧ ¬ p.Edits ch c := by
  obtain ⟨hpref, hkey⟩ := h
  have hbegun := (prepare_epochs p row c n numRows).1
  have hinput := (prepare_same (p := p) row c n numRows hpref).1.input
  unfold newUserByte at hp'
  rw [if_neg hpref] at hp'
  generalize p.prepare row c n numRows = q at hbegun hinput hp'
  have hcursor : ∀ q : PredictionEngine, ch ≠ 'C' → ch ≠ 'D' →
      q.predictCursorKey ch n = q.unknownInput := by
    intro q hright hleft
    unfold predictCursorKey
    dsimp only
    split
    · exact absurd rfl hright
    · exact absurd rfl hleft
    · rfl
  unfold dispatch at hp'
  rw [hinput] at hp'
  cases hstate : p.inputState with
  | ground =>
      rw [hstate] at hp' hkey
      obtain ⟨hesc, hdel, hprint⟩ := hkey
      have hplain : (isControl ch || (!isAsciiGraphic ch && decide (ch ≠ ' '))) = true := by grind
      dsimp only at hp'
      rw [if_neg hesc, if_neg hdel, if_pos hplain] at hp'
      cases hp'
      refine ⟨Nat.lt_succ_of_le hbegun, fun hedits => ?_⟩
      rcases hedits.2.2 with ⟨hch, -⟩ | hch
      · exact hdel hch
      · exact hprint hch
  | escape =>
      rw [hstate] at hp' hkey
      dsimp only at hp'
      rw [if_neg hkey.1, if_neg hkey.2] at hp'
      cases hp'
      exact ⟨Nat.lt_succ_of_le hbegun, fun hedits => nomatch hstate.symm.trans hedits.2.1⟩
  | csi =>
      rw [hstate] at hp' hkey
      dsimp only at hp'
      rw [if_pos ⟨hkey.1, hkey.2.1⟩, hcursor _ hkey.2.2.1 hkey.2.2.2] at hp'
      cases hp'
      exact ⟨Nat.lt_succ_of_le hbegun, fun hedits => nomatch hstate.symm.trans hedits.2.1⟩
  | ss3 =>
      rw [hstate] at hp' hkey
      dsimp only at hp'
      rw [hcursor _ hkey.1 hkey.2] at hp'
      cases hp'
      exact ⟨Nat.lt_succ_of_le hbegun, fun hedits => nomatch hstate.symm.trans hedits.2.1⟩

theorem painted_active {frame : ScreenSnapshot} {m : Nat} {cell : ConditionalOverlayCell}
    (h : p.applyCell m frame cell ≠ frame) :
    cell.active = true ∧ cell.tentativeUntilEpoch ≤ p.confirmedEpoch := by
  unfold applyCell ConditionalOverlayCell.isTentative at h
  split at h
  · exact absurd rfl h
  · grind

end PredictionEngine

/-! ## The server's states -/

theorem ConditionalOverlayCell.credited_of_getValidity {cell : ConditionalOverlayCell}
    {actual : Char} {rows cols early late : Nat}
    (h : cell.getValidity actual rows cols early late = .correct) :
    cell.active = true ∧ cell.unknown = false ∧ cell.expirationFrame ≤ late ∧
      actual = cell.replacement ∧ cell.replacement ≠ ' ' ∧
      cell.replacement ∉ cell.originalContents := by
  unfold getValidity at h
  by_cases hactual : actual = cell.replacement
  · subst hactual
    grind
  · grind

namespace PredictionEngine

variable {p : PredictionEngine} {now : Nat}

theorem scanCell_cell (actual : Char) (scan : Scan) (cell : ConditionalOverlayCell) :
    (p.scanCell now actual scan cell).2 = cell ∨
      (p.scanCell now actual scan cell).2 = cell.reset := by
  unfold scanCell
  split
  · exact .inl rfl
  · exact .inr rfl
  · exact .inr rfl
  · exact .inl rfl
  · exact .inl rfl

variable (p now) in
theorem scanCell_confirmed (actual : Char) (scan : Scan) (cell : ConditionalOverlayCell) :
    (p.scanCell now actual scan cell).1.maxConfirmed = scan.maxConfirmed ∨
      cell.getValidity actual p.lastHeight p.lastWidth p.localFrameAcked p.localFrameLateAcked
          = .correct ∧
        (p.scanCell now actual scan cell).1.maxConfirmed = cell.tentativeUntilEpoch := by
  unfold scanCell
  split
  · exact .inl rfl
  · next hcorrect =>
      have hmax : max scan.maxConfirmed cell.tentativeUntilEpoch = scan.maxConfirmed ∨
          max scan.maxConfirmed cell.tentativeUntilEpoch = cell.tentativeUntilEpoch := by omega
      refine hmax.imp ?_ ?_
      · intro hsame
        dsimp only
        split <;> exact hsame
      · intro hraised
        refine ⟨hcorrect, ?_⟩
        dsimp only
        split <;> exact hraised
  · exact .inl rfl
  · refine .inl ?_
    dsimp only
    split
    · rfl
    · split <;> rfl
  · exact .inl rfl

theorem scanCells_cell {getCell : Nat → Char} {scan : Scan} {cells : List ConditionalOverlayCell}
    {i : Nat} {cell' : ConditionalOverlayCell}
    (h : (p.scanCells now getCell scan cells).2[i]? = some cell') :
    ∃ cell, cells[i]? = some cell ∧ (cell' = cell ∨ cell' = cell.reset) := by
  induction cells generalizing scan i with
  | nil => cases h
  | cons first rest ih =>
      cases i with
      | zero =>
          refine ⟨first, rfl, ?_⟩
          have hcell' : (p.scanCell now (getCell first.col) scan first).2 = cell' :=
            Option.some.inj h
          rw [← hcell']
          exact scanCell_cell _ _ _
      | succ i => exact ih h

variable (p now) in
theorem scanCells_confirmed (getCell : Nat → Char) (scan : Scan)
    (cells : List ConditionalOverlayCell) :
    (p.scanCells now getCell scan cells).1.maxConfirmed = scan.maxConfirmed ∨
      ∃ cell ∈ cells,
        cell.getValidity (getCell cell.col) p.lastHeight p.lastWidth p.localFrameAcked
            p.localFrameLateAcked = .correct ∧
          (p.scanCells now getCell scan cells).1.maxConfirmed = cell.tentativeUntilEpoch := by
  induction cells generalizing scan with
  | nil => exact .inl rfl
  | cons first rest ih =>
      rcases ih (p.scanCell now (getCell first.col) scan first).1 with hrest | ⟨cell, hcell, hvalid⟩
      · rcases scanCell_confirmed p now (getCell first.col) scan first with
          hfirst | ⟨hvalid, hfirst⟩
        · exact .inl (hrest.trans hfirst)
        · exact .inr ⟨first, List.mem_cons_self, hvalid, hrest.trans hfirst⟩
      · exact .inr ⟨cell, List.mem_cons_of_mem _ hcell, hvalid⟩

theorem scanRows_cell {getCell : Nat → Nat → Char} {scan : Scan} {rows : List OverlayRow} :
    ∀ r' ∈ (p.scanRows now getCell scan rows).2, ∃ r ∈ rows, r'.rowNum = r.rowNum ∧
      ∀ (i : Nat) (cell' : ConditionalOverlayCell), r'.cells[i]? = some cell' →
        ∃ cell, r.cells[i]? = some cell ∧ (cell' = cell ∨ cell' = cell.reset) := by
  induction rows generalizing scan with
  | nil => exact fun r' hr' => absurd hr' List.not_mem_nil
  | cons first rest ih =>
      intro r' hr'
      rcases List.mem_cons.mp hr' with rfl | hr'
      · exact ⟨first, List.mem_cons_self, rfl, fun i cell' h => scanCells_cell h⟩
      · obtain ⟨r, hr, hsame⟩ := ih r' hr'
        exact ⟨r, List.mem_cons_of_mem _ hr, hsame⟩

variable (p now) in
theorem scanRows_confirmed (getCell : Nat → Nat → Char) (scan : Scan) (rows : List OverlayRow) :
    (p.scanRows now getCell scan rows).1.maxConfirmed = scan.maxConfirmed ∨
      ∃ r ∈ rows, ∃ cell ∈ r.cells,
        cell.getValidity (getCell r.rowNum cell.col) p.lastHeight p.lastWidth p.localFrameAcked
            p.localFrameLateAcked = .correct ∧
          (p.scanRows now getCell scan rows).1.maxConfirmed = cell.tentativeUntilEpoch := by
  induction rows generalizing scan with
  | nil => exact .inl rfl
  | cons first rest ih =>
      rcases ih (p.scanCells now (getCell first.rowNum) scan first.cells).1 with
        hrest | ⟨r, hr, hvalid⟩
      · rcases scanCells_confirmed p now (getCell first.rowNum) scan first.cells
          with hfirst | ⟨cell, hcell, hvalid, hfirst⟩
        · exact .inl (hrest.trans hfirst)
        · exact .inr ⟨first, List.mem_cons_self, cell, hcell, hvalid, hrest.trans hfirst⟩
      · exact .inr ⟨r, List.mem_cons_of_mem _ hr, hvalid⟩

/-- Everything a validation leaves of the predictions. Either all of them are
dropped, or each cell that is left is a cell from before, as it was or reset; none
is new. -/
theorem validatePredictions_cell (getCell : Nat → Nat → Char) (row col : Nat) :
    p.predictionEpoch ≤ (p.validatePredictions now getCell row col).predictionEpoch ∧
    ∀ r' ∈ (p.validatePredictions now getCell row col).overlay.rows,
      ∃ r ∈ p.overlay.rows, r'.rowNum = r.rowNum ∧
        ∀ (i : Nat) (cell' : ConditionalOverlayCell), r'.cells[i]? = some cell' →
          ∃ cell, r.cells[i]? = some cell ∧ (cell' = cell ∨ cell' = cell.reset) := by
  unfold validatePredictions
  dsimp only
  split
  · exact ⟨Nat.le_succ _, fun r' hr' => absurd hr' List.not_mem_nil⟩
  · exact ⟨Nat.le_refl _, scanRows_cell⟩

theorem validatePredictions_confirmed (getCell : Nat → Nat → Char) (row col : Nat) :
    (p.validatePredictions now getCell row col).confirmedEpoch = p.confirmedEpoch ∨
      ∃ r ∈ p.overlay.rows, ∃ cell ∈ r.cells,
        cell.getValidity (getCell r.rowNum cell.col) p.lastHeight p.lastWidth p.localFrameAcked
            p.localFrameLateAcked = .correct ∧
          (p.validatePredictions now getCell row col).confirmedEpoch
            = cell.tentativeUntilEpoch := by
  have hscan := scanRows_confirmed p now getCell
    ⟨false, p.confirmedEpoch, p.glitchTrigger, p.lastQuickConfirmation⟩ p.overlay.rows
  unfold validatePredictions
  dsimp only
  split <;> exact hscan

end PredictionEngine

namespace CreditRun

open Run PredictionEngine Overlay

variable {s s₁ s' : CreditRun}

/-- What holds of every cell of the overlay: a prediction is of an epoch begun,
and where it repeats what the server showed it is none that earns credit. -/
structure Judged (s : CreditRun) (m i : Nat) (cell : ConditionalOverlayCell) : Prop where
  col : cell.col = i
  epoch : cell.active = true → cell.tentativeUntilEpoch ≤ s.engine.predictionEpoch
  fresh : cell.active = true → cell.unknown = false → s.shown m i = cell.replacement →
    cell.replacement = ' ' ∨ cell.replacement ∈ cell.originalContents

/-- Only an echo has confirmed anything. -/
structure Earned (s : CreditRun) : Prop where
  fits : ∃ n, s.engine.Fits n
  begun : 1 ≤ s.engine.predictionEpoch
  cells : ∀ r ∈ s.engine.overlay.rows, ∀ (i : Nat) (cell : ConditionalOverlayCell),
    r.cells[i]? = some cell → s.Judged r.rowNum i cell
  confirmed : s.engine.confirmedEpoch = 0 ∨ s.engine.confirmedEpoch ∈ s.echoed

theorem Earned.indexed (h : Earned s) : s.engine.overlay.Indexed := fun r hr i cell hcell =>
  (h.cells r hr i cell hcell).col

theorem Judged.idle {m i : Nat} {cell : ConditionalOverlayCell} (hcol : cell.col = i)
    (hidle : cell.active = false) : s.Judged m i cell where
  col := hcol
  epoch hactive := absurd (hidle.symm.trans hactive) Bool.false_ne_true
  fresh hactive := absurd (hidle.symm.trans hactive) Bool.false_ne_true

theorem mem_fitted {p : PredictionEngine} {numRows numCols : Nat} {r : OverlayRow}
    (hr : r ∈ (p.fitted numRows numCols).rows) : r ∈ p.overlay.rows := by
  have hr := (List.mem_filter.mp hr).1
  revert hr
  unfold sized
  split
  · exact fun hr => absurd hr List.not_mem_nil
  · exact id

/-- A prediction that earns credit is an echo. Credit needs a change of the cell:
a prediction that only repeats what was there before is judged correct without
any. -/
theorem Earned.echo (h : Earned s) {getCell : Nat → Nat → Char} {r : OverlayRow}
    (hr : r ∈ s.engine.overlay.rows) {cell : ConditionalOverlayCell} (hcell : cell ∈ r.cells)
    {rows cols early : Nat}
    (hcorrect : cell.getValidity (getCell r.rowNum cell.col) rows cols early
      s.engine.localFrameLateAcked = .correct) :
    s.engine.Echoes s.shown getCell r.rowNum cell := by
  obtain ⟨hactive, hknown, hacked, hshows, hblank, hcredit⟩ :=
    ConditionalOverlayCell.credited_of_getValidity hcorrect
  obtain ⟨i, hi⟩ := List.getElem?_of_mem hcell
  have hjudged := h.cells r hr i cell hi
  refine ⟨hactive, hknown, hacked, hshows, fun hrepeats => ?_⟩
  rw [hjudged.col] at hrepeats
  rcases hjudged.fresh hactive hknown hrepeats with hspace | hbefore
  · exact hblank hspace
  · exact hcredit hbefore

theorem Earned.confirms (h : Earned s) (now : Nat) (getCell : Nat → Nat → Char) (row col : Nat) :
    (s.engine.validatePredictions now getCell row col).confirmedEpoch = s.engine.confirmedEpoch ∨
      ∃ r ∈ s.engine.overlay.rows, ∃ cell ∈ r.cells,
        s.engine.Echoes s.shown getCell r.rowNum cell ∧
        cell.tentativeUntilEpoch
          = (s.engine.validatePredictions now getCell row col).confirmedEpoch := by
  rcases validatePredictions_confirmed getCell row col (p := s.engine) with
    hsame | ⟨r, hr, cell, hcell, hcorrect, hepoch⟩
  · exact .inl hsame
  · exact .inr ⟨r, hr, cell, hcell, h.echo hr hcell hcorrect, hepoch.symm⟩

theorem mem_echoes {getCell : Nat → Nat → Char} {r : OverlayRow}
    (hr : r ∈ s.engine.overlay.rows) {cell : ConditionalOverlayCell} (hcell : cell ∈ r.cells)
    (hecho : s.engine.Echoes s.shown getCell r.rowNum cell) :
    cell.tentativeUntilEpoch ∈ s.echoes getCell := by
  refine List.mem_flatMap.mpr ⟨r, hr, List.mem_map.mpr ⟨cell, ?_, rfl⟩⟩
  exact List.mem_filter.mpr ⟨hcell, decide_eq_true hecho⟩

/-! ## Steps -/

theorem Earned.validatePredictions (h : Earned s) (now : Nat) (getCell : Nat → Nat → Char)
    (row col : Nat) :
    Earned { s with
      engine := s.engine.validatePredictions now getCell row col
      echoed := s.echoed ++ s.echoes getCell } := by
  obtain ⟨n, hfits⟩ := h.fits
  obtain ⟨hepoch, hcells⟩ := validatePredictions_cell getCell row col (p := s.engine)
  refine ⟨⟨n, hfits.validatePredictions now getCell row col⟩, Nat.le_trans h.begun hepoch, ?_, ?_⟩
  · intro r' hr' i cell' hcell'
    obtain ⟨r, hr, hnum, hsame⟩ := hcells r' hr'
    obtain ⟨cell, hcell, rfl | rfl⟩ := hsame i cell' hcell'
    · have hjudged := h.cells r hr i cell' hcell
      rw [hnum]
      exact ⟨hjudged.col, fun hactive => Nat.le_trans (hjudged.epoch hactive) hepoch, hjudged.fresh⟩
    · exact .idle (h.cells r hr i cell hcell).col rfl
  · rcases h.confirms now getCell row col with hsame | ⟨r, hr, cell, hcell, hecho, hraised⟩
    · show (s.engine.validatePredictions now getCell row col).confirmedEpoch = 0 ∨ _
      rw [hsame]
      exact h.confirmed.imp id fun hmem => List.mem_append_left _ hmem
    · refine .inr (List.mem_append_right _ ?_)
      show (s.engine.validatePredictions now getCell row col).confirmedEpoch ∈ _
      rw [← hraised]
      exact mem_echoes hr hcell hecho

theorem keyShown_untouched {p : PredictionEngine} {ch : Char} {row c n numRows m i : Nat}
    {cellAt shown : Nat → Nat → Char}
    (h : ¬ (p.Edits ch c ∧ m = row ∧ touches ch row c n numRows i = true)) :
    keyShown p ch row c n numRows cellAt shown m i = shown m i := if_neg h

theorem keyShown_touched {p : PredictionEngine} {ch : Char} {row c n numRows m i : Nat}
    {cellAt shown : Nat → Nat → Char}
    (h : p.Edits ch c ∧ m = row ∧ touches ch row c n numRows i = true) :
    keyShown p ch row c n numRows cellAt shown m i = cellAt m i := if_pos h

theorem Earned.newUserByte (h : Earned s) {ch : Char} {row c n numRows now : Nat}
    {cellAt : Nat → Nat → Char} (hfresh : s.engine.Fresh ch row c n numRows cellAt)
    {p' : PredictionEngine}
    (hp' : s.engine.newUserByte ch row c n numRows now cellAt = some p') :
    Earned { s with
      engine := p'
      shown := keyShown s.engine ch row c n numRows cellAt s.shown } := by
  obtain ⟨m, hfits⟩ := h.fits
  obtain ⟨hconfirmed, hepoch, hafter⟩ := newUserByte_after hfits h.indexed hp'
  have hcredit : p'.confirmedEpoch = 0 ∨ p'.confirmedEpoch ∈ s.echoed :=
    hconfirmed ▸ h.confirmed
  refine ⟨?_, Nat.le_trans h.begun hepoch, ?_, hcredit⟩
  · rcases hafter with ⟨rfl, -⟩ | ⟨hfits', -⟩
    · exact ⟨m, hfits⟩
    · exact ⟨n, hfits'⟩
  · intro r hr i cell hcell
    rcases hafter with ⟨rfl, hnever⟩ | ⟨hfits', hcells⟩
    · -- nothing is predicted, so nothing is touched
      have hjudged := h.cells r hr i cell hcell
      refine ⟨hjudged.col, hjudged.epoch, ?_⟩
      intro hactive hknown hrepeats
      change keyShown s.engine ch row c n numRows cellAt s.shown r.rowNum i = _ at hrepeats
      rw [keyShown_untouched fun htouched => htouched.1.1 hnever] at hrepeats
      exact hjudged.fresh hactive hknown hrepeats
    · cases hcells r hr i cell hcell with
      | kept hold hnum hcell' huntouched =>
          have hjudged := h.cells _ (mem_fitted hold) i cell hcell'
          refine ⟨hjudged.col, fun hactive => Nat.le_trans (hjudged.epoch hactive) hepoch, ?_⟩
          intro hactive hknown hrepeats
          change keyShown s.engine ch row c n numRows cellAt s.shown r.rowNum i = _ at hrepeats
          rw [keyShown_untouched huntouched, ← hnum] at hrepeats
          exact hjudged.fresh hactive hknown hrepeats
      | idle hcol hidle => exact .idle hcol hidle
      | anew htouched hcol hactive hlow hhigh hknown =>
          refine ⟨hcol, fun _ => hhigh, ?_⟩
          intro _ hunknown hrepeats
          change keyShown s.engine ch row c n numRows cellAt s.shown r.rowNum i = _ at hrepeats
          rw [keyShown_touched htouched, htouched.2.1] at hrepeats
          rcases hknown hunknown with hspace | ⟨hforetold, horiginals⟩
          · exact .inl hspace
          · have hi : i < n := hfits'.wide.cells r hr ▸ (List.getElem?_eq_some_iff.mp hcell).1
            rw [← hrepeats] at hforetold
            rw [← hrepeats, horiginals, htouched.2.1]
            exact hfresh htouched.1 i hi hforetold

theorem Earned.of_same (h : Earned s) {p' : PredictionEngine} {n : Nat} (hfits : p'.Fits n)
    (hoverlay : p'.overlay = s.engine.overlay)
    (hepoch : p'.predictionEpoch = s.engine.predictionEpoch)
    (hconfirmed : p'.confirmedEpoch = s.engine.confirmedEpoch) :
    Earned { s with engine := p' } where
  fits := ⟨n, hfits⟩
  begun := hepoch.symm ▸ h.begun
  cells r hr i cell hcell := by
    have hjudged := h.cells r (hoverlay ▸ hr) i cell hcell
    exact ⟨hjudged.col, fun hactive => hepoch.symm ▸ hjudged.epoch hactive, hjudged.fresh⟩
  confirmed := by
    show p'.confirmedEpoch = 0 ∨ p'.confirmedEpoch ∈ s.echoed
    exact hconfirmed.symm ▸ h.confirmed

theorem Earned.step {op : EngineOp} (h : Earned s) (hfresh : s.Fresh op)
    (hstep : s.step op = some s') : Earned s' := by
  obtain ⟨n, hfits⟩ := h.fits
  cases op with
  | newUserByte ch row c n numRows now cellAt =>
      obtain ⟨p', hp', rfl⟩ := Option.map_eq_some_iff.mp hstep
      exact h.newUserByte hfresh hp'
  | validatePredictions now getCell row col =>
      cases hstep
      exact h.validatePredictions now getCell row col
  | setLocalFrameSent | setLocalFrameAcked | setLocalFrameLateAcked | setSendInterval
  | setDisplayPreference =>
      cases hstep
      exact h.of_same ⟨hfits.overwrite, hfits.width, hfits.wide⟩ rfl rfl rfl
  | reset =>
      cases hstep
      refine ⟨⟨n, hfits.reset⟩, Nat.le_succ_of_le h.begun, ?_, h.confirmed⟩
      exact fun r hr => absurd hr List.not_mem_nil

theorem Earned.new (now : Nat) : Earned (new now) where
  fits := ⟨0, rfl, rfl, wide_new⟩
  begun := Nat.le_refl 1
  cells _ hr := absurd hr List.not_mem_nil
  confirmed := .inl rfl

/-! ## What is typed after a state of the run -/

/-- Whatever is predicted in `s` is of the epoch `s₁` is in or a later one, or
was predicted in `s₁`. -/
structure Since (s₁ s : CreditRun) : Prop where
  later : s₁.engine.predictionEpoch ≤ s.engine.predictionEpoch
  cells : ∀ r ∈ s.engine.overlay.rows, ∀ (i : Nat) (cell : ConditionalOverlayCell),
    r.cells[i]? = some cell → cell.active = true →
    cell.tentativeUntilEpoch < s₁.engine.predictionEpoch →
      ∃ r₁ ∈ s₁.engine.overlay.rows, r₁.rowNum = r.rowNum ∧ r₁.cells[i]? = some cell

theorem Since.refl (s : CreditRun) : Since s s :=
  ⟨Nat.le_refl _, fun r hr _ _ hcell _ _ => ⟨r, hr, rfl, hcell⟩⟩

theorem Since.step {op : EngineOp} (h : Since s₁ s) (hearned : s.Earned)
    (hstep : s.step op = some s') : Since s₁ s' := by
  obtain ⟨m, hfits⟩ := hearned.fits
  cases op with
  | newUserByte ch row c n numRows now cellAt =>
      obtain ⟨p', hp', rfl⟩ := Option.map_eq_some_iff.mp hstep
      obtain ⟨-, hepoch, hafter⟩ := newUserByte_after hfits hearned.indexed hp'
      refine ⟨Nat.le_trans h.later hepoch, fun r hr i cell hcell hactive hearlier => ?_⟩
      rcases hafter with ⟨rfl, -⟩ | ⟨-, hcells⟩
      · exact h.cells r hr i cell hcell hactive hearlier
      · cases hcells r hr i cell hcell with
        | kept hold hnum hcell' =>
            rw [← hnum]
            exact h.cells _ (mem_fitted hold) i cell hcell' hactive hearlier
        | idle hcol hidle => exact absurd (hidle.symm.trans hactive) Bool.false_ne_true
        | anew _ _ _ hlow =>
            have hlater := Nat.le_trans h.later hlow
            exact absurd hearlier (Nat.not_lt.mpr hlater)
  | validatePredictions now getCell row col =>
      cases hstep
      obtain ⟨hepoch, hcells⟩ := validatePredictions_cell getCell row col (p := s.engine)
      refine ⟨Nat.le_trans h.later hepoch, fun r' hr' i cell' hcell' hactive hearlier => ?_⟩
      obtain ⟨r, hr, hnum, hsame⟩ := hcells r' hr'
      obtain ⟨cell, hcell, rfl | rfl⟩ := hsame i cell' hcell'
      · rw [hnum]
        exact h.cells r hr i cell' hcell hactive hearlier
      · cases hactive
  | setLocalFrameSent | setLocalFrameAcked | setLocalFrameLateAcked | setSendInterval
  | setDisplayPreference =>
      cases hstep
      exact ⟨h.later, h.cells⟩
  | reset =>
      cases hstep
      exact ⟨Nat.le_succ_of_le h.later, fun r hr => absurd hr List.not_mem_nil⟩

theorem Earned.along {ops : List EngineOp} (h : Earned s)
    (hfresh : Along Fresh CreditRun.step s ops) (hrun : run CreditRun.step s ops = some s') :
    Earned s' :=
  run_invariant_along (fun _ _ _ h hfresh hstep => Earned.step h hfresh hstep) h hfresh hrun

/-- What was predicted before an unpredictable key is of an earlier epoch than
what is typed after it. -/
theorem Earned.before (h : Earned s) {ch : Char} {row c n numRows now : Nat}
    {cellAt : Nat → Nat → Char} (hkey : s.engine.Unpredictable ch)
    (hstep : s.step (.newUserByte ch row c n numRows now cellAt) = some s') :
    ∀ r ∈ s'.engine.overlay.rows, ∀ cell ∈ r.cells, cell.active = true →
      cell.tentativeUntilEpoch < s'.engine.predictionEpoch := by
  obtain ⟨m, hfits⟩ := h.fits
  obtain ⟨p', hp', rfl⟩ := Option.map_eq_some_iff.mp hstep
  obtain ⟨hraised, hedits⟩ := unpredictable_epoch hkey hp'
  obtain ⟨-, -, ⟨-, hnever⟩ | ⟨-, hcells⟩⟩ := newUserByte_after hfits h.indexed hp'
  · exact absurd hnever hkey.1
  · intro r hr cell hcell hactive
    obtain ⟨i, hi⟩ := List.getElem?_of_mem hcell
    cases hcells r hr i cell hi with
    | kept hold hnum hcell' =>
        exact Nat.lt_of_le_of_lt ((h.cells _ (mem_fitted hold) i cell hcell').epoch hactive) hraised
    | idle hcol hidle => exact absurd (hidle.symm.trans hactive) Bool.false_ne_true
    | anew htouched => exact absurd htouched.1 hedits

/-- In every run no key of which predicts what the server already shows: an
epoch is confirmed only by a prediction of it that the server echoes; and of
what is predicted after an unpredictable key nothing is painted until something
of it has been echoed. -/
theorem confirmed_by_echo (now : Nat) (ops : List EngineOp) (s : CreditRun)
    (hfresh : Along Fresh step (new now) ops) (hrun : run step (new now) ops = some s) :
    (∀ (now : Nat) (getCell : Nat → Nat → Char) (row col : Nat),
      s.engine.confirmedEpoch < (s.engine.validatePredictions now getCell row col).confirmedEpoch →
      ∃ r ∈ s.engine.overlay.rows, ∃ cell ∈ r.cells,
        s.engine.Echoes s.shown getCell r.rowNum cell ∧
        cell.tentativeUntilEpoch
          = (s.engine.validatePredictions now getCell row col).confirmedEpoch) ∧
    ∀ (ch : Char) (row col numCols numRows now : Nat) (cellAt : Nat → Nat → Char)
      (s₁ s₂ : CreditRun) (later : List EngineOp), s.engine.Unpredictable ch →
      s.step (.newUserByte ch row col numCols numRows now cellAt) = some s₁ →
      Along Fresh step s₁ later → run step s₁ later = some s₂ →
      (∀ r ∈ s₁.engine.overlay.rows, ∀ cell ∈ r.cells, cell.active = true →
        cell.tentativeUntilEpoch < s₁.engine.predictionEpoch) ∧
      ((∀ epoch ∈ s₂.echoed, epoch < s₁.engine.predictionEpoch) →
        ∀ frame, ∀ r ∈ s₂.engine.overlay.rows, ∀ cell ∈ r.cells,
          s₂.engine.applyCell r.rowNum frame cell ≠ frame →
          ∃ r₁ ∈ s₁.engine.overlay.rows, r₁.rowNum = r.rowNum ∧ cell ∈ r₁.cells) := by
  have hearned : s.Earned := (Earned.new now).along hfresh hrun
  refine ⟨fun now getCell row col hraised => ?_, ?_⟩
  · rcases hearned.confirms now getCell row col with hsame | hecho
    · exact absurd hraised (Nat.not_lt.mpr (Nat.le_of_eq hsame))
    · exact hecho
  · intro ch row col numCols numRows now cellAt s₁ s₂ later hkey hstep hfresh' hrun'
    refine ⟨hearned.before hkey hstep, fun hsilent frame r hr cell hcell hpainted => ?_⟩
    -- an unpredictable key predicts nothing, whatever the server shows
    have hunpredicted : s.Fresh (.newUserByte ch row col numCols numRows now cellAt) := by
      intro hedits
      obtain ⟨p', hp', -⟩ := Option.map_eq_some_iff.mp hstep
      exact absurd hedits (unpredictable_epoch hkey hp').2
    have hstart : s₁.Earned := hearned.step hunpredicted hstep
    have hlater : s₂.Earned ∧ Since s₁ s₂ := by
      refine run_invariant_along (I := fun s => s.Earned ∧ Since s₁ s) ?_ ⟨hstart, .refl s₁⟩
        hfresh' hrun'
      exact fun s op s' h hfresh hstep => ⟨h.1.step hfresh hstep, h.2.step h.1 hstep⟩
    obtain ⟨hactive, hconfirmed⟩ := painted_active hpainted
    have hearlier : cell.tentativeUntilEpoch < s₁.engine.predictionEpoch := by
      refine Nat.lt_of_le_of_lt hconfirmed ?_
      rcases hlater.1.confirmed with hnone | hechoed
      · rw [hnone]
        exact hstart.begun
      · exact hsilent _ hechoed
    obtain ⟨i, hi⟩ := List.getElem?_of_mem hcell
    obtain ⟨r₁, hr₁, hnum, hcell₁⟩ := hlater.2.cells r hr i cell hi hactive hearlier
    exact ⟨r₁, hr₁, hnum, List.mem_of_getElem? hcell₁⟩

/-- A screen that shows nothing. -/
def blankScreen : Nat → Nat → Char := fun _ _ => ' '

/-- A key on a screen of three columns and two rows, all of it acked. -/
def typeOne (ch : Char) (cellAt : Nat → Nat → Char) : List EngineOp :=
  [.setDisplayPreference .always, .newUserByte ch 0 0 3 2 0 cellAt, .setLocalFrameLateAcked 1]

/-- The return key after it, and a letter on the next row. -/
def prompted (s : CreditRun) : Option (CreditRun × CreditRun) :=
  (s.step (.newUserByte '\r' 0 1 3 2 0 blankScreen)).bind fun s₁ =>
    (run step s₁ [.newUserByte 'p' 1 0 3 2 0 blankScreen]).map fun s₂ => (s₁, s₂)

open EngineRun in
/-- The first letter is echoed and the second is not. -/
theorem confirmed_by_echo_prompt :
    ∃ s s₁ s₂, run step (new 0) (typeOne 'a' blankScreen) = some s ∧
      s.prompted = some (s₁, s₂) ∧
      (∃ r ∈ s.engine.overlay.rows, ∃ cell ∈ r.cells,
        s.engine.Echoes s.shown (firstCell 'a') r.rowNum cell ∧ cell.tentativeUntilEpoch = 2) ∧
      ∀ frame, ∀ r ∈ s₂.engine.overlay.rows, ∀ cell ∈ r.cells,
        s₂.engine.applyCell r.rowNum frame cell ≠ frame →
        ∃ r₁ ∈ s₁.engine.overlay.rows, r₁.rowNum = r.rowNum ∧ cell ∈ r₁.cells := by
  have hblank : ∀ (s : CreditRun) (ch : Char) (row col : Nat),
      s.Fresh (.newUserByte ch row col 3 2 0 blankScreen) := fun _ _ _ _ _ _ _ _ => .inl rfl
  have heval : (run step (new 0) (typeOne 'a' blankScreen)).bind (fun s =>
      s.prompted.map fun next =>
        ((s.engine.confirmedEpoch,
            (s.engine.validatePredictions 0 (firstCell 'a') 0 1).confirmedEpoch),
          (s.engine.displayPreference, s.engine.inputState), next.2.echoed))
      = some ((0, 2), (.always, .ground), []) := by decide +kernel
  obtain ⟨s, hrun, hs⟩ := Option.bind_eq_some_iff.mp heval
  obtain ⟨⟨s₁, s₂⟩, hnext, hs⟩ := Option.map_eq_some_iff.mp hs
  obtain ⟨⟨hbefore, hraised⟩, ⟨hpref, hinput⟩, hsilent⟩ :
    (_ ∧ _) ∧ (_ ∧ _) ∧ _ := by simpa only [Prod.mk.injEq] using hs
  obtain ⟨t, hkey, hlater⟩ := Option.bind_eq_some_iff.mp hnext
  obtain ⟨t', hrun', heq⟩ := Option.map_eq_some_iff.mp hlater
  cases heq
  obtain ⟨hecho, hprompt⟩ := confirmed_by_echo 0 (typeOne 'a' blankScreen) s
    ⟨trivial, fun s _ => ⟨hblank s 'a' 0 0, fun _ _ => ⟨trivial, fun _ _ => trivial⟩⟩⟩ hrun
  refine ⟨s, s₁, s₂, hrun, hnext, ?_, ?_⟩
  · have hgenuine := hecho 0 (firstCell 'a') 0 1 (by rw [hbefore, hraised]; decide)
    rwa [hraised] at hgenuine
  · have hunpredictable : s.engine.Unpredictable '\r' := by
      unfold Unpredictable
      rw [hpref, hinput]
      decide
    have hpainted := hprompt '\r' 0 1 3 2 0 blankScreen s₁ s₂
      [.newUserByte 'p' 1 0 3 2 0 blankScreen] hunpredictable hkey
      ⟨hblank s₁ 'p' 1 0, fun _ _ => trivial⟩ hrun'
    refine hpainted.2 ?_
    rw [hsilent]
    exact fun epoch hepoch => absurd hepoch List.not_mem_nil

open EngineRun in
/-- The server shows an 'x' already where one is typed. It does nothing, and the
epoch is confirmed. -/
theorem confirmed_without_echo :
    ∃ s, run step (new 0) (typeOne 'x' (firstCell 'x')) = some s ∧
      s.engine.confirmedEpoch
        < (s.engine.validatePredictions 0 (firstCell 'x') 0 0).confirmedEpoch ∧
      ¬ ∃ r ∈ s.engine.overlay.rows, ∃ cell ∈ r.cells,
        s.engine.Echoes s.shown (firstCell 'x') r.rowNum cell := by
  have heval : (run step (new 0) (typeOne 'x' (firstCell 'x'))).map (fun s =>
      decide (s.engine.confirmedEpoch
        < (s.engine.validatePredictions 0 (firstCell 'x') 0 0).confirmedEpoch ∧
        ¬ ∃ r ∈ s.engine.overlay.rows, ∃ cell ∈ r.cells,
          s.engine.Echoes s.shown (firstCell 'x') r.rowNum cell)) = some true := by
    decide +kernel
  obtain ⟨s, hrun, hs⟩ := Option.map_eq_some_iff.mp heval
  exact ⟨s, hrun, of_decide_eq_true hs⟩

end CreditRun

end Morsh
