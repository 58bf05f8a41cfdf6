import Morsh.Lib.LineEdit
import Morsh.Prediction.Engine

/-!
# What the predictions show

The view of a row: in every column the predicted character, nothing certain
where the prediction is unknown, and what the server has where there is none.
-/

namespace Morsh

def ConditionalOverlayCell.view (cell : ConditionalOverlayCell) (actual : Char) : Option Char :=
  if cell.active then if cell.unknown then none else some cell.replacement else some actual

def OverlayRow.view (row : OverlayRow) (cellAt : Nat → Char) (col : Nat) : Option Char :=
  match row.cells[col]? with
  | some cell => cell.view (cellAt col)
  | none => some (cellAt col)

namespace Overlay

/-- The row filed under a number. -/
def find (rowNum : Nat) (rows : List OverlayRow) : Option OverlayRow :=
  rows.find? fun r => r.rowNum == rowNum

def getRow (o : Overlay) (rowNum : Nat) : Option OverlayRow := find rowNum o.rows

/-- The view of row `rowNum`; `cellAt row col` is what the server has. -/
def view (o : Overlay) (cellAt : Nat → Nat → Char) (rowNum col : Nat) : Option Char :=
  match o.getRow rowNum with
  | some row => row.view (cellAt rowNum) col
  | none => some (cellAt rowNum col)

def Ordered (rows : List OverlayRow) : Prop := rows.Pairwise fun r s => r.rowNum < s.rowNum

/-- A map from row numbers to rows of `n` cells, in the order of the numbers. -/
structure Wide (o : Overlay) (n : Nat) : Prop where
  order : Ordered o.rows
  cells : ∀ row ∈ o.rows, row.cells.length = n

end Overlay

namespace PredictionEngine

/-- The engine on a screen of that size: what was predicted for another size is
dropped. -/
def sized (p : PredictionEngine) (numRows numCols : Nat) : PredictionEngine :=
  if p.lastHeight ≠ numRows ∨ p.lastWidth ≠ numCols then
    { p with lastHeight := numRows, lastWidth := numCols }.reset
  else p

/-- The view of a row of a screen of that size. -/
def lineView (p : PredictionEngine) (numRows numCols : Nat) (cellAt : Nat → Nat → Char)
    (row col : Nat) : Option Char :=
  (p.sized numRows numCols).overlay.view cellAt row col

/-- The key of an edit of the line. -/
def keyOf : LineEdit.Edit Char → Char
  | .insert ch => ch
  | .backspace => '\x7f'

def Printable : LineEdit.Edit Char → Prop
  | .insert ch => isAsciiGraphic ch = true ∨ ch = ' '
  | .backspace => True

instance : DecidablePred Printable
  | .insert ch => inferInstanceAs (Decidable (isAsciiGraphic ch = true ∨ ch = ' '))
  | .backspace => .isTrue trivial

/-- Keys typed on one row with the time of each, every one where the one before
it left the cursor. -/
def typeLine (row numCols numRows : Nat) (cellAt : Nat → Nat → Char) :
    PredictionEngine → Nat → List (LineEdit.Edit Char × Nat) → Option PredictionEngine
  | p, _, [] => some p
  | p, col, (edit, now) :: rest =>
      (p.newUserByte (keyOf edit) row col numCols numRows now cellAt).bind fun p =>
        typeLine row numCols numRows cellAt p
          (match edit with
            | .insert _ => col + 1
            | .backspace => col - 1) rest

end PredictionEngine

end Morsh
