import Morsh.Network.State

/-!
# Predicted cells and cursors

The overlay is a row of cells for each line that has a prediction on it, in the
order of the lines. An index out of range is a panic, and `none`.
-/

namespace Morsh

/-- `u64::MAX`, what a frame and an epoch are reset to. -/
def U64_MAX : Nat := 2 ^ 64 - 1

/-- What the server's state says of a prediction. -/
inductive Validity where
  | pending
  | correct
  | correctNoCredit
  | incorrectOrExpired
  | inactive
  deriving DecidableEq, Repr

/-- A predicted cell replacement. -/
structure ConditionalOverlayCell where
  expirationFrame : Nat
  col : Nat
  active : Bool
  tentativeUntilEpoch : Nat
  predictionTime : Nat
  replacement : Char
  /-- Something will be here, but not known what. -/
  unknown : Bool
  /-- Contents that earn a prediction no credit. -/
  originalContents : List Char
  deriving DecidableEq, Repr

namespace ConditionalOverlayCell

def new (col epoch now : Nat) : ConditionalOverlayCell where
  expirationFrame := 0
  col := col
  active := false
  tentativeUntilEpoch := epoch
  predictionTime := now
  replacement := ' '
  unknown := false
  originalContents := []

def isTentative (c : ConditionalOverlayCell) (confirmedEpoch : Nat) : Bool :=
  c.tentativeUntilEpoch > confirmedEpoch

def reset (c : ConditionalOverlayCell) : ConditionalOverlayCell :=
  { c with
    active := false
    expirationFrame := U64_MAX
    tentativeUntilEpoch := U64_MAX
    unknown := false
    originalContents := [] }

/-- Reset, but keep what was predicted here as something that earns no credit. -/
def resetWithOrig (c : ConditionalOverlayCell) : ConditionalOverlayCell :=
  if !c.active || c.unknown then c.reset
  else
    { c with
      originalContents := c.originalContents ++ [c.replacement]
      active := false
      expirationFrame := U64_MAX
      tentativeUntilEpoch := U64_MAX }

def expire (c : ConditionalOverlayCell) (frame time : Nat) : ConditionalOverlayCell :=
  { c with expirationFrame := frame, predictionTime := time }

def getValidity (c : ConditionalOverlayCell) (actual : Char)
    (rowHeight colWidth _earlyAck lateAck : Nat) : Validity :=
  if !c.active then .inactive
  else if rowHeight = 0 ∨ c.col ≥ colWidth then .incorrectOrExpired
  else if lateAck < c.expirationFrame then .pending
  else if c.unknown then .correctNoCredit
  else if c.replacement = ' ' ∧ actual = ' ' then .correctNoCredit
  else if actual = c.replacement then
    if actual ∈ c.originalContents then .correctNoCredit else .correct
  else .incorrectOrExpired

end ConditionalOverlayCell

/-- A predicted cursor position. -/
structure ConditionalCursorMove where
  expirationFrame : Nat
  row : Nat
  col : Nat
  active : Bool
  tentativeUntilEpoch : Nat
  deriving DecidableEq, Repr

namespace ConditionalCursorMove

def new (row col epoch : Nat) : ConditionalCursorMove := ⟨0, row, col, false, epoch⟩

def isTentative (c : ConditionalCursorMove) (confirmedEpoch : Nat) : Bool :=
  c.tentativeUntilEpoch > confirmedEpoch

def getValidity (c : ConditionalCursorMove)
    (actualRow actualCol rowHeight colWidth lateAck : Nat) : Validity :=
  if !c.active then .inactive
  else if c.row ≥ rowHeight ∨ c.col ≥ colWidth then .incorrectOrExpired
  else if lateAck ≥ c.expirationFrame then
    if actualRow = c.row ∧ actualCol = c.col then .correct else .incorrectOrExpired
  else .pending

end ConditionalCursorMove

/-- A row of overlay cells. -/
structure OverlayRow where
  rowNum : Nat
  cells : List ConditionalOverlayCell
  deriving DecidableEq, Repr

def OverlayRow.new (rowNum numCols epoch now : Nat) : OverlayRow :=
  ⟨rowNum, (List.range numCols).map fun col => .new col epoch now⟩

/-- All overlay rows, by row number. -/
structure Overlay where
  rows : List OverlayRow
  deriving DecidableEq, Repr

namespace Overlay

def new : Overlay := ⟨[]⟩

/-- Change one row, made first where there is none. -/
def updateRows (rowNum : Nat) (fresh : OverlayRow) (f : OverlayRow → Option OverlayRow) :
    List OverlayRow → Option (List OverlayRow)
  | [] => (f fresh).map fun row => [row]
  | r :: rest =>
      if r.rowNum = rowNum then (f r).map fun row => row :: rest
      else if rowNum < r.rowNum then (f fresh).map fun row => row :: r :: rest
      else (updateRows rowNum fresh f rest).map fun rows => r :: rows

/-- `get_or_make_row`, and what is done to the row. -/
def updateRow (o : Overlay) (rowNum numCols epoch now : Nat)
    (f : OverlayRow → Option OverlayRow) : Option Overlay :=
  (updateRows rowNum (.new rowNum numCols epoch now) f o.rows).map fun rows => ⟨rows⟩

/-- Drop the rows outside the terminal. -/
def prune (o : Overlay) (maxRow : Nat) : Overlay := ⟨o.rows.filter fun r => r.rowNum < maxRow⟩

end Overlay

end Morsh
