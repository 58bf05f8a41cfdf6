import Morsh.Client.Input

/-!
# The frame the client paints

`apply_overlay` folds the predictions into the server's screen, and
`output_new_frame` paints the difference from what the user is looking at.
-/

namespace Morsh

/-- What is done to a cell through `cell_mut`; out of bounds nothing is. -/
def ScreenSnapshot.modifyCell (s : ScreenSnapshot) (x y : Nat) (f : CellData → CellData) :
    ScreenSnapshot :=
  { s with rows := s.rows.modify y fun row => row.modify x f }

namespace PredictionEngine

/-- The cell under a prediction, with it painted in. An unknown prediction
says that something will be here, not that a blank will. -/
def paintOver (p : PredictionEngine) (cell : ConditionalOverlayCell) (target : CellData) :
    CellData :=
  let target :=
    if cell.unknown then target
    else { target with text := [cell.replacement], wide := false, spacer := false }
  if p.flagging && p.localFrameLateAcked < cell.expirationFrame then
    { target with style := { target.style with underline := true } }
  else target

/-- One predicted cell of row `rowNum`. The last column is left to the server. -/
def applyCell (p : PredictionEngine) (rowNum : Nat) (frame : ScreenSnapshot)
    (cell : ConditionalOverlayCell) : ScreenSnapshot :=
  if !cell.active || cell.isTentative p.confirmedEpoch || cell.col + 1 ≥ frame.cols then frame
  else frame.modifyCell cell.col rowNum (p.paintOver cell)

def applyRow (p : PredictionEngine) (frame : ScreenSnapshot) (row : OverlayRow) :
    ScreenSnapshot :=
  if row.rowNum ≥ frame.rowsCount then frame
  else row.cells.foldl (p.applyCell row.rowNum) frame

/-- The predicted cursor, where it is on the screen. -/
def applyCursor (p : PredictionEngine) (frame : ScreenSnapshot) : ScreenSnapshot :=
  match p.displayCursor with
  | some (row, col) =>
      if row < frame.rowsCount ∧ col < frame.cols then { frame with cursorY := row, cursorX := col }
      else frame
  | none => frame

/-- Overlay the predictions onto the frame about to be painted. -/
def applyOverlay (p : PredictionEngine) (frame : ScreenSnapshot) : ScreenSnapshot :=
  if !p.shouldDisplay then frame
  else p.applyCursor (p.overlay.rows.foldl p.applyRow frame)

end PredictionEngine

/-- What is written for a new frame: a changed screen goes out as one
synchronized update, with the cursor hidden. -/
def paint (old target : ScreenSnapshot) : Text :=
  let diff := DisplayDiff.diff old target
  if diff = [] then []
  else if old.rows ≠ target.rows then
    "\x1b[?2026h\x1b[?25l".toList ++ diff ++
      (if target.cursorVisible then "\x1b[?25h".toList else []) ++ "\x1b[?2026l".toList
  else diff

namespace Client

variable {T : Type}

/-- The server's latest screen with the predictions on it. -/
def target (c : Client T) : ScreenSnapshot :=
  c.prediction.applyOverlay c.endpoint.transport.receiver.receivedStates.last.state.screen

/-- Paint the new frame, and what is written to the terminal. -/
def outputNewFrame (c : Client T) : Client T × Text :=
  ({ c with localFramebuffer := c.target }, paint c.localFramebuffer c.target)

end Client

end Morsh
