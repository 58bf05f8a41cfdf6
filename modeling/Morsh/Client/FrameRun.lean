import Morsh.Client.Frame
import Morsh.Lib.Run
import Morsh.Lib.Vt.Feeds
import Morsh.Terminal.Sgr

/-!
# Frame after frame

The client painting on the user's terminal. Between two frames the transport
and the predictor change in any way; what has been painted stays.
-/

namespace Morsh

open Vt

/-- What the next frame is made of. -/
structure FrameOp (T : Type) where
  endpoint : Endpoint UserStream (Complete T) UserEvent
  prediction : PredictionEngine

/-- The server's frame. -/
def FrameOp.frame {T : Type} (op : FrameOp T) : ScreenSnapshot :=
  op.endpoint.transport.receiver.receivedStates.last.state.screen

structure FrameRun (T : Type) where
  client : Client T
  /-- The user's terminal. -/
  terminal : Terminal CellStyle

namespace FrameRun

variable {T : Type} [CharWidth]

def step (s : FrameRun T) (op : FrameOp T) : Option (FrameRun T) :=
  let painted :=
    { s.client with endpoint := op.endpoint, prediction := op.prediction }.outputNewFrame
  some ⟨painted.1, s.terminal.feed painted.2⟩

end FrameRun

/-! ## Predictions and glyphs -/

namespace PredictionEngine

/-- Whether `apply_overlay` paints the cell, on a screen of that width. -/
def paints (p : PredictionEngine) (cols : Nat) (cell : ConditionalOverlayCell) : Bool :=
  cell.active && !cell.isTentative p.confirmedEpoch && cell.col + 1 < cols

/-- The cells painted at column `x` of row `y`, in their order. -/
def paintedAt (p : PredictionEngine) (frame : ScreenSnapshot) (y x : Nat) :
    List ConditionalOverlayCell :=
  if p.shouldDisplay then
    (p.overlay.rows.filter fun row => row.rowNum == y && row.rowNum < frame.rowsCount).flatMap
      fun row => row.cells.filter fun cell => cell.col == x && p.paints frame.cols cell
  else []

/-- The character put there: the one of the last prediction that knows it. -/
def replacementAt (p : PredictionEngine) (frame : ScreenSnapshot) (y x : Nat) : Option Char :=
  ((p.paintedAt frame y x).filter fun cell => !cell.unknown).getLast?.map (·.replacement)

/-- Whether a pending prediction is underlined there. -/
def underlines (p : PredictionEngine) (frame : ScreenSnapshot) (y x : Nat) : Bool :=
  (p.paintedAt frame y x).any fun cell =>
    p.flagging && p.localFrameLateAcked < cell.expirationFrame

/-- The style the cell there is painted with. -/
def styleAt (p : PredictionEngine) (frame : ScreenSnapshot) (y x : Nat) : Option CellStyle :=
  (frame.cell x y).map fun c =>
    if p.underlines frame y x then { c.style with underline := true } else c.style

/-- The predictions leave every glyph of the frame whole. What is put anywhere
takes one column; and where a wide glyph stays, nothing is put on its right half,
nor are the halves told apart by an underline where what follows goes with the
right one. -/
structure KeepsGlyphs [CharWidth] (p : PredictionEngine) (frame : ScreenSnapshot) : Prop where
  narrow : ∀ {y x ch}, p.replacementAt frame y x = some ch →
    CharWidth.width ch = 1 ∧ Vt.isControl ch = false
  halves : ∀ {y x c}, frame.cell x y = some c → c.wide = true →
    p.replacementAt frame y x = none →
      p.replacementAt frame y (x + 1) = none ∧
        ∀ style, p.styleAt frame y (x + 2) = some style → p.styleAt frame y (x + 1) = some style →
          p.styleAt frame y x = some style

end PredictionEngine

end Morsh
