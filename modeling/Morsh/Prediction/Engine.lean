import Morsh.Prediction.Overlay

/-!
# The prediction engine

Speculative local echo. A key goes through `newUserByte`, which is `none` where
the source would index out of range or subtract below zero; a state of the
server goes through `validatePredictions`. One call reads the clock once here.
-/

namespace Morsh

inductive DisplayPreference where
  | always
  | never
  | adaptive
  deriving DecidableEq, Repr

/-- Where the typed bytes stand in an escape sequence. -/
inductive InputState where
  | ground
  | escape
  | csi
  | ss3
  deriving DecidableEq, Repr

def SRTT_TRIGGER_LOW : Nat := 20
def SRTT_TRIGGER_HIGH : Nat := 30
def FLAG_TRIGGER_LOW : Nat := 50
def FLAG_TRIGGER_HIGH : Nat := 80
def GLITCH_THRESHOLD_MS : Nat := 250
def GLITCH_REPAIR_COUNT : Nat := 10
def GLITCH_REPAIR_MININTERVAL_MS : Nat := 150
def GLITCH_FLAG_THRESHOLD_MS : Nat := 5000

structure PredictionEngine where
  overlay : Overlay
  cursors : List ConditionalCursorMove
  localFrameSent : Nat
  localFrameAcked : Nat
  localFrameLateAcked : Nat
  predictionEpoch : Nat
  confirmedEpoch : Nat
  /-- Whether predictions are underlined. -/
  flagging : Bool
  srttTrigger : Bool
  glitchTrigger : Nat
  lastQuickConfirmation : Nat
  sendIntervalMs : Nat
  displayPreference : DisplayPreference
  predictOverwrite : Bool
  lastHeight : Nat
  lastWidth : Nat
  inputState : InputState
  deriving DecidableEq, Repr

/-- `is_control`: the category Cc. -/
def isControl (ch : Char) : Bool := ch.toNat < 0x20 || (0x7f ≤ ch.toNat && ch.toNat ≤ 0x9f)

def isAsciiGraphic (ch : Char) : Bool := 0x21 ≤ ch.toNat && ch.toNat ≤ 0x7e

/-- What happens to the last element of a `Vec`. -/
def updateLast {α : Type} (f : α → α) (l : List α) : List α :=
  match l.getLast? with
  | none => l
  | some x => l.dropLast ++ [f x]

namespace PredictionEngine

def new (now : Nat) : PredictionEngine where
  overlay := .new
  cursors := []
  localFrameSent := 0
  localFrameAcked := 0
  localFrameLateAcked := 0
  predictionEpoch := 1
  confirmedEpoch := 0
  flagging := false
  srttTrigger := false
  glitchTrigger := 0
  lastQuickConfirmation := now
  sendIntervalMs := 250
  displayPreference := .adaptive
  predictOverwrite := false
  lastHeight := 0
  lastWidth := 0
  inputState := .ground

def setDisplayPreference (p : PredictionEngine) (pref : DisplayPreference) : PredictionEngine :=
  { p with displayPreference := pref }

def setSendInterval (p : PredictionEngine) (interval : Nat) : PredictionEngine :=
  { p with sendIntervalMs := interval }

def setLocalFrameSent (p : PredictionEngine) (frame : Nat) : PredictionEngine :=
  { p with localFrameSent := frame }

def setLocalFrameAcked (p : PredictionEngine) (frame : Nat) : PredictionEngine :=
  { p with localFrameAcked := frame }

def setLocalFrameLateAcked (p : PredictionEngine) (frame : Nat) : PredictionEngine :=
  { p with localFrameLateAcked := frame }

/-- Whether a cell is being predicted. -/
def isActive (p : PredictionEngine) : Bool :=
  p.overlay.rows.any fun r => r.cells.any (·.active)

def shouldDisplay (p : PredictionEngine) : Bool :=
  match p.displayPreference with
  | .never => false
  | .always => true
  | .adaptive => p.srttTrigger || p.glitchTrigger > 0

def becomeTentative (p : PredictionEngine) : PredictionEngine :=
  { p with predictionEpoch := p.predictionEpoch + 1 }

/-- Input whose effect cannot be predicted: the server may move the cursor
anywhere. -/
def unknownInput (p : PredictionEngine) : PredictionEngine :=
  { p with cursors := [] }.becomeTentative

def initCursor (p : PredictionEngine) (cursorRow cursorCol : Nat) : PredictionEngine :=
  let dominated := p.cursors.getLast?.any fun c => c.tentativeUntilEpoch == p.predictionEpoch
  if p.cursors.isEmpty || !dominated then
    { p with
      cursors := p.cursors ++ [{ ConditionalCursorMove.new cursorRow cursorCol p.predictionEpoch with
        active := true
        expirationFrame := p.localFrameSent + 1 }] }
  else p

def cursorPos (p : PredictionEngine) : Option (Nat × Nat) :=
  (p.cursors.getLast?.filter (·.active)).map fun c => (c.row, c.col)

/-- The predicted cursor to show, if predictions are displayed and it is not
tentative. -/
def displayCursor (p : PredictionEngine) : Option (Nat × Nat) :=
  if !p.shouldDisplay then none
  else
    (p.cursors.getLast?.filter fun c => c.active && !c.isTentative p.confirmedEpoch).map
      fun c => (c.row, c.col)

def reset (p : PredictionEngine) : PredictionEngine :=
  { p with cursors := [], overlay := .new }.becomeTentative

/-- The hysteresis of the triggers, and the rows out of bounds. -/
def cull (p : PredictionEngine) (numRows : Nat) : PredictionEngine :=
  if p.displayPreference = .never then p
  else
    let p :=
      if p.sendIntervalMs > SRTT_TRIGGER_HIGH then { p with srttTrigger := true }
      else if p.srttTrigger && p.sendIntervalMs ≤ SRTT_TRIGGER_LOW && !p.isActive then
        { p with srttTrigger := false }
      else p
    let p :=
      if p.sendIntervalMs > FLAG_TRIGGER_HIGH then { p with flagging := true }
      else if p.sendIntervalMs ≤ FLAG_TRIGGER_LOW then { p with flagging := false }
      else p
    let p := if p.glitchTrigger > GLITCH_REPAIR_COUNT then { p with flagging := true } else p
    { p with overlay := p.overlay.prune numRows }

/-- The final byte of a key sequence: left and right move the predicted cursor. -/
def predictCursorKey (p : PredictionEngine) (finalByte : Char) (numCols : Nat) :
    PredictionEngine :=
  let frame := p.localFrameSent + 1
  match finalByte, p.cursors.getLast? with
  | 'C', some cursor =>
      if cursor.col + 1 < numCols then
        { p with
          cursors := updateLast (fun c => { c with col := c.col + 1, expirationFrame := frame })
            p.cursors }
      else p
  | 'D', some cursor =>
      if cursor.col > 0 then
        { p with
          cursors := updateLast (fun c => { c with col := c.col - 1, expirationFrame := frame })
            p.cursors }
      else p
  | _, _ => p.unknownInput

end PredictionEngine

namespace ConditionalOverlayCell

/-- The start of every new prediction of a cell. -/
def repredict (c : ConditionalOverlayCell) (epoch frame now : Nat) : ConditionalOverlayCell :=
  { c.resetWithOrig with active := true, tentativeUntilEpoch := epoch }.expire frame now

end ConditionalOverlayCell

namespace OverlayRow

/-- A blank prediction for the whole row. -/
def blank (row : OverlayRow) (epoch frame now : Nat) : OverlayRow :=
  { row with cells := row.cells.map fun cell =>
      { { cell with active := true, tentativeUntilEpoch := epoch }.expire frame now with
        unknown := false
        replacement := ' ' } }

/-- Clear one cell. -/
def clearAt (row : OverlayRow) (col epoch frame now : Nat) : Option OverlayRow :=
  if col < row.cells.length then
    some { row with cells := row.cells.mapIdx fun i cell =>
      if i = col then
        { cell.repredict epoch frame now with unknown := false, replacement := ' ' }
      else cell }
  else none

/-- Shift the row left over column `newCol`. Every cell looks at its right-hand
neighbour as it was before. -/
def shiftLeft (row : OverlayRow) (newCol numCols epoch frame now : Nat) (cellAt : Nat → Char) :
    Option OverlayRow :=
  -- the neighbours read, and the cells written
  if (2 ≤ numCols → numCols ≤ row.cells.length) ∧
      (newCol < numCols → numCols ≤ row.cells.length) then
    some { row with cells := row.cells.mapIdx fun i cell =>
      if newCol ≤ i ∧ i < numCols then
        let cell := cell.repredict epoch frame now
        if i + 2 < numCols then
          match row.cells[i + 1]? with
          | some next =>
              if next.active then
                if next.unknown then { cell with unknown := true }
                else { cell with unknown := false, replacement := next.replacement }
              else { cell with unknown := false, replacement := cellAt (i + 1) }
          | none => cell
        else { cell with unknown := true }
      else cell }
  else none

/-- Shift the row right from the cursor on, up to `rightmost`, and place `ch`.
Every cell looks at its left-hand neighbour as it was before. -/
def insert (row : OverlayRow) (ch : Char) (cursorCol rightmost numCols epoch frame now : Nat)
    (cellAt : Nat → Char) : Option OverlayRow :=
  -- the neighbours read, the cells shifted, the cell placed
  if rightmost ≤ row.cells.length ∧ (cursorCol < rightmost → rightmost < row.cells.length) ∧
      cursorCol < row.cells.length then
    some { row with cells := row.cells.mapIdx fun i cell =>
      if i = cursorCol then
        { cell.repredict epoch frame now with unknown := false, replacement := ch }
      else if cursorCol < i ∧ i ≤ rightmost then
        let cell := cell.repredict epoch frame now
        if i = numCols - 1 then { cell with unknown := true }
        else
          match row.cells[i - 1]? with
          | some left =>
              if left.active then
                if left.unknown then { cell with unknown := true }
                else { cell with unknown := false, replacement := left.replacement }
              -- nothing predicted to the left: shift what the server has
              else { cell with unknown := false, replacement := cellAt (i - 1) }
          | none => cell
      else cell }
  else none

end OverlayRow

namespace PredictionEngine

/-- Move the predicted cursor to the start of the next row. On the last row no
scroll is predicted; the row is blanked instead. -/
def newlineCarriageReturn (p : PredictionEngine) (cursorRow numCols numRows now : Nat) :
    Option PredictionEngine :=
  let frame := p.localFrameSent + 1
  let home := fun c : ConditionalCursorMove =>
    { c with
      col := 0
      row := if c.row + 1 < numRows then c.row + 1 else c.row
      expirationFrame := frame }
  let p := { p with cursors := updateLast home p.cursors }
  if cursorRow + 1 ≥ numRows then
    (p.overlay.updateRow cursorRow numCols p.predictionEpoch now fun row =>
      some (row.blank p.predictionEpoch frame now)).map fun overlay =>
        { p with overlay := overlay }
  else some p

/-- Move the cursor left and shift the rest of the line over the deleted cell. -/
def predictBackspace (p : PredictionEngine) (cursorRow cursorCol numCols now : Nat)
    (cellAt : Nat → Nat → Char) : Option PredictionEngine :=
  if cursorCol = 0 then some p
  else
    let newCol := cursorCol - 1
    let frame := p.localFrameSent + 1
    let back := fun c : ConditionalCursorMove => { c with col := newCol, expirationFrame := frame }
    let p := { p with cursors := updateLast back p.cursors }
    (p.overlay.updateRow cursorRow numCols p.predictionEpoch now fun row =>
      if p.predictOverwrite then row.clearAt newCol p.predictionEpoch frame now
      else row.shiftLeft newCol numCols p.predictionEpoch frame now (cellAt cursorRow)).map
        fun overlay => { p with overlay := overlay }

/-- Predict a character at the cursor. -/
def predictInsert (p : PredictionEngine) (ch : Char) (cursorRow cursorCol numCols numRows now : Nat)
    (cellAt : Nat → Nat → Char) : Option PredictionEngine :=
  -- at the last column wrap behavior varies by application
  let p := if cursorCol + 1 ≥ numCols then p.becomeTentative else p
  -- `num_cols - 1`
  if !p.predictOverwrite && numCols = 0 then none
  else
    let rightmost := if p.predictOverwrite then cursorCol else numCols - 1
    let frame := p.localFrameSent + 1
    (p.overlay.updateRow cursorRow numCols p.predictionEpoch now fun row =>
      row.insert ch cursorCol rightmost numCols p.predictionEpoch frame now
        (cellAt cursorRow)).bind fun overlay =>
      let p := { p with overlay := overlay }
      if cursorCol + 1 < numCols then
        let right := fun c : ConditionalCursorMove =>
          { c with col := cursorCol + 1, expirationFrame := frame }
        some { p with cursors := updateLast right p.cursors }
      else p.becomeTentative.newlineCarriageReturn cursorRow numCols numRows now

/-- The byte itself, once the engine has been brought up to date. -/
def dispatch (p : PredictionEngine) (ch : Char) (cursorRow cursorCol numCols numRows now : Nat)
    (cellAt : Nat → Nat → Char) : Option PredictionEngine :=
  match p.inputState with
  | .escape =>
      if ch = '[' then some { p with inputState := .csi }
      else if ch = 'O' then some { p with inputState := .ss3 }
      else some { p.unknownInput with inputState := .ground }
  | .csi =>
      -- final bytes are 0x40..=0x7E
      if 0x40 ≤ ch.toNat ∧ ch.toNat ≤ 0x7e then
        some ({ p with inputState := .ground }.predictCursorKey ch numCols)
      else some p
  | .ss3 => some ({ p with inputState := .ground }.predictCursorKey ch numCols)
  | .ground =>
      if ch = '\x1b' then some { p with inputState := .escape }
      else if ch = '\x7f' then p.predictBackspace cursorRow cursorCol numCols now cellAt
      else if isControl ch || (!isAsciiGraphic ch && ch ≠ ' ') then some p.unknownInput
      else p.predictInsert ch cursorRow cursorCol numCols numRows now cellAt

/-- What `new_user_byte` does before it looks at the byte. -/
def prepare (p : PredictionEngine) (cursorRow cursorCol numCols numRows : Nat) :
    PredictionEngine :=
  let p :=
    if p.lastHeight ≠ numRows ∨ p.lastWidth ≠ numCols then
      { p with lastHeight := numRows, lastWidth := numCols }.reset
    else p
  (p.cull numRows).initCursor cursorRow cursorCol

/-- Process a keystroke. `cellAt row col` is the character the server last put
there. -/
def newUserByte (p : PredictionEngine) (ch : Char) (cursorRow cursorCol numCols numRows now : Nat)
    (cellAt : Nat → Nat → Char) : Option PredictionEngine :=
  if p.displayPreference = .never then some p
  else
    (p.prepare cursorRow cursorCol numCols numRows).dispatch ch cursorRow cursorCol numCols
      numRows now cellAt

/-- What the scan of `validate_predictions` carries along. -/
structure Scan where
  shouldReset : Bool
  maxConfirmed : Nat
  glitchTrigger : Nat
  lastQuickConfirmation : Nat
  deriving DecidableEq, Repr

/-- Milliseconds between two readings of the clock. -/
def elapsedMs (now since : Nat) : Nat := (now - since) / 1000000

def scanCell (p : PredictionEngine) (now : Nat) (actual : Char) (scan : Scan)
    (cell : ConditionalOverlayCell) : Scan × ConditionalOverlayCell :=
  match cell.getValidity actual p.lastHeight p.lastWidth p.localFrameAcked
      p.localFrameLateAcked with
  | .incorrectOrExpired => ({ scan with shouldReset := true }, cell)
  | .correct =>
      let scan := { scan with maxConfirmed := max scan.maxConfirmed cell.tentativeUntilEpoch }
      let scan :=
        if elapsedMs now cell.predictionTime < GLITCH_THRESHOLD_MS ∧ scan.glitchTrigger > 0 ∧
            elapsedMs now scan.lastQuickConfirmation ≥ GLITCH_REPAIR_MININTERVAL_MS then
          { scan with
            glitchTrigger := scan.glitchTrigger - 1
            lastQuickConfirmation := now }
        else scan
      (scan, cell.reset)
  | .correctNoCredit => (scan, cell.reset)
  | .pending =>
      let elapsed := elapsedMs now cell.predictionTime
      (if elapsed ≥ GLITCH_FLAG_THRESHOLD_MS then
          { scan with glitchTrigger := GLITCH_REPAIR_COUNT * 2 }
        else if elapsed ≥ GLITCH_THRESHOLD_MS ∧ scan.glitchTrigger < GLITCH_REPAIR_COUNT then
          { scan with glitchTrigger := GLITCH_REPAIR_COUNT }
        else scan, cell)
  | .inactive => (scan, cell)

def scanCells (p : PredictionEngine) (now : Nat) (getCell : Nat → Char) :
    Scan → List ConditionalOverlayCell → Scan × List ConditionalOverlayCell
  | scan, [] => (scan, [])
  | scan, cell :: rest =>
      let (scan, cell) := p.scanCell now (getCell cell.col) scan cell
      let (scan, rest) := p.scanCells now getCell scan rest
      (scan, cell :: rest)

def scanRows (p : PredictionEngine) (now : Nat) (getCell : Nat → Nat → Char) :
    Scan → List OverlayRow → Scan × List OverlayRow
  | scan, [] => (scan, [])
  | scan, row :: rest =>
      let (scan, cells) := p.scanCells now (getCell row.rowNum) scan row.cells
      let (scan, rest) := p.scanRows now getCell scan rest
      (scan, { row with cells := cells } :: rest)

/-- Validate the predictions against a state of the server. -/
def validatePredictions (p : PredictionEngine) (now : Nat) (getCell : Nat → Nat → Char)
    (cursorRow cursorCol : Nat) : PredictionEngine :=
  let (scan, rows) := p.scanRows now getCell
    ⟨false, p.confirmedEpoch, p.glitchTrigger, p.lastQuickConfirmation⟩ p.overlay.rows
  let validity := fun c : ConditionalCursorMove =>
    c.getValidity cursorRow cursorCol p.lastHeight p.lastWidth p.localFrameLateAcked
  -- only the last cursor is judged
  let shouldReset := scan.shouldReset || p.cursors.getLast?.any fun c =>
    c.active && validity c = .incorrectOrExpired
  let p := { p with
    overlay := ⟨rows⟩
    confirmedEpoch := scan.maxConfirmed
    glitchTrigger := scan.glitchTrigger
    lastQuickConfirmation := scan.lastQuickConfirmation
    cursors := p.cursors.filter fun c => validity c = .pending }
  if shouldReset then p.reset else p

end PredictionEngine

end Morsh
