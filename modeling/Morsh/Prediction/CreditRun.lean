import Morsh.Prediction.EngineRun

/-!
# What earns a prediction credit

Runs of the engine again. This time the run keeps for every cell the character
the server showed there when it was last predicted, and the epochs in which the
server has since come to show a predicted character that it did not show then.
-/

namespace Morsh

namespace PredictionEngine

/-- Whether a byte is predicted as a character or as a backspace. -/
def Edits (p : PredictionEngine) (ch : Char) (cursorCol : Nat) : Prop :=
  p.displayPreference ≠ .never ∧ p.inputState = .ground ∧
    (ch = '\x7f' ∧ cursorCol ≠ 0 ∨ isAsciiGraphic ch = true ∨ ch = ' ')

/-- A byte after which the server may do anything: a control character, or the
end of a key sequence other than left and right. -/
def Unpredictable (p : PredictionEngine) (ch : Char) : Prop :=
  p.displayPreference ≠ .never ∧
    match p.inputState with
    | .ground => ch ≠ '\x1b' ∧ ch ≠ '\x7f' ∧ ¬ (isAsciiGraphic ch = true ∨ ch = ' ')
    | .escape => ch ≠ '[' ∧ ch ≠ 'O'
    | .csi => 0x40 ≤ ch.toNat ∧ ch.toNat ≤ 0x7e ∧ ch ≠ 'C' ∧ ch ≠ 'D'
    | .ss3 => ch ≠ 'C' ∧ ch ≠ 'D'

instance (p : PredictionEngine) (ch : Char) (cursorCol : Nat) :
    Decidable (p.Edits ch cursorCol) := inferInstanceAs (Decidable (_ ∧ _))

end PredictionEngine

/-- Whether an edit predicts column `col` of its row: from the cursor on, and
all of the last row where the line wraps on it. -/
def touches (ch : Char) (cursorRow cursorCol numCols numRows col : Nat) : Bool :=
  if ch = '\x7f' then cursorCol ≤ col + 1
  else cursorCol ≤ col || (numCols ≤ cursorCol + 1 && numRows ≤ cursorRow + 1)

/-- The character an edit of a row predicts in column `col`, where it predicts
one: `view` is the row as it is displayed. A wrap on the last row predicts
blanks only. -/
def foretold (ch : Char) (cursorRow cursorCol numCols numRows : Nat) (view : Nat → Option Char)
    (col : Nat) : Option Char :=
  if ch = '\x7f' then
    if cursorCol ≤ col + 1 ∧ col + 2 < numCols then view (col + 1) else none
  else if numCols ≤ cursorCol + 1 ∧ numRows ≤ cursorRow + 1 then none
  else if col = cursorCol then some ch
  else if cursorCol < col ∧ col + 1 < numCols then view (col - 1)
  else none

/-- What earns no credit in a cell once it is predicted anew. -/
def Overlay.uncredited (o : Overlay) (row col : Nat) : List Char :=
  ((o.getRow row).bind fun r => r.cells[col]?).elim [] fun cell =>
    cell.resetWithOrig.originalContents

namespace PredictionEngine

/-- The predictions a key finds on a screen of that size. -/
def fitted (p : PredictionEngine) (numRows numCols : Nat) : Overlay :=
  (p.sized numRows numCols).overlay.prune numRows

/-- The key predicts nowhere what the server already shows there, unless it is
a blank or a prediction made there before. -/
def Fresh (p : PredictionEngine) (ch : Char) (cursorRow cursorCol numCols numRows : Nat)
    (cellAt : Nat → Nat → Char) : Prop :=
  p.Edits ch cursorCol → ∀ col < numCols,
    foretold ch cursorRow cursorCol numCols numRows
        ((p.fitted numRows numCols).view cellAt cursorRow) col = some (cellAt cursorRow col) →
      cellAt cursorRow col = ' ' ∨
        cellAt cursorRow col ∈ (p.fitted numRows numCols).uncredited cursorRow col

/-- A prediction that is judged, and the server shows it where it showed
something else when it was made. -/
def Echoes (p : PredictionEngine) (shown getCell : Nat → Nat → Char) (row : Nat)
    (cell : ConditionalOverlayCell) : Prop :=
  cell.active = true ∧ cell.unknown = false ∧ cell.expirationFrame ≤ p.localFrameLateAcked ∧
    getCell row cell.col = cell.replacement ∧ shown row cell.col ≠ cell.replacement

instance (p : PredictionEngine) (shown getCell : Nat → Nat → Char) (row : Nat)
    (cell : ConditionalOverlayCell) : Decidable (p.Echoes shown getCell row cell) :=
  inferInstanceAs (Decidable (_ ∧ _))

end PredictionEngine

structure CreditRun where
  engine : PredictionEngine
  /-- What the server showed at a row and column when it was last predicted. -/
  shown : Nat → Nat → Char
  /-- The epochs of the predictions the server has echoed. -/
  echoed : List Nat

namespace CreditRun

def new (now : Nat) : CreditRun := ⟨.new now, fun _ _ => ' ', []⟩

/-- The characters shown, once a key has been predicted. -/
def keyShown (p : PredictionEngine) (ch : Char) (cursorRow cursorCol numCols numRows : Nat)
    (cellAt shown : Nat → Nat → Char) : Nat → Nat → Char := fun row col =>
  if p.Edits ch cursorCol ∧ row = cursorRow ∧
      touches ch cursorRow cursorCol numCols numRows col = true then cellAt row col
  else shown row col

/-- The epochs of the predictions a state of the server echoes. -/
def echoes (s : CreditRun) (getCell : Nat → Nat → Char) : List Nat :=
  s.engine.overlay.rows.flatMap fun r =>
    (r.cells.filter fun cell => s.engine.Echoes s.shown getCell r.rowNum cell).map
      (·.tentativeUntilEpoch)

/-- `none` where the engine panics. -/
def step (s : CreditRun) : EngineOp → Option CreditRun
  | .newUserByte ch row col numCols numRows now cellAt =>
      (s.engine.newUserByte ch row col numCols numRows now cellAt).map fun p =>
        { s with
          engine := p
          shown := keyShown s.engine ch row col numCols numRows cellAt s.shown }
  | .validatePredictions now getCell row col =>
      some { s with
        engine := s.engine.validatePredictions now getCell row col
        echoed := s.echoed ++ s.echoes getCell }
  | .setLocalFrameSent frame => some { s with engine := s.engine.setLocalFrameSent frame }
  | .setLocalFrameAcked frame => some { s with engine := s.engine.setLocalFrameAcked frame }
  | .setLocalFrameLateAcked frame =>
      some { s with engine := s.engine.setLocalFrameLateAcked frame }
  | .setSendInterval interval => some { s with engine := s.engine.setSendInterval interval }
  | .setDisplayPreference pref => some { s with engine := s.engine.setDisplayPreference pref }
  | .reset => some { s with engine := s.engine.reset }

/-- The call makes no prediction that the server already shows. -/
def Fresh (s : CreditRun) : EngineOp → Prop
  | .newUserByte ch row col numCols numRows _ cellAt =>
      s.engine.Fresh ch row col numCols numRows cellAt
  | _ => True

end CreditRun

end Morsh
