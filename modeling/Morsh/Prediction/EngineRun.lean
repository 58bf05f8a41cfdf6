import Morsh.Lib.Run
import Morsh.Prediction.View

/-!
# Runs of the engine

What the client does with its engine, call by call. Beside the engine the run
keeps what the code does not: for each predicted cursor the epochs it rests on.
-/

namespace Morsh

/-- A call of the client. -/
inductive EngineOp where
  | newUserByte (ch : Char) (cursorRow cursorCol numCols numRows now : Nat)
      (cellAt : Nat → Nat → Char)
  | validatePredictions (now : Nat) (getCell : Nat → Nat → Char) (cursorRow cursorCol : Nat)
  | setLocalFrameSent (frame : Nat)
  | setLocalFrameAcked (frame : Nat)
  | setLocalFrameLateAcked (frame : Nat)
  | setSendInterval (interval : Nat)
  | setDisplayPreference (pref : DisplayPreference)
  | reset

structure EngineRun where
  engine : PredictionEngine
  /-- For each entry of `cursors` the epochs of the keystrokes that moved it, and
  of the epoch changes made while they were processed. -/
  marks : List (List Nat)
  deriving DecidableEq, Repr

namespace EngineRun

def new (now : Nat) : EngineRun := ⟨.new now, []⟩

/-- The marks a key finds. An entry begun for it goes on from where the one
before it stands, and rests on what that rests on. -/
def begunMarks (p : PredictionEngine) (cursorRow cursorCol numCols numRows : Nat)
    (marks : List (List Nat)) : List (List Nat) :=
  let held := marks.take (p.sized numRows numCols).cursors.length
  if held.length < (p.prepare cursorRow cursorCol numCols numRows).cursors.length then
    held ++ [held.getLast?.getD []]
  else held

/-- The marks once a key has taken the engine from `p` to `p'`. -/
def keyMarks (p p' : PredictionEngine) (cursorRow cursorCol numCols numRows : Nat)
    (marks : List (List Nat)) : List (List Nat) :=
  if p.displayPreference = .never then marks
  else
    let q := p.prepare cursorRow cursorCol numCols numRows
    let begun := begunMarks p cursorRow cursorCol numCols numRows marks
    if p'.cursors = [] then []
    else if p'.cursorPos = q.cursorPos then begun
    else
      -- the epoch of the keystroke, and those it has become tentative for
      let epochs := q.predictionEpoch ::
        List.range' (p.predictionEpoch + 1) (p'.predictionEpoch - p.predictionEpoch)
      updateLast (fun marks => marks ++ epochs) begun

/-- The marks of the entries a validation from `p` to `p'` keeps. -/
def keptMarks (p p' : PredictionEngine) (cursorRow cursorCol : Nat) (marks : List (List Nat)) :
    List (List Nat) :=
  if p'.cursors = [] then []
  else
    ((p.cursors.zip marks).filter fun e =>
      e.1.getValidity cursorRow cursorCol p.lastHeight p.lastWidth p.localFrameLateAcked
        = .pending).map (·.2)

/-- `none` where the engine panics. -/
def step (s : EngineRun) : EngineOp → Option EngineRun
  | .newUserByte ch row col numCols numRows now cellAt =>
      (s.engine.newUserByte ch row col numCols numRows now cellAt).map fun p =>
        ⟨p, keyMarks s.engine p row col numCols numRows s.marks⟩
  | .validatePredictions now getCell row col =>
      let p := s.engine.validatePredictions now getCell row col
      some ⟨p, keptMarks s.engine p row col s.marks⟩
  | .setLocalFrameSent frame => some { s with engine := s.engine.setLocalFrameSent frame }
  | .setLocalFrameAcked frame => some { s with engine := s.engine.setLocalFrameAcked frame }
  | .setLocalFrameLateAcked frame =>
      some { s with engine := s.engine.setLocalFrameLateAcked frame }
  | .setSendInterval interval => some { s with engine := s.engine.setSendInterval interval }
  | .setDisplayPreference pref => some { s with engine := s.engine.setDisplayPreference pref }
  | .reset => some ⟨s.engine.reset, []⟩

/-- The predicted cursor is shown only where all it rests on is confirmed. -/
def Confirmed (s : EngineRun) : Prop :=
  s.engine.displayCursor ≠ none →
    ∃ marks, s.marks.getLast? = some marks ∧ ∀ epoch ∈ marks, epoch ≤ s.engine.confirmedEpoch

instance (s : EngineRun) : Decidable s.Confirmed :=
  inferInstanceAs (Decidable (_ → _))

/-- The key wraps the prediction: a printable byte at the right margin, and the
predicted cursor not already at the start of the last row. -/
def Wraps (p : PredictionEngine) (ch : Char) (cursorRow cursorCol numCols numRows : Nat) : Prop :=
  p.displayPreference ≠ .never ∧ p.inputState = .ground ∧
    (isAsciiGraphic ch = true ∨ ch = ' ') ∧ numCols ≤ cursorCol + 1 ∧
    ∃ row col, (p.prepare cursorRow cursorCol numCols numRows).cursorPos = some (row, col) ∧
      (col ≠ 0 ∨ row + 1 < numRows)

/-- The call does not wrap the prediction. -/
def KeepsLeft (s : EngineRun) : EngineOp → Prop
  | .newUserByte ch row col numCols numRows _ _ => ¬ Wraps s.engine ch row col numCols numRows
  | _ => True

end EngineRun

end Morsh
