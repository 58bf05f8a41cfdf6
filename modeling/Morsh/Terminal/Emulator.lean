import Morsh.Network.State
import Morsh.Terminal.Snapshot

/-!
# The terminal emulator

`MoshTerminal` wraps an emulator that is outside the repository. `Emulator` is
what the wrapper calls of it; how the wrapper turns what the emulator renders
into a snapshot is its own code.
-/

namespace Morsh

/-- `CellWide`. -/
inductive CellWidth where
  | narrow
  | wide
  | spacerTail
  | spacerHead
  deriving DecidableEq, Repr

structure RawCell where
  graphemes : Text
  width : CellWidth
  style : CellStyle

/-- What `RenderState` and the getters of the emulator report. -/
structure Rendered where
  rows : List (List RawCell)
  cursor : Option (Nat × Nat)
  cursorVisible : Bool
  title : Text
  fg : RgbColor
  bg : RgbColor
  palette : List RgbColor
  /-- Whether a mode is set. -/
  mode : Nat → Bool

class Emulator (T : Type) where
  new : Nat → Nat → Except String T
  write : T → Bytes → T
  resize : T → Nat → Nat → Except String T
  render : T → Except String Rendered

structure MoshTerminal (T : Type) where
  terminal : T
  cols : Nat
  rows : Nat

namespace MoshTerminal

variable {T : Type} [Emulator T]

def new (cols rows : Nat) : Except String (MoshTerminal T) :=
  (Emulator.new cols rows).map fun terminal => ⟨terminal, cols, rows⟩

def write (m : MoshTerminal T) (data : Bytes) : MoshTerminal T :=
  { m with terminal := Emulator.write m.terminal data }

/-- `resize` notes the new size before the emulator has accepted it, so an
error leaves it noted. -/
def resize (m : MoshTerminal T) (cols rows : Nat) : MoshTerminal T × Except String Unit :=
  match Emulator.resize m.terminal cols rows with
  | .ok terminal => (⟨terminal, cols, rows⟩, .ok ())
  | .error e => (⟨m.terminal, cols, rows⟩, .error e)

def mouseReporting (r : Rendered) : MouseReporting :=
  if r.mode 1003 then .anyEvent
  else if r.mode 1002 then .buttonEvent
  else if r.mode 1000 then .vt200
  else if r.mode 9 then .x10
  else .none

def mouseEncoding (r : Rendered) : MouseEncoding :=
  if r.mode 1006 then .sgr
  else if r.mode 1015 then .urxvt
  else if r.mode 1005 then .utf8
  else .default

/-- Blank cells come out of the emulator in two forms; one of them is kept. -/
def cellData (c : RawCell) : CellData :=
  let spacer := c.width = .spacerTail ∨ c.width = .spacerHead
  { text := if spacer ∨ c.graphemes = [' '] then [] else c.graphemes
    wide := c.width = .wide
    spacer := spacer
    style := c.style }

/-- Short rows are padded; a long one is not cut. -/
def rowData (cols : Nat) (row : List RawCell) : List CellData :=
  row.map cellData ++ List.replicate (cols - row.length) .empty

def snapshot (m : MoshTerminal T) : Except String ScreenSnapshot :=
  (Emulator.render m.terminal).map fun r =>
    let rows := (r.rows.map (rowData m.cols)).take m.rows
    let cursor := match r.cursor with
      | some (x, y) => (min x (m.cols - 1), min y (m.rows - 1))
      | none => (0, 0)
    { rows := rows ++ List.replicate (m.rows - rows.length) (List.replicate m.cols .empty)
      cols := m.cols
      rowsCount := m.rows
      cursorX := cursor.1
      cursorY := cursor.2
      cursorVisible := r.cursorVisible
      title := r.title
      bracketedPaste := r.mode 2004
      mouseReporting := mouseReporting r
      mouseEncoding := mouseEncoding r
      mouseFocusEvent := r.mode 1004
      mouseAlternateScroll := r.mode 1007
      fg := r.fg
      bg := r.bg
      palette := r.palette }

end MoshTerminal

end Morsh
