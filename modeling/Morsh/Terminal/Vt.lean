import Morsh.Terminal.Emulator
import Morsh.Terminal.Sgr

/-!
# An emulator

The terminal of the library as an `Emulator`, with a table of widths. The
emulator the repository calls is not part of it; this one stands in where a
concrete run is exhibited.
-/

namespace Morsh

open Vt

/-- Combining marks take no column; East Asian wide characters and emoji take
two. -/
def wcwidth (c : Char) : Nat :=
  let n := c.toNat
  if 0x300 ≤ n ∧ n ≤ 0x36f then 0
  else if 0x1100 ≤ n ∧ n ≤ 0x115f ∨ 0x2e80 ≤ n ∧ n ≤ 0xa4cf ∨ 0xac00 ≤ n ∧ n ≤ 0xd7a3
      ∨ 0xf900 ≤ n ∧ n ≤ 0xfaff ∨ 0xff00 ≤ n ∧ n ≤ 0xff60 ∨ 0x1f300 ≤ n ∧ n ≤ 0x1faff then 2
  else 1

/-- The widths of `wcwidth`. -/
abbrev wcwidths : CharWidth := ⟨wcwidth, rfl⟩

abbrev VtTerminal := Terminal CellStyle

namespace VtTerminal

/-- A list cut or padded to a length. -/
def fit {α : Type} (n : Nat) (pad : α) (l : List α) : List α :=
  l.take n ++ List.replicate (n - l.length) pad

def resize (t : VtTerminal) (cols rows : Nat) : VtTerminal :=
  let s := t.screen
  { t with screen := { s with
      cols := cols
      rows := rows
      grid := fit rows (List.replicate cols s.blank) (s.grid.map (fit cols s.blank))
      x := min s.x (cols - 1)
      y := min s.y (rows - 1)
      pendingWrap := false
      top := 0
      bottom := rows - 1 } }

def rawCell (c : Cell CellStyle) : RawCell where
  graphemes := c.text
  width := match c.kind with
    | .narrow => .narrow
    | .wide => .wide
    | .spacer => .spacerTail
  style := c.style

def render (t : VtTerminal) : Rendered where
  rows := t.screen.grid.map (·.map rawCell)
  cursor := some (t.screen.x, t.screen.y)
  cursorVisible := t.screen.modes 25
  title := t.screen.title
  fg := ⟨255, 255, 255⟩
  bg := ⟨0, 0, 0⟩
  palette := []
  mode := t.screen.modes

instance : Emulator VtTerminal where
  new cols rows :=
    if cols = 0 ∨ rows = 0 then .error "empty terminal" else .ok ⟨.ground, Screen.new cols rows⟩
  write t bytes :=
    @Terminal.feed CellStyle _ wcwidths t (bytes.map fun b => Char.ofNat b.toNat)
  resize t cols rows :=
    if cols = 0 ∨ rows = 0 then .error "empty terminal" else .ok (t.resize cols rows)
  render t := .ok t.render

end VtTerminal

end Morsh
