import Mathlib.Data.List.Basic

/-!
# The screen at a point in time

`ScreenSnapshot` and its parts. A `u16` coordinate is a number, and a text is
the list of its characters.
-/

namespace Morsh

abbrev Text := List Char

structure RgbColor where
  r : UInt8
  g : UInt8
  b : UInt8
  deriving DecidableEq, Repr

/-- RGB or a 256-color palette index. -/
inductive StyleColor where
  | default
  | rgb (c : RgbColor)
  | palette (idx : UInt8)
  deriving DecidableEq, Repr

structure CellStyle where
  fg : StyleColor
  bg : StyleColor
  bold : Bool
  italic : Bool
  faint : Bool
  blink : Bool
  inverse : Bool
  invisible : Bool
  strikethrough : Bool
  overline : Bool
  underline : Bool
  deriving DecidableEq, Repr

def CellStyle.defaultStyle : CellStyle :=
  ⟨.default, .default, false, false, false, false, false, false, false, false, false⟩

def CellStyle.isDefault (s : CellStyle) : Bool := s = defaultStyle

/-- A single terminal cell. -/
structure CellData where
  text : Text
  /-- Holds a double-width glyph and owns the column to its right. -/
  wide : Bool
  /-- The right half of a double-width glyph. -/
  spacer : Bool
  style : CellStyle
  deriving DecidableEq, Repr

/-- A space with default style. -/
def CellData.empty : CellData := ⟨[], false, false, .defaultStyle⟩

inductive MouseReporting where
  | none
  | x10
  | vt200
  | buttonEvent
  | anyEvent
  deriving DecidableEq, Repr

/-- The DEC private mode number, `0` where there is none. -/
def MouseReporting.number : MouseReporting → Nat
  | none => 0
  | x10 => 9
  | vt200 => 1000
  | buttonEvent => 1002
  | anyEvent => 1003

inductive MouseEncoding where
  | default
  | utf8
  | sgr
  | urxvt
  deriving DecidableEq, Repr

def MouseEncoding.number : MouseEncoding → Nat
  | default => 0
  | utf8 => 1005
  | sgr => 1006
  | urxvt => 1015

structure ScreenSnapshot where
  rows : List (List CellData)
  cols : Nat
  rowsCount : Nat
  cursorX : Nat
  cursorY : Nat
  cursorVisible : Bool
  title : Text
  bracketedPaste : Bool
  mouseReporting : MouseReporting
  mouseEncoding : MouseEncoding
  mouseFocusEvent : Bool
  mouseAlternateScroll : Bool
  fg : RgbColor
  bg : RgbColor
  palette : List RgbColor
  deriving DecidableEq, Repr

/-- The 16 standard colors, the color cube and the gray ramp. -/
def defaultPalette : List RgbColor :=
  [⟨0, 0, 0⟩, ⟨205, 49, 49⟩, ⟨13, 188, 121⟩, ⟨229, 229, 16⟩,
    ⟨36, 114, 200⟩, ⟨188, 63, 188⟩, ⟨17, 168, 205⟩, ⟨229, 229, 229⟩,
    ⟨102, 102, 102⟩, ⟨241, 76, 76⟩, ⟨35, 209, 139⟩, ⟨245, 245, 67⟩,
    ⟨59, 142, 234⟩, ⟨214, 112, 214⟩, ⟨41, 184, 219⟩, ⟨255, 255, 255⟩] ++
  ((List.range 216).map fun i =>
    ⟨.ofNat (i / 36 * 51), .ofNat (i / 6 % 6 * 51), .ofNat (i % 6 * 51)⟩) ++
  (List.range 24).map fun i => ⟨.ofNat (8 + i * 10), .ofNat (8 + i * 10), .ofNat (8 + i * 10)⟩

/-- An empty snapshot with the given dimensions. -/
def ScreenSnapshot.new (cols rows : Nat) : ScreenSnapshot where
  rows := List.replicate rows (List.replicate cols .empty)
  cols := cols
  rowsCount := rows
  cursorX := 0
  cursorY := 0
  cursorVisible := true
  title := []
  bracketedPaste := false
  mouseReporting := .none
  mouseEncoding := .default
  mouseFocusEvent := false
  mouseAlternateScroll := false
  fg := ⟨255, 255, 255⟩
  bg := ⟨0, 0, 0⟩
  palette := defaultPalette

/-- The cell at column `x` of row `y`. -/
def ScreenSnapshot.cell (s : ScreenSnapshot) (x y : Nat) : Option CellData :=
  s.rows[y]?.bind fun row => row[x]?

end Morsh
