import Morsh.Terminal.Snapshot

/-!
# Escape sequences from snapshots

`DisplayDiff`, function by function; each returns the characters the source
appends to its buffer. The row pass runs on fuel, one unit a column.
-/

namespace Morsh

def ESC : Char := '\x1b'
def BEL : Char := '\x07'

def decimal (n : Nat) : Text := Nat.toDigits 10 n

/-- Numbers in decimal, separated by semicolons. -/
def joined : List Nat → Text
  | [] => []
  | [n] => decimal n
  | n :: m :: rest => decimal n ++ ';' :: joined (m :: rest)

/-- A control sequence with these parameters. -/
def csi (params : List Nat) (final : Char) : Text :=
  ESC :: '[' :: (joined params ++ [final])

/-- Cursor position, both coordinates from 1. -/
def cup (y x : Nat) : Text := csi [y, x] 'H'

/-- A DEC private mode set or reset. -/
def mode (number : Nat) (on : Bool) : Text :=
  ESC :: '[' :: '?' :: (decimal number ++ [if on then 'h' else 'l'])

/-- The window title, terminated by BEL. -/
def title (text : Text) : Text := ESC :: ']' :: '0' :: ';' :: (text ++ [BEL])

namespace DisplayDiff

/-- The sequence that turns on what `style` has beyond the default. -/
def styleParams (style : CellStyle) : List Nat :=
  (if style.bold then [1] else []) ++
  (if style.faint then [2] else []) ++
  (if style.italic then [3] else []) ++
  (if style.underline then [4] else []) ++
  (if style.blink then [5] else []) ++
  (if style.inverse then [7] else []) ++
  (if style.invisible then [8] else []) ++
  (if style.strikethrough then [9] else []) ++
  (if style.overline then [53] else []) ++
  (match style.fg with
    | .rgb c => [38, 2, c.r.toNat, c.g.toNat, c.b.toNat]
    | .palette idx => [38, 5, idx.toNat]
    | .default => []) ++
  match style.bg with
    | .rgb c => [48, 2, c.r.toNat, c.g.toNat, c.b.toNat]
    | .palette idx => [48, 5, idx.toNat]
    | .default => []

def styleOn (style : CellStyle) : Text :=
  match styleParams style with
  | [] => []
  | params => csi params 'm'

/-- Reset the pen, then set it. -/
def setPen (style : CellStyle) : Text :=
  csi [0] 'm' ++ if style.isDefault then [] else styleOn style

def titleChange (old : Option ScreenSnapshot) (new : ScreenSnapshot) : Text :=
  match old with
  | some o => if o.title = new.title then [] else title new.title
  -- no empty title on a first paint
  | none => if new.title = [] then [] else title new.title

/-- One mode, written when it changed or when there is nothing to compare. -/
def modeChange (number : Nat) (field : ScreenSnapshot → Bool) (old : Option ScreenSnapshot)
    (new : ScreenSnapshot) : Text :=
  if old.map field ≠ some (field new) then mode number (field new) else []

def mouseReportingChange (old : Option ScreenSnapshot) (new : ScreenSnapshot) : Text :=
  if old.map (·.mouseReporting) ≠ some new.mouseReporting then
    ([MouseReporting.x10, .vt200, .buttonEvent, .anyEvent].flatMap fun m =>
      if m ≠ new.mouseReporting then mode m.number false else []) ++
    if new.mouseReporting ≠ .none then mode new.mouseReporting.number true else []
  else []

def mouseEncodingChange (old : Option ScreenSnapshot) (new : ScreenSnapshot) : Text :=
  if old.map (·.mouseEncoding) ≠ some new.mouseEncoding then
    ([MouseEncoding.utf8, .sgr, .urxvt].flatMap fun e =>
      if e ≠ new.mouseEncoding then mode e.number false else []) ++
    if new.mouseEncoding ≠ .default then mode new.mouseEncoding.number true else []
  else []

def stateChanges (old : Option ScreenSnapshot) (new : ScreenSnapshot) : Text :=
  titleChange old new ++
  modeChange 2004 (·.bracketedPaste) old new ++
  modeChange 1004 (·.mouseFocusEvent) old new ++
  modeChange 1007 (·.mouseAlternateScroll) old new ++
  mouseReportingChange old new ++
  mouseEncodingChange old new

/-! ## Scrolling -/

/-- Lines the content moved up by, and rows at the top it accounts for. -/
structure Scroll where
  lines : Nat
  height : Nat
  deriving DecidableEq, Repr

/-- The inner loop of `detect_scroll`: rows from `region` on that match. -/
def matchingRows (newRows oldRows : List (List CellData)) : Nat
  := ((newRows.zip oldRows).takeWhile fun p => p.1 = p.2).length

/-- The outer loop: the first old row, from `row` on, that is the new top row. -/
def findTop (top : List CellData) : List (List CellData) → Nat → Option Nat
  | [], _ => none
  | old :: rest, row => if top = old then some row else findTop top rest (row + 1)

/-- How far the display moved up, if it did. -/
def detectScroll (oldRows : List (List CellData)) (new : ScreenSnapshot) : Option Scroll :=
  let height := new.rowsCount
  if height = 0 ∨ oldRows.length < height then none
  else
    match new.rows.head?.bind fun top => findTop top (oldRows.take height) 0 with
    | none => none
    -- looking at ourselves: no scroll
    | some 0 => none
    | some lines =>
        some ⟨lines, 1 + matchingRows ((new.rows.take height).drop 1)
          ((oldRows.take height).drop (lines + 1))⟩

def emitScroll (scroll : Scroll) (new : ScreenSnapshot) (oldCursorY : Nat) : Text :=
  let bottom := scroll.lines + scroll.height - 1
  csi [0] 'm' ++
  if bottom + 1 = new.rowsCount ∧ oldCursorY + 1 = new.rowsCount then
    '\r' :: List.replicate scroll.lines '\n'
  else
    csi [1, bottom + 1] 'r' ++ cup (bottom + 1) 1 ++ List.replicate scroll.lines '\n' ++
      csi [] 'r'

/-- The old rows as the scroll leaves them. -/
def shiftRows (oldRows : List (List CellData)) (scroll : Scroll) (new : ScreenSnapshot) :
    List (List CellData) :=
  let bottom := scroll.lines + scroll.height - 1
  let blank := List.replicate new.cols CellData.empty
  oldRows.mapIdx fun i row =>
    if i ≤ bottom then
      if i + scroll.lines ≤ bottom then oldRows.getD (i + scroll.lines) [] else blank
    else row

/-! ## The row pass -/

/-- What is written for a cell. -/
def shown (cell : CellData) : Text := if cell.text = [] then [' '] else cell.text

/-- The body of the row loop at column `x`: what is written, and where the
cursor is then known to be. -/
def diffCell (y x : Nat) (changed : Bool) (cell : CellData) (pen : CellStyle)
    (cursor : Option (Nat × Nat)) : Text × Option (Nat × Nat) :=
  let diverges := pen ≠ cell.style
  let penOut := if diverges then cup (y + 1) (x + 1) ++ setPen cell.style else []
  let cursor := if diverges then some (y + 1, x + 1) else cursor
  if changed then
    (penOut ++ (if cursor ≠ some (y + 1, x + 1) then cup (y + 1) (x + 1) else []) ++ shown cell,
      some (y + 1, x + 1 + if cell.wide then 2 else 1))
  else (penOut, none)

/-- The row loop from column `x` on. -/
def diffRow (cols y : Nat) (oldRow newRow : List CellData) :
    Nat → Nat → CellStyle → Option (Nat × Nat) → Text
  | 0, _, _, _ => []
  | fuel + 1, x, pen, cursor =>
      if x < cols then
        let cell := newRow.getD x .empty
        let (out, cursor) := diffCell y x (oldRow[x]? ≠ newRow[x]?) cell pen cursor
        -- a wide glyph owns the column to its right
        if cell.wide ∧ x + 1 < cols then
          out ++ diffRow cols y oldRow newRow fuel (x + 2) (newRow.getD (x + 1) .empty).style cursor
        else out ++ diffRow cols y oldRow newRow fuel (x + 1) cell.style cursor
      else []

/-- One row of the pass; an unchanged row is skipped. -/
def diffOneRow (cols y : Nat) (oldRow newRow : List CellData) : Text :=
  if oldRow = newRow then []
  else csi [0] 'm' ++ diffRow cols y oldRow newRow cols 0 .defaultStyle none

/-- The rows from `y` on. -/
def diffRows (cols : Nat) : Nat → List (List CellData × List CellData) → Text
  | _, [] => []
  | y, (oldRow, newRow) :: rest =>
      diffOneRow cols y oldRow newRow ++ diffRows cols (y + 1) rest

/-! ## Whole frames -/

/-- The cells of one row, the pen carried along. -/
def redrawRow : Nat → List CellData → CellStyle → Text
  | 0, _, last => if last.isDefault then [] else csi [0] 'm'
  | _, [], last => if last.isDefault then [] else csi [0] 'm'
  | fuel + 1, cell :: rest, last =>
      (if cell.style ≠ last then setPen cell.style else []) ++ shown cell ++
        redrawRow fuel (if cell.wide then rest.drop 1 else rest) cell.style

/-- The rows from `y` on, each positioned absolutely. -/
def redrawRows : Nat → List (List CellData) → Text
  | _, [] => []
  | y, row :: rest =>
      cup (y + 1) 1 ++ redrawRow row.length row .defaultStyle ++ redrawRows (y + 1) rest

def fullRedraw (snap : ScreenSnapshot) : Text :=
  mode 25 false ++ csi [] 'r' ++ csi [0] 'm' ++ csi [] 'H' ++ csi [2] 'J' ++
  stateChanges none snap ++ redrawRows 0 snap.rows ++
  cup (snap.cursorY + 1) (snap.cursorX + 1) ++
  if snap.cursorVisible then mode 25 true else []

/-- What `diff` writes ahead of the final cursor position. -/
def diffBody (old new : ScreenSnapshot) : Text :=
  let rows := new.rowsCount
  match detectScroll old.rows new with
  | some scroll =>
      stateChanges (some old) new ++ emitScroll scroll new old.cursorY ++
        diffRows new.cols scroll.height
          ((((shiftRows old.rows scroll new).take rows).zip (new.rows.take rows)).drop
            scroll.height)
  | none =>
      stateChanges (some old) new ++
        diffRows new.cols 0 ((old.rows.take rows).zip (new.rows.take rows))

/-- The sequence that turns `old` into `new`. -/
def diff (old new : ScreenSnapshot) : Text :=
  if old.cols ≠ new.cols ∨ old.rowsCount ≠ new.rowsCount then fullRedraw new
  else
    let out := diffBody old new
    out ++
    (if out ≠ [] ∨ old.cursorY ≠ new.cursorY ∨ old.cursorX ≠ new.cursorX then
      cup (new.cursorY + 1) (new.cursorX + 1) else []) ++
    if old.cursorVisible ≠ new.cursorVisible then mode 25 new.cursorVisible else []

end DisplayDiff

end Morsh
