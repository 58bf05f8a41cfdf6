import Morsh.Lib.Vt.Row

/-!
# A terminal

The control functions a full-screen program uses: cursor position, graphic
rendition, printing with the wrap at the right margin deferred, carriage
return, line feed with scrolling at the bottom margin, the scrolling region,
erasing the display, the DEC private modes and the window title. What a
character is wide and what a graphic rendition is are parameters.

`step` is the parser, a character at a time; `Feeds s text s'` says that `text`
takes the screen `s` to `s'` and leaves the parser where it started, so that
what is known of two texts is known of the one after the other.
-/

namespace Vt

/-- The columns a character takes, `0` for a combining one. -/
class CharWidth where
  width : Char → Nat
  width_space : width ' ' = 1

/-- What `SGR` selects. -/
class Rendition (σ : Type) where
  plain : σ
  sgr : List Nat → σ → σ
  /-- The style of what is erased while this pen is selected. -/
  erased : σ → σ

structure Screen (σ : Type) where
  cols : Nat
  rows : Nat
  grid : List (Row σ)
  x : Nat
  y : Nat
  /-- The last column has been written and the wrap is still to come. -/
  pendingWrap : Bool
  pen : σ
  /-- The scrolling region, both margins in it. -/
  top : Nat
  bottom : Nat
  /-- The DEC private modes that are set. -/
  modes : Nat → Bool
  title : List Char

inductive Parser where
  | ground
  | escape
  | csi (priv : Bool) (params : List Nat) (current : Option Nat)
  | osc (text : List Char)
  deriving DecidableEq, Repr

structure Terminal (σ : Type) where
  parser : Parser
  screen : Screen σ

namespace Screen

variable {σ : Type} [Rendition σ]

/-- Cursor visible, everything else off. -/
def blankModes : Nat → Bool := fun n => n = 25

def new (cols rows : Nat) : Screen σ where
  cols := cols
  rows := rows
  grid := List.replicate rows (List.replicate cols (.blank Rendition.plain))
  x := 0
  y := 0
  pendingWrap := false
  pen := Rendition.plain
  top := 0
  bottom := rows - 1
  modes := blankModes
  title := []

def blank (s : Screen σ) : Cell σ := .blank (Rendition.erased s.pen)

def blankRow (s : Screen σ) : Row σ := List.replicate s.cols s.blank

/-- `CUP`, both coordinates from 1. -/
def cursorPosition (s : Screen σ) (row col : Nat) : Screen σ :=
  { s with y := min (row - 1) (s.rows - 1), x := min (col - 1) (s.cols - 1), pendingWrap := false }

/-- `DECSTBM`; an empty region is ignored. -/
def setMargins (s : Screen σ) (top bottom : Nat) : Screen σ :=
  let bottom := if bottom = 0 then s.rows else bottom
  let top := max top 1
  if top < bottom ∧ bottom ≤ s.rows then
    { s with top := top - 1, bottom := bottom - 1, x := 0, y := 0, pendingWrap := false }
  else s

/-- The region moves up a line. -/
def scrollUp (s : Screen σ) : Screen σ :=
  { s with
    grid := s.grid.take s.top ++ (s.grid.drop (s.top + 1)).take (s.bottom - s.top) ++
      s.blankRow :: s.grid.drop (s.bottom + 1) }

def carriageReturn (s : Screen σ) : Screen σ := { s with x := 0, pendingWrap := false }

def lineFeed (s : Screen σ) : Screen σ :=
  let s := { s with pendingWrap := false }
  if s.y = s.bottom then s.scrollUp
  else if s.y + 1 < s.rows then { s with y := s.y + 1 }
  else s

def setMode (s : Screen σ) (on : Bool) (number : Nat) : Screen σ :=
  { s with modes := fun n => if n = number then on else s.modes n }

def eraseDisplay (s : Screen σ) : Screen σ :=
  { s with grid := List.replicate s.rows s.blankRow }

/-- Perform the wrap that is still to come. -/
def wrap (s : Screen σ) : Screen σ :=
  if s.pendingWrap then s.carriageReturn.lineFeed else s

/-- Past the last column the cursor stays on it, and the wrap is deferred. -/
def advance (s : Screen σ) (n : Nat) : Screen σ :=
  if s.x + n < s.cols then { s with x := s.x + n }
  else { s with x := s.cols - 1, pendingWrap := true }

def overRow (s : Screen σ) (f : Row σ → Row σ) : Screen σ :=
  { s with grid := s.grid.modify s.y f }

/-- A combining character joins the glyph before the cursor. -/
def combine (s : Screen σ) (m : Char) : Screen σ :=
  if s.pendingWrap then s.overRow fun row => attach m row s.x
  else if s.x = 0 then s
  else s.overRow fun row => attach m row (s.x - 1)

def printNarrow (s : Screen σ) (c : Char) : Screen σ :=
  let s := s.wrap
  (s.overRow fun row => putNarrow s.blank row s.x ⟨[c], s.pen, .narrow⟩).advance 1

/-- A wide character that does not fit in the last column goes to the next
line. -/
def printWide (s : Screen σ) (c : Char) : Screen σ :=
  if s.cols < 2 then s
  else
    let s := s.wrap
    let s := if s.x + 1 < s.cols then s else s.carriageReturn.lineFeed
    (s.overRow fun row => putWide s.blank row s.x ⟨[c], s.pen, .wide⟩).advance 2

def print [CharWidth] (s : Screen σ) (c : Char) : Screen σ :=
  match CharWidth.width c with
  | 0 => s.combine c
  | 1 => s.printNarrow c
  | _ => s.printWide c

/-- Control characters. Those not listed do nothing. -/
def control (s : Screen σ) (c : Char) : Screen σ :=
  if c = '\r' then s.carriageReturn
  else if c = '\n' then s.lineFeed
  else if c = '\x08' then { s with x := s.x - 1, pendingWrap := false }
  else s

/-- A control sequence. Those not listed do nothing. -/
def dispatch (s : Screen σ) (priv : Bool) (params : List Nat) (final : Char) : Screen σ :=
  if priv then
    if final = 'h' then params.foldl (setMode · true) s
    else if final = 'l' then params.foldl (setMode · false) s
    else s
  else if final = 'H' then s.cursorPosition (params.getD 0 0) (params.getD 1 0)
  else if final = 'm' then
    { s with pen := Rendition.sgr (if params = [] then [0] else params) s.pen }
  else if final = 'r' then s.setMargins (params.getD 0 0) (params.getD 1 0)
  else if final = 'J' ∧ params = [2] then s.eraseDisplay
  else s

/-- An operating system command: icon name and title, or the title. -/
def command (s : Screen σ) : List Char → Screen σ
  | '0' :: ';' :: text => { s with title := text }
  | '2' :: ';' :: text => { s with title := text }
  | _ => s

end Screen

def isControl (c : Char) : Bool := c.toNat < 0x20 ∨ 0x7f ≤ c.toNat ∧ c.toNat < 0xa0

/-- The parameters of a control sequence, a missing one as `0`. -/
def finish (params : List Nat) (current : Option Nat) : List Nat :=
  if params = [] then current.toList else params ++ [current.getD 0]

namespace Terminal

variable {σ : Type} [Rendition σ] [CharWidth]

def step (t : Terminal σ) (c : Char) : Terminal σ :=
  match t.parser with
  | .ground =>
      if c = '\x1b' then { t with parser := .escape }
      else if isControl c then { t with screen := t.screen.control c }
      else { t with screen := t.screen.print c }
  | .escape =>
      if c = '[' then { t with parser := .csi false [] none }
      else if c = ']' then { t with parser := .osc [] }
      else { t with parser := .ground }
  | .csi priv params current =>
      if c = '?' then { t with parser := .csi true params current }
      else if c = ';' then { t with parser := .csi priv (params ++ [current.getD 0]) none }
      else if c.isDigit then
        { t with parser := .csi priv params (some (10 * current.getD 0 + (c.toNat - '0'.toNat))) }
      else ⟨.ground, t.screen.dispatch priv (finish params current) c⟩
  | .osc text =>
      if c = '\x07' then ⟨.ground, t.screen.command text⟩
      else if c = '\x1b' then ⟨.escape, t.screen.command text⟩
      else { t with parser := .osc (text ++ [c]) }

def feed (t : Terminal σ) (text : List Char) : Terminal σ := text.foldl step t

theorem feed_append (t : Terminal σ) (as bs : List Char) :
    t.feed (as ++ bs) = (t.feed as).feed bs := List.foldl_append

theorem feed_cons (t : Terminal σ) (c : Char) (cs : List Char) :
    t.feed (c :: cs) = (t.step c).feed cs := rfl

end Terminal

end Vt
