import Morsh.Lib.Vt.Terminal
import Morsh.Terminal.Snapshot

/-!
# Graphic rendition

What a terminal makes of the parameters of `SGR`, over the styles of a
snapshot. This is the terminal's side: the source only ever writes these
sequences.
-/

namespace Morsh

namespace Sgr

/-- One attribute. Those not listed do nothing. -/
def select (n : Nat) (s : CellStyle) : CellStyle :=
  match n with
  | 0 => .defaultStyle
  | 1 => { s with bold := true }
  | 2 => { s with faint := true }
  | 3 => { s with italic := true }
  | 4 => { s with underline := true }
  | 5 => { s with blink := true }
  | 7 => { s with inverse := true }
  | 8 => { s with invisible := true }
  | 9 => { s with strikethrough := true }
  | 22 => { s with bold := false, faint := false }
  | 23 => { s with italic := false }
  | 24 => { s with underline := false }
  | 25 => { s with blink := false }
  | 27 => { s with inverse := false }
  | 28 => { s with invisible := false }
  | 29 => { s with strikethrough := false }
  | 39 => { s with fg := .default }
  | 49 => { s with bg := .default }
  | 53 => { s with overline := true }
  | 55 => { s with overline := false }
  | n =>
      if 30 ≤ n ∧ n ≤ 37 then { s with fg := .palette (.ofNat (n - 30)) }
      else if 40 ≤ n ∧ n ≤ 47 then { s with bg := .palette (.ofNat (n - 40)) }
      else if 90 ≤ n ∧ n ≤ 97 then { s with fg := .palette (.ofNat (n - 82)) }
      else if 100 ≤ n ∧ n ≤ 107 then { s with bg := .palette (.ofNat (n - 92)) }
      else s

def rgb (r g b : Nat) : StyleColor := .rgb ⟨.ofNat r, .ofNat g, .ofNat b⟩

def apply : List Nat → CellStyle → CellStyle
  | [], s => s
  | 38 :: 2 :: r :: g :: b :: rest, s => apply rest { s with fg := rgb r g b }
  | 38 :: 5 :: n :: rest, s => apply rest { s with fg := .palette (.ofNat n) }
  | 48 :: 2 :: r :: g :: b :: rest, s => apply rest { s with bg := rgb r g b }
  | 48 :: 5 :: n :: rest, s => apply rest { s with bg := .palette (.ofNat n) }
  | n :: rest, s => apply rest (select n s)

end Sgr

/-- What is erased takes the background of the pen. -/
instance : Vt.Rendition CellStyle where
  plain := .defaultStyle
  sgr := Sgr.apply
  erased s := { CellStyle.defaultStyle with bg := s.bg }

end Morsh
