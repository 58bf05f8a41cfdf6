import Morsh.Lib.Vt.Feeds
import Morsh.Terminal.Display
import Morsh.Terminal.Sgr

/-!
# The sequences the diff is made of

Each function that writes a sequence, and what the sequence does to a
terminal.

A control sequence is an introducer, parameters and a final character, and feeding
one is feeding its parts, so each lemma here is the lemma of the terminal's parser
at the parameters the function writes. A style is reset and then built up from the
plain one, attribute by attribute, the colors last.
-/

namespace Morsh

open Vt

theorem joined_eq (ps : List Nat) : joined ps = numbers ps := by
  induction ps with
  | nil => rfl
  | cons n ps ih =>
      cases ps with
      | nil => simp [joined, decimal, numbers, List.intercalate]
      | cons m ps => rw [joined, ih, numbers_cons_cons, decimal]

variable [CharWidth] {s : Screen CellStyle}

theorem feeds_csi {f : Char} (hf : f ≠ '?' ∧ f ≠ ';' ∧ f.isDigit = false) (ps : List Nat) :
    Feeds s (csi ps f) (s.dispatch false ps f) := by
  rw [csi, joined_eq]
  exact Feeds.csi hf ps

theorem feeds_mode (number : Nat) (on : Bool) :
    Feeds s (mode number on) (s.setMode on number) := Feeds.mode number on

theorem feeds_cup {y x : Nat} (hy : y < s.rows) (hx : x < s.cols) :
    Feeds s (cup (y + 1) (x + 1)) { s with y := y, x := x, pendingWrap := false } := by
  have h := feeds_csi (s := s) (f := 'H') (by decide) [y + 1, x + 1]
  have hy' : min y (s.rows - 1) = y := by omega
  have hx' : min x (s.cols - 1) = x := by omega
  simpa [cup, Screen.dispatch, Screen.cursorPosition, hy', hx'] using h

/-! ## Styles -/

namespace Sgr

omit [CharWidth] in
theorem apply_select {n : Nat} (hn : n ≠ 38 ∧ n ≠ 48) (rest : List Nat) (st : CellStyle) :
    apply (n :: rest) st = apply rest (select n st) := by
  obtain ⟨h38, h48⟩ := hn
  rw [apply] <;> simp_all

omit [CharWidth] in
theorem apply_flag {flag : Bool} {n : Nat} (hn : n ≠ 38 ∧ n ≠ 48) (rest : List Nat)
    (st : CellStyle) :
    apply ((if flag then [n] else []) ++ rest) st
      = apply rest (if flag then select n st else st) := by
  cases flag with
  | false => rfl
  | true => exact apply_select hn rest st

end Sgr

namespace DisplayDiff

omit [CharWidth] in
/-- The colors come last, each of them on its own. -/
theorem apply_colors (fg bg : StyleColor) (st : CellStyle) (hfg : st.fg = .default)
    (hbg : st.bg = .default) :
    Sgr.apply ((match fg with
        | .rgb c => [38, 2, c.r.toNat, c.g.toNat, c.b.toNat]
        | .palette idx => [38, 5, idx.toNat]
        | .default => []) ++
      match bg with
        | .rgb c => [48, 2, c.r.toNat, c.g.toNat, c.b.toNat]
        | .palette idx => [48, 5, idx.toNat]
        | .default => []) st = { st with fg := fg, bg := bg } := by
  obtain ⟨sfg, sbg, bold, italic, faint, blink, inverse, invisible, strikethrough, overline,
    underline⟩ := st
  cases hfg
  cases hbg
  cases fg <;> cases bg <;> simp [Sgr.apply, Sgr.rgb]

omit [CharWidth] in
theorem apply_styleParams (style : CellStyle) :
    Sgr.apply (styleParams style) .defaultStyle = style := by
  obtain ⟨fg, bg, bold, italic, faint, blink, inverse, invisible, strikethrough, overline,
    underline⟩ := style
  simp only [styleParams, List.append_assoc]
  iterate 9 rw [Sgr.apply_flag (by decide)]
  refine (apply_colors fg bg _ ?_ ?_).trans ?_
  -- each flag sets one field and leaves the others alone
  all_goals
    simp [Sgr.select, CellStyle.defaultStyle, apply_ite CellStyle.fg, apply_ite CellStyle.bg,
      apply_ite CellStyle.bold, apply_ite CellStyle.italic, apply_ite CellStyle.faint,
      apply_ite CellStyle.blink, apply_ite CellStyle.inverse, apply_ite CellStyle.invisible,
      apply_ite CellStyle.strikethrough, apply_ite CellStyle.overline,
      apply_ite CellStyle.underline]

/-- Setting the pen sets it, whatever it was. -/
theorem feeds_setPen (style : CellStyle) :
    Feeds s (setPen style) { s with pen := style } := by
  have hreset : Feeds s (csi [0] 'm') { s with pen := .defaultStyle } :=
    feeds_csi (by decide) [0]
  by_cases hdefault : style.isDefault = true
  · have hstyle : style = .defaultStyle := of_decide_eq_true hdefault
    rw [setPen, if_pos hdefault, List.append_nil, hstyle]
    exact hreset
  · rw [setPen, if_neg hdefault]
    refine hreset.append ?_
    have hstyle := apply_styleParams style
    have hne : styleParams style ≠ [] := by
      intro hnil
      rw [hnil] at hstyle
      exact hdefault (decide_eq_true hstyle.symm)
    have hon : styleOn style = csi (styleParams style) 'm' := by
      unfold styleOn
      split
      · next hnil => exact absurd hnil hne
      · rfl
    have h := feeds_csi (s := { s with pen := .defaultStyle }) (f := 'm') (by decide)
      (styleParams style)
    rw [hon]
    simpa [Screen.dispatch, hne, Rendition.sgr, hstyle] using h

theorem feeds_title {text : Text} (h : ∀ c ∈ text, Vt.isControl c = false) :
    Feeds s (title text) { s with title := text } := by
  refine Feeds.title fun c hc => ⟨?_, ?_⟩ <;> rintro rfl <;> exact absurd (h _ hc) (by decide)

end DisplayDiff

end Morsh
