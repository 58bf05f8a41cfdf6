import Morsh.Proofs.Sequences

/-!
# The row pass

`Shows` relates a row of a terminal to a row of a snapshot: every cell that is
not a spacer is there, and what a spacer covers is left open. `Reached` is the
invariant of the row loop: the columns behind it show the new row, those ahead
of it the old one, and the loop never stands on the right half of a glyph it
has just written. Then neither a write nor the blanking it causes can reach a
cell the loop relies on.

A write at the place of the loop blanks the other half of whatever wide glyph it
hits. To the left that would be a glyph just written, and the invariant says it is
not cut: the loop stands behind whole glyphs. To the right it would be a cell that
has not been reached, which the loop will look at by what the snapshot says of
it; but a cell that is unchanged and shown is preceded by no glyph that reaches
into it, so it is either written anew or not touched. `skip`, `writeNarrow` and
`writeWide` are the three ways the loop goes on, each with the invariant at the
column behind.
-/

namespace Morsh

open Vt

variable [CharWidth]

/-- A character of this width and the marks that join it. -/
def Glyph (width : Nat) (text : Text) : Prop :=
  ∃ base marks, text = base :: marks ∧ CharWidth.width base = width ∧
    ∀ m ∈ marks, CharWidth.width m = 0

namespace CellData

/-- A cell that takes the columns it claims. -/
structure Sound (c : CellData) : Prop where
  printable : ∀ ch ∈ c.text, Vt.isControl ch = false
  wide : c.wide = true → Glyph 2 c.text
  narrow : c.wide = false → c.text = [] ∨ Glyph 1 c.text

/-- What a terminal shows for a cell that is not a spacer. -/
def shownAs (c : CellData) : Cell CellStyle :=
  ⟨DisplayDiff.shown c, c.style, if c.wide then .wide else .narrow⟩

end CellData

/-- A row whose wide cells are followed by a spacer, of their style where the
cell after it has the spacer's. -/
structure SoundRow (cols : Nat) (row : List CellData) : Prop where
  length : row.length = cols
  sound : ∀ c ∈ row, c.Sound
  paired : ∀ {x c}, row[x]? = some c → c.wide = true → c.spacer = false ∧
    ∃ d, row[x + 1]? = some d ∧ d.spacer = true ∧ d.wide = false ∧
      ∀ e, row[x + 2]? = some e → e.style = d.style → d.style = c.style

/-- The row of a terminal shows the row of a snapshot. -/
structure Shows (cols : Nat) (tr : Row CellStyle) (row : List CellData) : Prop where
  length : tr.length = cols
  whole : Whole tr
  cells : ∀ {x : Nat} {c : CellData}, row[x]? = some c → c.spacer = false → tr[x]? = some c.shownAs

/-- The row loop at column `x`. -/
structure Reached (cols : Nat) (oldRow newRow : List CellData) (x : Nat) (tr : Row CellStyle) :
    Prop where
  length : tr.length = cols
  whole : Whole tr
  done : ∀ {j : Nat} {c : CellData}, j < x → newRow[j]? = some c → c.spacer = false →
    tr[j]? = some c.shownAs
  ahead : ∀ {j : Nat} {c : CellData}, x ≤ j → oldRow[j]? = some c → c.spacer = false →
    tr[j]? = some c.shownAs
  /-- The column before is not the left half of a glyph. -/
  edge : ∀ {j : Nat} {c : CellData}, j + 1 = x → newRow[j]? = some c → c.wide = false

variable {cols x : Nat} {oldRow newRow : List CellData} {tr : Row CellStyle} {c : CellData}
  {blank : Cell CellStyle}

namespace Reached

omit [CharWidth] in
theorem start (h : Shows cols tr oldRow) : Reached cols oldRow newRow 0 tr :=
  ⟨h.length, h.whole, fun hj => absurd hj (Nat.not_lt_zero _), fun _ => h.cells, by omega⟩

theorem finish (h : Reached cols oldRow newRow x tr) (hnew : SoundRow cols newRow) (hx : cols ≤ x) :
    Shows cols tr newRow := by
  refine ⟨h.length, h.whole, fun {j c} hget hc => h.done ?_ hget hc⟩
  have hlt := (List.getElem?_eq_some_iff.mp hget).1
  have hlen := hnew.length
  omega

/-- An unchanged cell is passed over, with the spacer of a wide one. The terminal
has it from the old row, and of a spacer nothing is asked. -/
theorem skip (h : Reached cols oldRow newRow x tr) (hnew : SoundRow cols newRow)
    (hget : newRow[x]? = some c) (hsame : oldRow[x]? = some c) :
    Reached cols oldRow newRow (x + if c.wide then 2 else 1) tr := by
  have hcell : c.spacer = false → tr[x]? = some c.shownAs := h.ahead (Nat.le_refl x) hsame
  by_cases hwide : c.wide = true
  · obtain ⟨hspacer, d, hd, hds, hdw, -⟩ := hnew.paired hget hwide
    rw [if_pos hwide]
    refine ⟨h.length, h.whole, fun {j e} hj he hes => ?_, fun hj => h.ahead (by omega),
      fun {j e} hj he => ?_⟩
    · rcases Nat.lt_trichotomy j x with hlt | rfl | hgt
      · exact h.done hlt he hes
      · rw [hget] at he
        cases he
        exact hcell hspacer
      · have hj' : j = x + 1 := by omega
        rw [hj', hd] at he
        cases he
        rw [hds] at hes
        cases hes
    · have hj' : j = x + 1 := by omega
      rw [hj', hd] at he
      cases he
      exact hdw
  · rw [if_neg hwide]
    refine ⟨h.length, h.whole, fun {j e} hj he hes => ?_, fun hj => h.ahead (by omega),
      fun {j e} hj he => ?_⟩
    · rcases Nat.lt_or_eq_of_le (Nat.le_of_lt_succ hj) with hlt | rfl
      · exact h.done hlt he hes
      · rw [hget] at he
        cases he
        exact hcell hes
    · have hj' : j = x := by omega
      rw [hj', hget] at he
      cases he
      simpa using hwide

omit [CharWidth] in
theorem shownAs_kind_ne (c : CellData) : c.shownAs.kind ≠ .spacer := by
  unfold CellData.shownAs
  split <;> simp

omit [CharWidth] in
theorem behind (h : Reached cols oldRow newRow x tr) {j : Nat} {e : CellData} (hj : j + 1 = x)
    (he : newRow[j]? = some e) (hes : e.spacer = false) :
    Row.kindAt tr x ≠ some .spacer := by
  intro hk
  obtain ⟨d, hd, hdk⟩ := kindAt_eq_some.mp hk
  obtain ⟨y, f, hy, hf, hfk⟩ := h.whole.spacer hd hdk
  have hyj : y = j := by omega
  rw [hyj, h.done (by omega) he hes] at hf
  cases hf
  have hnarrow := h.edge hj he
  rw [CellData.shownAs, hnarrow] at hfk
  cases hfk

omit [CharWidth] in
theorem before (h : Reached cols oldRow newRow x tr) {j : Nat} {e : CellData} (hj : x ≤ j + 1)
    (he : oldRow[j + 1]? = some e) (hes : e.spacer = false) :
    Row.kindAt tr j ≠ some .wide := by
  intro hk
  obtain ⟨d, hd, hdk⟩ := kindAt_eq_some.mp hk
  have htail := h.whole.wide hd hdk
  rw [h.ahead hj he hes] at htail
  exact shownAs_kind_ne e (Option.some.inj htail ▸ rfl)

omit [CharWidth] in
theorem writeNarrow (h : Reached cols oldRow newRow x tr) (hblank : blank.kind = .narrow)
    (hget : newRow[x]? = some c) (hwide : c.wide = false) (hx : x < cols) :
    Reached cols oldRow newRow (x + 1) (putNarrow blank tr x c.shownAs) := by
  have hlen : x < tr.length := h.length ▸ hx
  have hkind : c.shownAs.kind = .narrow := by rw [CellData.shownAs, hwide]; rfl
  refine ⟨by rw [putNarrow_length, h.length], h.whole.putNarrow hblank hkind hlen,
    fun {j e} hj he hes => ?_, fun {j e} hj he hes => ?_, fun {j e} hj he => ?_⟩
  · rcases Nat.lt_or_eq_of_le (Nat.le_of_lt_succ hj) with hlt | rfl
    · rw [getElem?_putNarrow_of_ne (by omega) (by omega) fun hj' => h.behind hj' he hes]
      exact h.done hlt he hes
    · rw [hget] at he
      cases he
      exact getElem?_putNarrow_self hlen
  · rw [getElem?_putNarrow_of_ne (by omega) (fun hj' => ?_) (by omega)]
    · exact h.ahead (by omega) he hes
    · exact h.before (by omega) (hj' ▸ he) hes
  · have hj' : j = x := by omega
    rw [hj', hget] at he
    cases he
    exact hwide

omit [CharWidth] in
theorem writeWide [CharWidth] (h : Reached cols oldRow newRow x tr) (hnew : SoundRow cols newRow)
    (hblank : blank.kind = .narrow) (hget : newRow[x]? = some c) (hwide : c.wide = true) :
    Reached cols oldRow newRow (x + 2) (putWide blank tr x c.shownAs) := by
  obtain ⟨-, d, hd, hds, hdw, -⟩ := hnew.paired hget hwide
  have hx : x + 1 < cols := hnew.length ▸ (List.getElem?_eq_some_iff.mp hd).1
  have hlen : x + 1 < tr.length := h.length ▸ hx
  have hkind : c.shownAs.kind = .wide := by rw [CellData.shownAs, hwide]; rfl
  refine ⟨by rw [putWide_length, h.length], h.whole.putWide hblank hkind hlen,
    fun {j e} hj he hes => ?_, fun {j e} hj he hes => ?_, fun {j e} hj he => ?_⟩
  · rcases Nat.lt_trichotomy j x with hlt | rfl | hgt
    · rw [getElem?_putWide_of_ne hblank (by omega) (by omega) (by omega)
        fun hj' => h.behind hj' he hes]
      exact h.done hlt he hes
    · rw [hget] at he
      cases he
      exact (getElem?_putWide_self hlen).1
    · have hj' : j = x + 1 := by omega
      rw [hj', hd] at he
      cases he
      rw [hds] at hes
      cases hes
  · rw [getElem?_putWide_of_ne hblank (by omega) (by omega) (fun hj' => ?_) (by omega)]
    · exact h.ahead (by omega) he hes
    · exact h.before (j := x + 1) (by omega) (hj' ▸ he) hes
  · have hj' : j = x + 1 := by omega
    rw [hj', hd] at he
    cases he
    exact hdw

end Reached

end Morsh
