import Morsh.Proofs.Diff
import Morsh.Terminal.Vt

/-!
# The diff as a transformer

`Displays` fixes every cell, spacers included: a terminal's rows are whole, so
what shows behind a wide glyph is settled by the glyph. On snapshots whose
spacers are where wide glyphs leave them `Painted` and `Displays` then say the
same, and the diff takes the one display to the other.

The text of a cell has to take the columns the cell claims. A mark with nothing
to stand on takes none of its own: it joins the glyph to the left, or is lost.

`Spaced` says where spacers stand, and with it the two readings of a row agree:
what a terminal shows behind a wide glyph is the right half of that glyph, which
is what a spacer there displays. So the theorem about what is drawn becomes one
about what is displayed, for snapshots of the shape the emulator produces. The
condition on the texts is left to the theorem, as a cell may hold a text that
takes no column at all.
-/

namespace Morsh

open Vt

/-- What a terminal shows for a cell. -/
def CellData.displayed (c : CellData) : Cell CellStyle :=
  if c.spacer then ⟨[], c.style, .spacer⟩ else c.shownAs

/-- A terminal that displays a snapshot. -/
structure Displays (s : Screen CellStyle) (snap : ScreenSnapshot) : Prop where
  cols : s.cols = snap.cols
  rows : s.rows = snap.rowsCount
  grid : s.grid = snap.rows.map (·.map CellData.displayed)
  x : s.x = snap.cursorX
  y : s.y = snap.cursorY
  visible : s.modes 25 = snap.cursorVisible
  announced : Announced s snap
  top : s.top = 0
  bottom : s.bottom = s.rows - 1

/-- Spacers stand behind wide cells, where else they do not. -/
structure Spaced (row : List CellData) : Prop where
  wide : ∀ {x c}, row[x]? = some c → c.wide = true → c.spacer = false ∧
    ∃ d, row[x + 1]? = some d ∧ d.spacer = true ∧ d.wide = false ∧ d.text = [] ∧
      d.style = c.style
  spacer : ∀ {x c}, row[x]? = some c → c.spacer = true →
    ∃ y d, x = y + 1 ∧ row[y]? = some d ∧ d.wide = true

/-- A snapshot as the emulator produces them, whatever its texts. -/
structure WellFormed (snap : ScreenSnapshot) : Prop where
  rows : snap.rows.length = snap.rowsCount
  cols : ∀ row ∈ snap.rows, row.length = snap.cols
  spaced : ∀ row ∈ snap.rows, Spaced row
  cursorX : snap.cursorX < snap.cols
  cursorY : snap.cursorY < snap.rowsCount
  title : ∀ c ∈ snap.title, Vt.isControl c = false
  printable : ∀ row ∈ snap.rows, ∀ c ∈ row, ∀ ch ∈ c.text, Vt.isControl ch = false

variable [CharWidth] {s : Screen CellStyle} {snap old new : ScreenSnapshot} {cols : Nat}
  {row : List CellData} {tr : Row CellStyle}

/-- The columns a text takes. -/
def columns (text : Text) : Nat := (text.map CharWidth.width).sum

/-- A wide cell's text takes two columns, any other's one at most: a character
and the marks that join it. -/
def Fitting (c : CellData) : Prop :=
  if c.wide then Glyph 2 c.text else c.text = [] ∨ Glyph 1 c.text

theorem Spaced.soundRow (h : Spaced row) (hlen : row.length = cols)
    (hprint : ∀ c ∈ row, ∀ ch ∈ c.text, Vt.isControl ch = false) (hfit : ∀ c ∈ row, Fitting c) :
    SoundRow cols row := by
  refine ⟨hlen, fun c hc => ⟨hprint c hc, fun hw => ?_, fun hn => ?_⟩, fun hget hw => ?_⟩
  · have hfit := hfit c hc
    rwa [Fitting, if_pos hw] at hfit
  · have hfit := hfit c hc
    rwa [Fitting, if_neg (by simp [hn])] at hfit
  · obtain ⟨hspacer, d, hd, hds, hdw, -, hstyle⟩ := h.wide hget hw
    exact ⟨hspacer, d, hd, hds, hdw, fun _ _ _ => hstyle⟩

omit [CharWidth] in
/-- Where the spacers are right, showing a row leaves nothing open. -/
theorem Spaced.shows_iff (h : Spaced row) (hlen : row.length = cols) :
    Shows cols tr row ↔ tr = row.map CellData.displayed := by
  have hlead : ∀ {x c}, row[x]? = some c → c.spacer = true →
      ∃ y d, x = y + 1 ∧ row[y]? = some d ∧ d.wide = true ∧ d.spacer = false ∧
        c.style = d.style := by
    intro x c hc hspacer
    obtain ⟨y, d, rfl, hd, hw⟩ := h.spacer hc hspacer
    obtain ⟨hds, e, he, -, -, -, hstyle⟩ := h.wide hd hw
    obtain rfl : c = e := Option.some.inj (hc.symm.trans he)
    exact ⟨y, d, rfl, hd, hw, hds, hstyle⟩
  constructor
  · intro hshows
    refine List.ext_getElem? fun x => ?_
    rw [List.getElem?_map]
    cases hc : row[x]? with
    | none =>
        rw [List.getElem?_eq_none_iff] at hc
        rw [Option.map_none, List.getElem?_eq_none_iff, hshows.length]
        omega
    | some c =>
        rw [Option.map_some, CellData.displayed]
        by_cases hspacer : c.spacer = true
        · obtain ⟨y, d, rfl, hd, hw, hds, hstyle⟩ := hlead hc hspacer
          have hwide : d.shownAs.kind = .wide := by rw [CellData.shownAs, hw]; rfl
          rw [if_pos hspacer, hshows.whole.wide (hshows.cells hd hds) hwide, hstyle]
          rfl
        · rw [if_neg hspacer]
          exact hshows.cells hc (by simpa using hspacer)
  · rintro rfl
    have hget : ∀ {x : Nat} {k}, (row.map CellData.displayed)[x]? = some k →
        ∃ c : CellData, row[x]? = some c ∧ k = c.displayed := by
      intro x k hk
      rw [List.getElem?_map] at hk
      obtain ⟨c, hc, rfl⟩ := Option.map_eq_some_iff.mp hk
      exact ⟨c, hc, rfl⟩
    refine ⟨by simp [hlen], ⟨fun {x k} hk hkind => ?_, fun {x k} hk hkind => ?_⟩,
      fun {x c} hc hspacer => ?_⟩
    · obtain ⟨c, hc, rfl⟩ := hget hk
      have hw : c.wide = true ∧ c.spacer = false := by
        unfold CellData.displayed CellData.shownAs at hkind
        split at hkind
        · cases hkind
        · next hs => exact ⟨by simpa using hkind, by simpa using hs⟩
      obtain ⟨-, d, hd, hds, -, -, hstyle⟩ := h.wide hc hw.1
      rw [List.getElem?_map, hd, Option.map_some, CellData.displayed, if_pos hds, hstyle,
        CellData.displayed, if_neg (by simp [hw.2])]
      rfl
    · obtain ⟨c, hc, rfl⟩ := hget hk
      have hs : c.spacer = true := by
        unfold CellData.displayed CellData.shownAs at hkind
        split at hkind
        · assumption
        · simp only at hkind
          split at hkind <;> cases hkind
      obtain ⟨y, d, rfl, hd, hw, hds, -⟩ := hlead hc hs
      refine ⟨y, d.displayed, rfl, by rw [List.getElem?_map, hd]; rfl, ?_⟩
      rw [CellData.displayed, if_neg (by simp [hds]), CellData.shownAs, hw]
      rfl
    · rw [List.getElem?_map, hc, Option.map_some, CellData.displayed, if_neg (by simp [hspacer])]

omit [CharWidth] in
theorem forall₂_iff_map {α β : Type} {R : α → β → Prop} {f : β → α} {as : List α} {bs : List β}
    (h : ∀ b ∈ bs, ∀ a, R a b ↔ a = f b) : List.Forall₂ R as bs ↔ as = bs.map f := by
  induction bs generalizing as with
  | nil => simp
  | cons b bs ih =>
      have ih' : ∀ as, List.Forall₂ R as bs ↔ as = bs.map f :=
        fun as => ih fun b hb => h b (List.mem_cons_of_mem _ hb)
      rw [List.forall₂_cons_right_iff, List.map_cons]
      constructor
      · rintro ⟨a, rest, hfirst, hrest, rfl⟩
        rw [(h b List.mem_cons_self a).mp hfirst, (ih' rest).mp hrest]
      · rintro rfl
        exact ⟨_, _, (h b List.mem_cons_self _).mpr rfl, (ih' _).mpr rfl, rfl⟩

omit [CharWidth] in
/-- A display of a well-formed snapshot is a display up to what spacers cover.
Spacers follow wide cells there, so what the row shows determines the rest of it.
-/
theorem WellFormed.displays_iff (h : WellFormed snap) :
    Displays s snap ↔ Painted s snap ∧ s.modes 25 = snap.cursorVisible := by
  have hgrid : List.Forall₂ (Shows snap.cols) s.grid snap.rows ↔
      s.grid = snap.rows.map (·.map CellData.displayed) :=
    forall₂_iff_map fun row hrow _ => (h.spaced row hrow).shows_iff (h.cols row hrow)
  constructor
  · rintro ⟨hc, hr, hg, hx, hy, hvisible, hannounced, htop, hbottom⟩
    exact ⟨⟨hc, hr, hgrid.mpr hg, hx, hy, hannounced,
      ⟨by rw [hg, List.length_map, h.rows, hr], htop, hbottom⟩⟩, hvisible⟩
  · rintro ⟨⟨hc, hr, hg, hx, hy, hannounced, hfull⟩, hvisible⟩
    exact ⟨hc, hr, hgrid.mp hg, hx, hy, hvisible, hannounced, hfull.top, hfull.bottom⟩

theorem WellFormed.drawable (h : WellFormed snap) (hfit : ∀ row ∈ snap.rows, ∀ c ∈ row, Fitting c) :
    Drawable snap :=
  ⟨h.rows, fun row hrow => (h.spaced row hrow).soundRow (h.cols row hrow) (h.printable row hrow)
    (hfit row hrow), h.cursorX, h.cursorY, h.title⟩

namespace DisplayDiff

/-- Fed to a terminal that displays the old snapshot, the diff leaves it
displaying the new one. -/
theorem diff_transforms (hold : WellFormed old) (hnew : WellFormed new)
    (hfit : ∀ row ∈ new.rows, ∀ c ∈ row, Fitting c) (hcols : old.cols = new.cols)
    (hrows : old.rowsCount = new.rowsCount) (h : Displays s old) :
    ∃ s', Feeds s (diff old new) s' ∧ Displays s' new := by
  obtain ⟨hpainted, hvisible⟩ := hold.displays_iff.mp h
  obtain ⟨s', hfeeds, hpainted', hvisible'⟩ :=
    diff_feeds hpainted (hnew.drawable hfit) hcols hrows
  refine ⟨s', hfeeds, hnew.displays_iff.mpr ⟨hpainted', ?_⟩⟩
  rw [hvisible', hvisible]
  split
  · assumption
  · rfl

end DisplayDiff

/-! ## On concrete screens -/

section

omit [CharWidth]

theorem spaced_empty (cols : Nat) : Spaced (List.replicate cols CellData.empty) := by
  have hempty : ∀ {x : Nat} {c}, (List.replicate cols CellData.empty)[x]? = some c →
      c = .empty := by
    intro x c hc
    rw [List.getElem?_replicate] at hc
    split at hc
    · exact (Option.some.inj hc).symm
    · cases hc
  constructor
  · intro x c hc hw
    rw [hempty hc] at hw
    cases hw
  · intro x c hc hs
    rw [hempty hc] at hs
    cases hs

theorem wellFormed_new {cols rows : Nat} (hcols : 0 < cols) (hrows : 0 < rows) :
    WellFormed (.new cols rows) where
  rows := List.length_replicate
  cols row hrow := by
    rw [List.eq_of_mem_replicate hrow]
    exact List.length_replicate
  spaced row hrow := by
    rw [List.eq_of_mem_replicate hrow]
    exact spaced_empty cols
  cursorX := hcols
  cursorY := hrows
  title _ hc := nomatch hc
  printable row hrow c hc ch hch := by
    rw [List.eq_of_mem_replicate hrow] at hc
    rw [List.eq_of_mem_replicate hc] at hch
    cases hch

/-- A fresh terminal displays an empty snapshot. -/
theorem displays_new (cols rows : Nat) : Displays (.new cols rows) (.new cols rows) where
  cols := rfl
  rows := rfl
  grid := by
    simp only [Screen.new, ScreenSnapshot.new, List.map_replicate]
    rfl
  x := rfl
  y := rfl
  visible := rfl
  announced := by
    refine ⟨rfl, rfl, rfl, rfl, fun m hm => ?_, fun e he => ?_⟩
    · cases m <;> first | rfl | exact absurd rfl hm
    · cases e <;> first | rfl | exact absurd rfl he
  top := rfl
  bottom := rfl

/-- One cell, and in it a mark with nothing to stand on. -/
def loneMark : ScreenSnapshot :=
  { ScreenSnapshot.new 1 1 with rows := [[{ CellData.empty with text := ['\u0301'] }]] }

/-- A wide glyph and its spacer, below a blank line. -/
def wideGlyph : ScreenSnapshot :=
  { ScreenSnapshot.new 2 2 with
    rows := [List.replicate 2 .empty,
      [⟨['你'], true, false, .defaultStyle⟩, ⟨[], false, true, .defaultStyle⟩]]
    cursorY := 1
    title := ['t'] }

theorem wellFormed_loneMark : WellFormed loneMark where
  rows := rfl
  cols row hrow := by
    rw [List.mem_singleton.mp hrow]
    rfl
  spaced row hrow := by
    rw [List.mem_singleton.mp hrow]
    constructor
    · intro x c hc hw
      rw [List.mem_singleton.mp (List.mem_of_getElem? hc)] at hw
      cases hw
    · intro x c hc hs
      rw [List.mem_singleton.mp (List.mem_of_getElem? hc)] at hs
      cases hs
  cursorX := by decide
  cursorY := by decide
  title _ hc := nomatch hc
  printable row hrow c hc ch hch := by
    rw [List.mem_singleton.mp hrow] at hc
    rw [List.mem_singleton.mp hc] at hch
    rw [List.mem_singleton.mp hch]
    decide

theorem wellFormed_wideGlyph : WellFormed wideGlyph where
  rows := rfl
  cols := by decide
  spaced row hrow := by
    rcases List.mem_pair.mp hrow with rfl | rfl
    · exact spaced_empty 2
    · constructor
      · intro x c hc hw
        match x with
        | 0 =>
            cases hc
            exact ⟨rfl, _, rfl, rfl, rfl, rfl, rfl⟩
        | 1 =>
            cases hc
            cases hw
      · intro x c hc hs
        match x with
        | 0 =>
            cases hc
            cases hs
        | 1 => exact ⟨0, _, rfl, rfl, rfl⟩
  cursorX := by decide
  cursorY := by decide
  title c hc := by
    rw [List.mem_singleton.mp hc]
    rfl
  printable row hrow c hc ch hch := by
    rcases List.mem_pair.mp hrow with rfl | rfl
    · rw [List.eq_of_mem_replicate hc] at hch
      cases hch
    · rcases List.mem_pair.mp hc with rfl | rfl
      · rw [List.mem_singleton.mp hch]
        rfl
      · cases hch

theorem fitting_wideGlyph : letI := wcwidths
    ∀ row ∈ wideGlyph.rows, ∀ c ∈ row, Fitting c := by
  let _ : CharWidth := wcwidths
  intro row hrow c hc
  rcases List.mem_pair.mp hrow with rfl | rfl
  · rw [List.eq_of_mem_replicate hc]
    exact Or.inl rfl
  · rcases List.mem_pair.mp hc with rfl | rfl
    · exact ⟨'你', [], rfl, by decide, fun _ hm => nomatch hm⟩
    · exact Or.inl rfl

end

namespace DisplayDiff

omit [CharWidth] in
/-- A text of no columns is not displayed where it should be. -/
theorem diff_loses_lone_mark : letI := wcwidths
    ¬∀ (old new : ScreenSnapshot) (s : Screen CellStyle), WellFormed old → WellFormed new →
      (∀ row ∈ old.rows ++ new.rows, ∀ c ∈ row, c.wide = false → columns c.text ≤ 1) →
      old.cols = new.cols → old.rowsCount = new.rowsCount → Displays s old →
      ∃ s', Feeds s (diff old new) s' ∧ Displays s' new := by
  intro h
  obtain ⟨s', hfeeds, hdisplays⟩ := h (.new 1 1) loneMark (.new 1 1)
    (wellFormed_new (by decide) (by decide)) wellFormed_loneMark (by decide) rfl rfl
    (displays_new 1 1)
  have hgrid : s'.grid = [[Cell.blank CellStyle.defaultStyle]] := by
    rw [← congrArg (·.screen.grid) hfeeds]
    decide +kernel
  rw [hdisplays.grid] at hgrid
  exact absurd hgrid (by decide)

omit [CharWidth] in
theorem diff_transforms_wideGlyph : letI := wcwidths
    Displays (.new 2 2) (.new 2 2) ∧
      ∃ s', Feeds (.new 2 2) (diff (.new 2 2) wideGlyph) s' ∧ Displays s' wideGlyph := by
  let _ : CharWidth := wcwidths
  exact ⟨displays_new 2 2, diff_transforms (wellFormed_new (by decide) (by decide))
    wellFormed_wideGlyph fitting_wideGlyph rfl rfl (displays_new 2 2)⟩

end DisplayDiff

end Morsh
