import Morsh.Proofs.Modes
import Morsh.Proofs.Scroll

/-!
# The diff of two snapshots

The pieces in order: title and modes, the scroll, the rows the scroll does not
account for, the cursor. `Drawn` is what the diff relies on and what it
establishes, whatever the title and the modes are, and `Painted` says of them
too what the snapshot says; whether the cursor is visible is followed on its
own, since a frame is drawn with the cursor hidden.

To feed an output that was put together is to feed its pieces in turn, so the
proof of `diffBody_feeds` has the shape of the function: each piece takes the
terminal from one stage of the drawing to the next. Only the scroll is not local.
It moves rows, and the row pass then leaves out the rows it accounts for; so
between the two the terminal shows the new rows above and the moved ones below.
-/

namespace Morsh

open Vt

variable [CharWidth] {s s' : Screen CellStyle} {snap old new : ScreenSnapshot}

/-- A terminal that shows a snapshot, but for the visibility of the cursor. -/
structure Painted (s : Screen CellStyle) (snap : ScreenSnapshot) : Prop where
  cols : s.cols = snap.cols
  rows : s.rows = snap.rowsCount
  grid : List.Forall₂ (Shows snap.cols) s.grid snap.rows
  x : s.x = snap.cursorX
  y : s.y = snap.cursorY
  announced : Announced s snap
  full : DisplayDiff.Fullscreen s

/-- A terminal with the cells and the cursor of a snapshot. -/
structure Drawn (s : Screen CellStyle) (snap : ScreenSnapshot) : Prop where
  cols : s.cols = snap.cols
  rows : s.rows = snap.rowsCount
  grid : List.Forall₂ (Shows snap.cols) s.grid snap.rows
  x : s.x = snap.cursorX
  y : s.y = snap.cursorY
  full : DisplayDiff.Fullscreen s

/-- A snapshot a terminal can show. -/
structure Drawable (snap : ScreenSnapshot) : Prop where
  rows : snap.rows.length = snap.rowsCount
  sound : ∀ row ∈ snap.rows, SoundRow snap.cols row
  cursorX : snap.cursorX < snap.cols
  cursorY : snap.cursorY < snap.rowsCount
  title : ∀ c ∈ snap.title, Vt.isControl c = false

omit [CharWidth] in
theorem Painted.drawn (h : Painted s snap) : Drawn s snap :=
  ⟨h.cols, h.rows, h.grid, h.x, h.y, h.full⟩

omit [CharWidth] in
theorem Drawn.painted (h : Drawn s snap) (hannounced : Announced s snap) : Painted s snap :=
  ⟨h.cols, h.rows, h.grid, h.x, h.y, hannounced, h.full⟩

omit [CharWidth] in
theorem Drawn.length (h : Drawn s snap) : snap.rows.length = snap.rowsCount := by
  rw [← h.grid.length_eq, h.full.grid, h.rows]

omit [CharWidth] in
theorem Drawn.setMode (h : Drawn s snap) (on : Bool) (number : Nat) :
    Drawn (s.setMode on number) snap :=
  ⟨h.cols, h.rows, h.grid, h.x, h.y, h.full.grid, h.full.top, h.full.bottom⟩

omit [CharWidth] in
theorem Announced.frame (h : Announced s snap) (hframe : DisplayDiff.Frame s s') :
    Announced s' snap := by
  obtain ⟨htitle, hpaste, hfocus, halternate, hreporting, hencoding⟩ := h
  constructor <;> simp only [hframe.modes, hframe.title] <;> assumption

omit [CharWidth] in
theorem Announced.setVisible (h : Announced s snap) (on : Bool) :
    Announced (s.setMode on 25) snap := by
  obtain ⟨htitle, hpaste, hfocus, halternate, hreporting, hencoding⟩ := h
  refine ⟨htitle, hpaste, hfocus, halternate, fun m hm => ?_, fun e he => ?_⟩
  · rw [← hreporting m hm]
    cases m <;> rfl
  · rw [← hencoding e he]
    cases e <;> rfl

namespace DisplayDiff

/-- Every row of the terminal shows the row of a list. -/
abbrev ShowsAll (cols : Nat) : List (Row CellStyle) → List (List CellData) → Prop :=
  List.Forall₂ (Shows cols)

omit [CharWidth] in
theorem forall₂_replicate {α β : Type} {R : α → β → Prop} {a : α} {b : β} (n : Nat) (h : R a b) :
    List.Forall₂ R (List.replicate n a) (List.replicate n b) := by
  induction n with
  | zero => exact .nil
  | succ n ih => exact .cons h ih

variable {cols : Nat} {oldRows newRows : List (List CellData)}

theorem rows_feeds {above below : List (Row CellStyle)} (hgrid : s.grid = above ++ below)
    (hcols : s.cols = cols) (hlength : s.grid.length = s.rows) (hold : ShowsAll cols below oldRows)
    (hlen : newRows.length = oldRows.length) (hnew : ∀ row ∈ newRows, SoundRow cols row) :
    ∃ s' below', Feeds s (diffRows cols above.length (oldRows.zip newRows)) s' ∧ Frame s s' ∧
      s'.grid = above ++ below' ∧ ShowsAll cols below' newRows := by
  have hfst : (oldRows.zip newRows).map (·.1) = oldRows := List.map_fst_zip (by omega)
  have hsnd : (oldRows.zip newRows).map (·.2) = newRows := List.map_snd_zip (by omega)
  obtain ⟨s', below', hfeeds, hframe, hgrid', hshows⟩ :=
    diffRows_feeds hgrid hcols hlength (by rwa [hfst]) fun p hp => hnew _ (List.of_mem_zip hp).2
  exact ⟨s', below', hfeeds, hframe, hgrid', hsnd ▸ hshows⟩

/-- The scroll, and then the rows below those it accounts for. After the scroll
the terminal shows the shifted rows, which are right above `height` already, so
the pass begins there. -/
theorem scroll_feeds {scroll : Scroll} (hold : ShowsAll new.cols s.grid oldRows)
    (hdetected : Detected oldRows new scroll) (hcols : s.cols = new.cols)
    (hrows : s.rows = new.rowsCount) (hfull : Fullscreen s) (hnew : Drawable new) :
    ∃ s', Feeds s (emitScroll scroll new s.y ++ diffRows new.cols scroll.height
        (((shiftRows oldRows scroll new).zip new.rows).drop scroll.height)) s' ∧
      Frame s s' ∧ ShowsAll new.cols s'.grid new.rows := by
  have hlen : oldRows.length = new.rowsCount := by rw [← hold.length_eq, hfull.grid, hrows]
  have hfits : scroll.lines + scroll.height ≤ oldRows.length := hlen ▸ hdetected.fits
  obtain ⟨s₁, hfeeds₁, hframe₁, hgrid₁⟩ := emitScroll_feeds hdetected hrows hfull rfl
  have hshifted : ShowsAll new.cols s₁.grid (shiftRows oldRows scroll new) := by
    rw [hgrid₁, shiftRows_eq hfits hdetected.height, hcols]
    exact List.rel_append (List.forall₂_drop _ (List.rel_append (List.forall₂_take _ hold)
      (forall₂_replicate _ (shows_blank new.cols)))) (List.forall₂_drop _ hold)
  have hlength : (shiftRows oldRows scroll new).length = new.rowsCount := by
    simp [shiftRows, hlen]
  have hsplit := (List.take_append_drop scroll.height s₁.grid).symm
  have habove : (s₁.grid.take scroll.height).length = scroll.height := by
    rw [List.length_take, hshifted.length_eq, hlength]
    have hfits' := hdetected.fits
    omega
  obtain ⟨s₂, below, hfeeds₂, hframe₂, hgrid₂, hbelow⟩ :=
    rows_feeds hsplit (hframe₁.cols.trans hcols)
      (by rw [hshifted.length_eq, hlength, hframe₁.rows, hrows])
      (List.forall₂_drop scroll.height hshifted)
      (by simp [hnew.rows, hlength] : (new.rows.drop scroll.height).length = _)
      fun row hrow => hnew.sound row (List.mem_of_mem_drop hrow)
  rw [habove, List.zip, ← List.drop_zipWith] at hfeeds₂
  refine ⟨s₂, hfeeds₁.append hfeeds₂, hframe₁.trans hframe₂, ?_⟩
  have htop := List.forall₂_take scroll.height hshifted
  rw [hdetected.take_shiftRows hlen] at htop
  rw [hgrid₂, ← List.take_append_drop scroll.height new.rows]
  exact List.rel_append htop hbelow

variable {s₁ : Screen CellStyle}

/-- Everything but the cursor; `s₁` is the terminal with the new title and
modes. -/
theorem diffBody_feeds (hold : Drawn s old) (hnew : Drawable new) (hcols : old.cols = new.cols)
    (hrows : old.rowsCount = new.rowsCount) (hchanges : Feeds s (stateChanges (some old) new) s₁)
    (hrest : s₁ = { s with modes := s₁.modes, title := s₁.title }) :
    ∃ s', Feeds s (diffBody old new) s' ∧ Frame s₁ s' ∧ Fullscreen s' ∧
      ShowsAll new.cols s'.grid new.rows := by
  have hcols₁ : s₁.cols = new.cols := by rw [hrest, ← hcols, ← hold.cols]
  have hrows₁ : s₁.rows = new.rowsCount := by rw [hrest, ← hrows, ← hold.rows]
  have hy : s₁.y = old.cursorY := by rw [hrest, ← hold.y]
  have hfull₁ : Fullscreen s₁ := by
    rw [hrest]
    exact ⟨hold.full.grid, hold.full.top, hold.full.bottom⟩
  have hgrid₁ : ShowsAll new.cols s₁.grid old.rows := by
    rw [hrest, ← hcols]
    exact hold.grid
  have hlen : old.rows.length = new.rowsCount := hold.length.trans hrows
  have htakeOld : old.rows.take new.rowsCount = old.rows := List.take_of_length_le (by omega)
  have htakeNew : new.rows.take new.rowsCount = new.rows :=
    List.take_of_length_le (Nat.le_of_eq hnew.rows)
  obtain ⟨s₂, hfeeds₂, hframe₂, hshows⟩ : ∃ s₂, Feeds s (diffBody old new) s₂ ∧ Frame s₁ s₂ ∧
      ShowsAll new.cols s₂.grid new.rows := by
    unfold diffBody
    split
    · next scroll hscroll =>
        have hdetected := detectScroll_spec hlen hnew.rows hscroll
        obtain ⟨s₂, hfeeds₂, hframe₂, hshows⟩ :=
          scroll_feeds hgrid₁ hdetected hcols₁ hrows₁ hfull₁ hnew
        have htakeShifted : (shiftRows old.rows scroll new).take new.rowsCount
            = shiftRows old.rows scroll new := List.take_of_length_le (by simp [shiftRows, hlen])
        refine ⟨s₂, ?_, hframe₂, hshows⟩
        simp only [htakeShifted, htakeNew, ← hy, List.append_assoc]
        exact hchanges.append hfeeds₂
    · obtain ⟨s₂, below, hfeeds₂, hframe₂, hgrid₂, hshows⟩ :=
        @rows_feeds _ _ _ _ _ [] _ rfl hcols₁ (hfull₁.grid) hgrid₁ (by rw [hnew.rows, hlen])
          hnew.sound
      refine ⟨s₂, ?_, hframe₂, hgrid₂ ▸ hshows⟩
      simp only [htakeOld, htakeNew]
      exact hchanges.append hfeeds₂
  have hlength : s₂.grid.length = s₂.rows := by
    rw [hshows.length_eq, hnew.rows, hframe₂.rows, hrows₁]
  refine ⟨s₂, hfeeds₂, hframe₂, ⟨hlength, ?_, ?_⟩, hshows⟩
  · rw [hframe₂.top, hfull₁.top]
  · rw [hframe₂.bottom, hfull₁.bottom, hframe₂.rows]

/-- A terminal that has the cells and the cursor of the old snapshot is brought
to have those of the new one. -/
theorem diff_drawn (hold : Drawn s old) (hnew : Drawable new) (hcols : old.cols = new.cols)
    (hrows : old.rowsCount = new.rowsCount) (hchanges : Feeds s (stateChanges (some old) new) s₁)
    (hrest : s₁ = { s with modes := s₁.modes, title := s₁.title })
    (hvisible : s₁.modes 25 = s.modes 25) :
    ∃ s', Feeds s (diff old new) s' ∧ Drawn s' new ∧
      s'.modes 25 = (if old.cursorVisible = new.cursorVisible then s.modes 25
        else new.cursorVisible) ∧
      (Announced s₁ new → Announced s' new) := by
  obtain ⟨s₂, hfeeds, hframe, hfull, hgrid⟩ := diffBody_feeds hold hnew hcols hrows hchanges hrest
  have hcols₂ : s₂.cols = new.cols := by rw [hframe.cols, hrest, ← hcols, ← hold.cols]
  have hrows₂ : s₂.rows = new.rowsCount := by rw [hframe.rows, hrest, ← hrows, ← hold.rows]
  -- the cursor, which has not moved when nothing was written
  obtain ⟨s₃, hfeeds₃, hframe₃, hgrid₃, hx, hy⟩ : ∃ s₃,
      Feeds s₂ (if diffBody old new ≠ [] ∨ old.cursorY ≠ new.cursorY ∨ old.cursorX ≠ new.cursorX
        then cup (new.cursorY + 1) (new.cursorX + 1) else []) s₃ ∧ Frame s₂ s₃ ∧
        s₃.grid = s₂.grid ∧ s₃.x = new.cursorX ∧ s₃.y = new.cursorY := by
    split
    · exact ⟨_, feeds_cup (hrows₂ ▸ hnew.cursorY) (hcols₂ ▸ hnew.cursorX),
        ⟨rfl, rfl, rfl, rfl, rfl, rfl⟩, rfl, rfl, rfl⟩
    · next hstill =>
        push Not at hstill
        obtain ⟨hnil, hy, hx⟩ := hstill
        rw [hnil] at hfeeds
        have hsame : s₂ = s := (congrArg Terminal.screen hfeeds).symm
        exact ⟨s₂, Feeds.nil, .refl s₂, rfl, by rw [hsame, hold.x, hx], by rw [hsame, hold.y, hy]⟩
  have hdrawn : Drawn s₃ new := by
    refine ⟨hframe₃.cols.trans hcols₂, hframe₃.rows.trans hrows₂, hgrid₃ ▸ hgrid, hx, hy,
      ?_, ?_, ?_⟩
    · exact (congrArg List.length hgrid₃).trans (hfull.grid.trans hframe₃.rows.symm)
    · exact hframe₃.top.trans hfull.top
    · exact hframe₃.bottom.trans (hfull.bottom.trans (congrArg (· - 1) hframe₃.rows.symm))
  have hmodes : s₃.modes 25 = s.modes 25 := by rw [hframe₃.modes, hframe.modes, hvisible]
  have hannounced : Announced s₁ new → Announced s₃ new := fun h =>
    (h.frame hframe).frame hframe₃
  unfold diff
  rw [if_neg (by simp [hcols, hrows])]
  by_cases hsame : old.cursorVisible = new.cursorVisible
  · refine ⟨s₃, ?_, hdrawn, by rw [if_pos hsame, hmodes], hannounced⟩
    simpa [hsame] using hfeeds.append hfeeds₃
  · refine ⟨s₃.setMode new.cursorVisible 25, ?_, hdrawn.setMode _ _, ?_,
      fun h => (hannounced h).setVisible _⟩
    · simp only [ne_eq, hsame, not_false_eq_true, if_true]
      exact (hfeeds.append hfeeds₃).append (feeds_mode 25 new.cursorVisible)
    · rw [if_neg hsame]
      rfl

/-- A terminal that shows the old snapshot is brought to show the new one. What is
announced comes first and touches no cell; what is drawn afterwards changes
neither title nor modes. -/
theorem diff_feeds (hold : Painted s old) (hnew : Drawable new) (hcols : old.cols = new.cols)
    (hrows : old.rowsCount = new.rowsCount) :
    ∃ s', Feeds s (diff old new) s' ∧ Painted s' new ∧
      s'.modes 25 = if old.cursorVisible = new.cursorVisible then s.modes 25
        else new.cursorVisible := by
  obtain ⟨s₁, hchanges, hannounced, hrest, hvisible⟩ :=
    stateChanges_feeds hold.announced hnew.title
  obtain ⟨s', hfeeds, hdrawn, hvisible', hannounced'⟩ :=
    diff_drawn hold.drawn hnew hcols hrows hchanges hrest hvisible
  exact ⟨s', hfeeds, hdrawn.painted (hannounced' hannounced), hvisible'⟩

end DisplayDiff

end Morsh
