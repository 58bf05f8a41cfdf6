import Mathlib.Data.List.Forall2
import Morsh.Proofs.DiffRow

/-!
# Scrolling

What `detectScroll` found is there, and what is written for it moves the
terminal's rows the way `shiftRows` moves the old ones.

Detection is a search: the topmost old row that equals the first new one, and how
many rows below it match. What it returns says that the new rows, as far as it
accounts for them, are old rows further down. On the terminal a region is set
from the top to the bottom of the rows that move, the cursor is put on its last
line and line feeds scroll it; rows that come in are blank, as `shiftRows` has
them. The region is the whole screen before and after.
-/

namespace Morsh

open Vt

namespace DisplayDiff

/-! ## Detection -/

theorem findTop_spec {top : List CellData} {rows : List (List CellData)} {row n : Nat}
    (h : findTop top rows row = some n) : ∃ k, n = row + k ∧ rows[k]? = some top := by
  induction rows generalizing row with
  | nil => cases h
  | cons old rest ih =>
      unfold findTop at h
      split at h
      · next heq =>
          cases h
          exact ⟨0, rfl, by rw [heq]; rfl⟩
      · obtain ⟨k, rfl, hk⟩ := ih h
        exact ⟨k + 1, by omega, hk⟩

theorem matchingRows_spec (newRows oldRows : List (List CellData)) :
    matchingRows newRows oldRows ≤ oldRows.length ∧
      newRows.take (matchingRows newRows oldRows)
        = oldRows.take (matchingRows newRows oldRows) := by
  unfold matchingRows
  induction newRows generalizing oldRows with
  | nil => simp
  | cons a newRows ih =>
      cases oldRows with
      | nil => simp
      | cons b oldRows =>
          obtain ⟨hle, htake⟩ := ih oldRows
          by_cases hab : a = b
          · simp [hab, htake, hle]
          · simp [hab]

variable {oldRows : List (List CellData)} {new : ScreenSnapshot} {scroll : Scroll}

/-- The rows the scroll accounts for are the old ones, further down. -/
structure Detected (oldRows : List (List CellData)) (new : ScreenSnapshot) (scroll : Scroll) :
    Prop where
  lines : 0 < scroll.lines
  height : 0 < scroll.height
  fits : scroll.lines + scroll.height ≤ new.rowsCount
  moved : (oldRows.drop scroll.lines).take scroll.height = new.rows.take scroll.height

theorem detectScroll_spec (hold : oldRows.length = new.rowsCount)
    (hnew : new.rows.length = new.rowsCount) (h : detectScroll oldRows new = some scroll) :
    Detected oldRows new scroll := by
  unfold detectScroll at h
  simp only [← hold, List.take_length] at h
  rw [hold, ← hnew, List.take_length] at h
  split at h
  · cases h
  split at h
  · cases h
  · cases h
  · next lines hzero hfound =>
      cases h
      obtain ⟨top, hhead, hfind⟩ := Option.bind_eq_some_iff.mp hfound
      obtain ⟨k, hk, hget⟩ := findTop_spec hfind
      obtain ⟨rest, hrows⟩ : ∃ rest, new.rows = top :: rest := by
        cases hrows : new.rows with
        | nil => rw [hrows] at hhead; cases hhead
        | cons first rest => rw [hrows] at hhead; cases hhead; exact ⟨rest, rfl⟩
      rw [Nat.zero_add] at hk
      rw [← hk] at hget
      obtain ⟨hlt, rfl⟩ := List.getElem?_eq_some_iff.mp hget
      obtain ⟨hle, hmatch⟩ := matchingRows_spec rest (oldRows.drop (lines + 1))
      rw [List.length_drop] at hle
      have hlines : lines ≠ 0 := fun h0 => hzero (h0 ▸ rfl)
      rw [hrows, List.drop_one, List.tail_cons]
      refine ⟨by simp only; omega, by simp only; omega, by simp only; omega, ?_⟩
      simp only
      rw [hrows, List.drop_eq_getElem_cons hlt, Nat.add_comm, List.take_succ_cons,
        List.take_succ_cons, hmatch]

variable {cols : Nat}

/-- The region the scroll moves, and the rows that come in below. -/
theorem shiftRows_eq (hfits : scroll.lines + scroll.height ≤ oldRows.length)
    (hheight : 0 < scroll.height) :
    shiftRows oldRows scroll new
      = (oldRows.take (scroll.lines + scroll.height) ++
          List.replicate scroll.lines (List.replicate new.cols CellData.empty)).drop scroll.lines ++
        oldRows.drop (scroll.lines + scroll.height) := by
  have hbottom : ∀ j, j ≤ scroll.lines + scroll.height - 1 ↔ j < scroll.lines + scroll.height := by
    omega
  refine List.ext_getElem? fun i => ?_
  simp only [shiftRows, List.getElem?_mapIdx, List.getElem?_append, List.getElem?_drop,
    List.getElem?_take, List.getElem?_replicate, List.length_drop, List.length_append,
    List.length_take, List.length_replicate, Nat.min_eq_left hfits, Nat.add_sub_cancel, hbottom]
  by_cases hregion : i < scroll.lines + scroll.height
  · have hold : oldRows[i]? = some oldRows[i] := List.getElem?_eq_getElem (by omega)
    simp only [hold, Option.map_some, if_pos hregion, Nat.add_comm i scroll.lines]
    by_cases hmoved : scroll.lines + i < scroll.lines + scroll.height
    · have hget : oldRows[scroll.lines + i]? = some oldRows[scroll.lines + i] :=
        List.getElem?_eq_getElem (by omega)
      simp only [if_pos hmoved, hget, List.getD_eq_getElem?_getD, Option.getD_some]
    · have hblank : scroll.lines + i - (scroll.lines + scroll.height) < scroll.lines := by omega
      simp only [if_neg hmoved, if_pos hblank]
  · have hbelow : scroll.lines + scroll.height + (i - (scroll.lines + scroll.height)) = i := by
      omega
    simp only [if_neg hregion, hbelow]
    exact Option.map_id'

theorem Detected.take_shiftRows (h : Detected oldRows new scroll)
    (hold : oldRows.length = new.rowsCount) :
    (shiftRows oldRows scroll new).take scroll.height = new.rows.take scroll.height := by
  have hfits : scroll.lines + scroll.height ≤ oldRows.length := hold ▸ h.fits
  have hlen : (oldRows.take (scroll.lines + scroll.height)).length
      = scroll.lines + scroll.height := by simp [hfits]
  rw [shiftRows_eq hfits h.height, List.drop_append_of_le_length (by omega), List.append_assoc,
    List.take_append_of_le_length (by simp [hlen]), List.drop_take, Nat.add_sub_cancel_left,
    List.take_take, Nat.min_self, h.moved]

/-! ## The terminal's side -/

variable [CharWidth] {s : Screen CellStyle}

omit [CharWidth] in
/-- A row of blanks shows a blank row. -/
theorem shows_blank (cols : Nat) :
    Shows cols (List.replicate cols (Cell.blank CellStyle.defaultStyle))
      (List.replicate cols CellData.empty) := by
  have hnarrow : ∀ {x : Nat} {c : Cell CellStyle},
      (List.replicate cols (Cell.blank CellStyle.defaultStyle))[x]? = some c →
        c.kind = .narrow := by
    intro x c hc
    rw [List.getElem?_replicate] at hc
    split at hc
    · cases hc
      rfl
    · cases hc
  refine ⟨List.length_replicate, ⟨fun hc hk => ?_, fun hc hk => ?_⟩, fun {x c} hc _ => ?_⟩
  · rw [hnarrow hc] at hk
    cases hk
  · rw [hnarrow hc] at hk
    cases hk
  · rw [List.getElem?_replicate] at hc ⊢
    split at hc
    · next hx =>
        cases hc
        rw [if_pos hx]
        rfl
    · cases hc

/-- A screen whose scrolling region is all of it. -/
structure Fullscreen (s : Screen CellStyle) : Prop where
  grid : s.grid.length = s.rows
  top : s.top = 0
  bottom : s.bottom = s.rows - 1

/-- What is written for a scroll does it. With the cursor on the last line of a
region that is the whole screen, line feeds are enough; else the region is set for
them, and reset. -/
theorem emitScroll_feeds {oldCursorY : Nat} (hscroll : Detected oldRows new scroll)
    (hrows : s.rows = new.rowsCount) (hfull : Fullscreen s) (hy : s.y = oldCursorY) :
    ∃ s', Feeds s (emitScroll scroll new oldCursorY) s' ∧ Frame s s' ∧
      s'.grid = (s.grid.take (scroll.lines + scroll.height) ++
          List.replicate scroll.lines
            (List.replicate s.cols (Cell.blank CellStyle.defaultStyle))).drop scroll.lines ++
        s.grid.drop (scroll.lines + scroll.height) := by
  obtain ⟨hlines, hheight, hfits, -⟩ := hscroll
  obtain ⟨hgrid, htop, hbottom⟩ := hfull
  obtain ⟨bottom, hbot⟩ : ∃ bottom, scroll.lines + scroll.height = bottom + 1 :=
    ⟨scroll.lines + scroll.height - 1, by omega⟩
  have hsplit := (List.take_append_drop (bottom + 1) s.grid).symm
  have hregion : (s.grid.take (bottom + 1)).length = bottom + 1 := by
    rw [List.length_take]
    omega
  have hreset : Feeds s (csi [0] 'm') { s with pen := .defaultStyle } :=
    feeds_csi (by decide) [0]
  simp only [emitScroll, hbot, Nat.add_sub_cancel]
  by_cases hlast : bottom + 1 = new.rowsCount ∧ oldCursorY + 1 = new.rowsCount
  · -- the cursor is on the last line, and the region is the whole screen
    rw [if_pos hlast]
    have hreturn : Feeds ({ s with pen := .defaultStyle } : Screen CellStyle) ['\r']
        { s with pen := .defaultStyle, x := 0, pendingWrap := false } := Feeds.carriageReturn
    have hfeeds := Feeds.lineFeeds
      (s := { s with pen := .defaultStyle, x := 0, pendingWrap := false })
      scroll.lines hsplit htop (by simp only [hregion]; omega) (by simp only; omega) rfl
    exact ⟨_, hreset.append (hreturn.cons hfeeds), ⟨rfl, rfl, rfl, rfl, rfl, rfl⟩, rfl⟩
  · rw [if_neg hlast]
    -- the region is set, scrolled from its last line, and set back
    let region : Screen CellStyle :=
      { s with pen := .defaultStyle, top := 0, bottom := bottom, x := 0, y := bottom,
               pendingWrap := false }
    have hmargins : Feeds ({ s with pen := .defaultStyle } : Screen CellStyle)
        (csi [1, bottom + 1] 'r') { region with y := 0 } := by
      have h := feeds_csi (s := { s with pen := .defaultStyle }) (f := 'r') (by decide)
        [1, bottom + 1]
      have hinside : 1 < bottom + 1 ∧ bottom + 1 ≤ s.rows := by omega
      simpa [Screen.dispatch, Screen.setMargins, hinside] using h
    have hcup : Feeds ({ region with y := 0 } : Screen CellStyle) (cup (bottom + 1) 1) region := by
      have h := feeds_csi (s := { region with y := 0 }) (f := 'H') (by decide) [bottom + 1, 1]
      have hlast : min bottom (s.rows - 1) = bottom := by omega
      simpa [cup, Screen.dispatch, Screen.cursorPosition, region, hlast] using h
    have hfeeds := Feeds.lineFeeds (s := region) scroll.lines hsplit rfl hregion rfl rfl
    have hback := feeds_csi (s := { region with
      grid := (s.grid.take (bottom + 1) ++ List.replicate scroll.lines region.blankRow).drop
        scroll.lines ++ s.grid.drop (bottom + 1) }) (f := 'r') (by decide) []
    have hinside : 1 < s.rows := by omega
    refine ⟨_, hreset.append (((hmargins.append hcup).append hfeeds).append hback), ?_, ?_⟩
    · constructor <;> simp [Screen.dispatch, Screen.setMargins, region, hinside, htop, hbottom]
    · simp [Screen.dispatch, Screen.setMargins, region, hinside]
      rfl

end DisplayDiff

end Morsh
