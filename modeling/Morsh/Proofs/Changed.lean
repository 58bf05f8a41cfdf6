import Morsh.Statesync.Complete
import Morsh.Statesync.Wire
import Morsh.Terminal.Vt

/-!
# When a diff is empty

Each of the emitters is silent exactly when the fields it looks at are as they
were. Together they look at every field of a snapshot but the default colors
and the palette, so a state that differs in nothing else has an empty diff.

There is one lemma for each emitter, by the condition it compares; a diff is
their outputs put together, so it is empty when each of them is. `sameBut` is
equality in the fields that are compared, and two snapshots are equal if they
agree in those and in the colors. The message around the diff adds the echo ack
and the size, and no bytes are only those of the message that says nothing.

All of this needs that a screen has as many rows as it says. `Framed` is that
condition, and every operation on a state establishes it or keeps it.
-/

namespace Morsh

variable {old new : ScreenSnapshot}

theorem csi_ne_nil (params : List Nat) (final : Char) : csi params final ≠ [] := by
  simp [csi]

theorem mode_ne_nil (number : Nat) (on : Bool) : mode number on ≠ [] := by
  simp [mode]

namespace DisplayDiff

theorem titleChange_eq_nil : titleChange (some old) new = [] ↔ old.title = new.title := by
  unfold titleChange
  by_cases h : old.title = new.title
  · simp [h]
  · simp [h, title]

theorem modeChange_eq_nil {number : Nat} {field : ScreenSnapshot → Bool} :
    modeChange number field (some old) new = [] ↔ field old = field new := by
  unfold modeChange
  by_cases h : field old = field new
  · simp [h]
  · simp [h, mode]

theorem mouseReportingChange_eq_nil :
    mouseReportingChange (some old) new = [] ↔ old.mouseReporting = new.mouseReporting := by
  unfold mouseReportingChange
  by_cases h : old.mouseReporting = new.mouseReporting
  · simp [h]
  · generalize new.mouseReporting = m at h
    cases m <;> simp [h, mode]

theorem mouseEncodingChange_eq_nil :
    mouseEncodingChange (some old) new = [] ↔ old.mouseEncoding = new.mouseEncoding := by
  unfold mouseEncodingChange
  by_cases h : old.mouseEncoding = new.mouseEncoding
  · simp [h]
  · generalize new.mouseEncoding = e at h
    cases e <;> simp [h, mode]

theorem diffRows_eq_nil {cols y : Nat} {pairs : List (List CellData × List CellData)} :
    diffRows cols y pairs = [] ↔ ∀ p ∈ pairs, p.1 = p.2 := by
  induction pairs generalizing y with
  | nil => simp [diffRows]
  | cons p pairs ih =>
      obtain ⟨oldRow, newRow⟩ := p
      simp only [diffRows, List.append_eq_nil_iff, ih, List.forall_mem_cons, diffOneRow]
      by_cases h : oldRow = newRow
      · simp [h]
      · simp [h, csi_ne_nil]

theorem detectScroll_self : detectScroll new.rows new = none := by
  simp only [detectScroll]
  by_cases h : new.rowsCount = 0 ∨ new.rows.length < new.rowsCount
  · rw [if_pos h]
  · rw [if_neg h]
    cases hrows : new.rows with
    | nil => rfl
    | cons top rest =>
        obtain ⟨n, hn⟩ : ∃ n, new.rowsCount = n + 1 := ⟨new.rowsCount - 1, by omega⟩
        simp [hn, findTop]

theorem emitScroll_ne_nil {scroll : Scroll} {oldCursorY : Nat} :
    emitScroll scroll new oldCursorY ≠ [] := by
  simp [emitScroll, csi_ne_nil]

theorem fullRedraw_ne_nil : fullRedraw new ≠ [] := by
  simp [fullRedraw, mode_ne_nil]

/-- What `state_changes` compares. -/
structure SameState (old new : ScreenSnapshot) : Prop where
  title : old.title = new.title
  bracketedPaste : old.bracketedPaste = new.bracketedPaste
  mouseFocusEvent : old.mouseFocusEvent = new.mouseFocusEvent
  mouseAlternateScroll : old.mouseAlternateScroll = new.mouseAlternateScroll
  mouseReporting : old.mouseReporting = new.mouseReporting
  mouseEncoding : old.mouseEncoding = new.mouseEncoding

theorem stateChanges_eq_nil : stateChanges (some old) new = [] ↔ SameState old new := by
  simp only [stateChanges, List.append_eq_nil_iff, titleChange_eq_nil, modeChange_eq_nil,
    mouseReportingChange_eq_nil, mouseEncodingChange_eq_nil]
  constructor
  · rintro ⟨⟨⟨⟨⟨h1, h2⟩, h3⟩, h4⟩, h5⟩, h6⟩
    exact ⟨h1, h2, h3, h4, h5, h6⟩
  · rintro ⟨h1, h2, h3, h4, h5, h6⟩
    exact ⟨⟨⟨⟨⟨h1, h2⟩, h3⟩, h4⟩, h5⟩, h6⟩

theorem diffBody_eq_nil (hold : old.rows.length = new.rowsCount)
    (hnew : new.rows.length = new.rowsCount) :
    diffBody old new = [] ↔ SameState old new ∧ old.rows = new.rows := by
  have htakeOld : old.rows.take new.rowsCount = old.rows := List.take_of_length_le (by omega)
  have htakeNew : new.rows.take new.rowsCount = new.rows := List.take_of_length_le (by omega)
  simp only [diffBody]
  split
  · next scroll hscroll =>
      -- a scroll is only detected on a frame that changed
      constructor
      · intro h
        simp [emitScroll_ne_nil] at h
      · rintro ⟨-, hrows⟩
        rw [hrows, detectScroll_self] at hscroll
        cases hscroll
  · rw [List.append_eq_nil_iff, stateChanges_eq_nil, htakeOld, htakeNew, diffRows_eq_nil]
    refine and_congr_right fun _ => ⟨fun h => ?_, fun h p hp => ?_⟩
    · refine List.ext_getElem (by omega) fun i hi hi' => ?_
      exact h (old.rows[i], new.rows[i]) (List.mem_iff_getElem.mpr
        ⟨i, by rw [List.length_zip]; omega, List.getElem_zip⟩)
    · obtain ⟨i, hi, rfl⟩ := List.mem_iff_getElem.mp hp
      simp [h]

/-- A diff is empty when nothing differs but the colors no emitter looks at. The
body is empty when every emitter is; after an empty body the cursor is written
only if it has moved, and its visibility only if it has changed. -/
theorem diff_eq_nil (hold : old.rows.length = old.rowsCount)
    (hnew : new.rows.length = new.rowsCount) :
    diff old new = [] ↔ { old with fg := new.fg, bg := new.bg, palette := new.palette } = new := by
  unfold diff
  by_cases hsize : old.cols = new.cols ∧ old.rowsCount = new.rowsCount
  · obtain ⟨hcols, hrows⟩ := hsize
    rw [if_neg (by simp [hcols, hrows])]
    simp only [List.append_eq_nil_iff, diffBody_eq_nil (hold.trans hrows) hnew]
    constructor
    · rintro ⟨⟨⟨hstate, hgrid⟩, hcursor⟩, hvisible⟩
      have hbody : diffBody old new = [] := (diffBody_eq_nil (hold.trans hrows) hnew).mpr
        ⟨hstate, hgrid⟩
      have hstill : ¬(diffBody old new ≠ [] ∨ old.cursorY ≠ new.cursorY ∨
          old.cursorX ≠ new.cursorX) := by
        intro hmoved
        rw [if_pos hmoved] at hcursor
        exact csi_ne_nil _ _ hcursor
      have hshown : old.cursorVisible = new.cursorVisible := by
        by_contra hne
        rw [if_pos hne] at hvisible
        exact mode_ne_nil _ _ hvisible
      push Not at hstill
      obtain ⟨-, hy, hx⟩ := hstill
      obtain ⟨htitle, hpaste, hfocus, halternate, hreporting, hencoding⟩ := hstate
      cases old
      cases new
      simp_all
    · intro h
      rw [← h]
      have hsame : SameState old
          { old with fg := new.fg, bg := new.bg, palette := new.palette } :=
        ⟨rfl, rfl, rfl, rfl, rfl, rfl⟩
      have hbody := (@diffBody_eq_nil old
        { old with fg := new.fg, bg := new.bg, palette := new.palette } hold hold).mpr
        ⟨hsame, rfl⟩
      simp [hsame, hbody]
  · rw [if_pos (by tauto)]
    refine ⟨fun h => absurd h fullRedraw_ne_nil, fun h => absurd ?_ hsize⟩
    rw [← h]
    exact ⟨rfl, rfl⟩

end DisplayDiff

/-- The default colors and the palette. -/
def ScreenSnapshot.colors (s : ScreenSnapshot) : RgbColor × RgbColor × List RgbColor :=
  (s.fg, s.bg, s.palette)

/-- Equal in every field but the colors. -/
def ScreenSnapshot.sameBut (old new : ScreenSnapshot) : Prop :=
  { old with fg := new.fg, bg := new.bg, palette := new.palette } = new

theorem ScreenSnapshot.eq_iff : old = new ↔ old.sameBut new ∧ old.colors = new.colors := by
  constructor
  · rintro rfl
    exact ⟨rfl, rfl⟩
  · rintro ⟨h, hcolors⟩
    simp only [colors, Prod.mk.injEq] at hcolors
    obtain ⟨hfg, hbg, hpalette⟩ := hcolors
    rw [← h, ← hfg, ← hbg, ← hpalette]

theorem MoshTerminal.snapshot_rows {T : Type} [Emulator T] {m : MoshTerminal T}
    {screen : ScreenSnapshot} (h : m.snapshot = .ok screen) :
    screen.rows.length = screen.rowsCount := by
  unfold MoshTerminal.snapshot at h
  cases hr : Emulator.render m.terminal with
  | error e => rw [hr] at h; cases h
  | ok r =>
      rw [hr] at h
      cases h
      simp only [List.length_append, List.length_replicate, List.length_take, List.length_map]
      omega

namespace Complete

variable {T : Type}

section Screens

variable [Emulator T]

/-- The screen of a state has the rows it says it has. -/
def Framed (c : Complete T) : Prop := c.screen.rows.length = c.screen.rowsCount

theorem framed_new {cols rows : Nat} {c : Complete T} (h : Complete.new cols rows = .ok c) :
    c.Framed := by
  unfold Complete.new at h
  cases hm : MoshTerminal.new (T := T) cols rows with
  | error e => rw [hm] at h; cases h
  | ok m =>
      rw [hm] at h
      cases hs : m.snapshot with
      | error e => simp only [Except.bind, hs] at h; cases h
      | ok screen =>
          simp only [Except.bind, hs] at h
          cases h
          exact MoshTerminal.snapshot_rows hs

theorem Framed.refresh {c : Complete T} (h : c.Framed) (m : MoshTerminal T) :
    (c.refresh m).Framed := by
  unfold Complete.refresh Framed
  cases hs : m.snapshot with
  | error e => exact h
  | ok screen => exact MoshTerminal.snapshot_rows hs

theorem Framed.act {c : Complete T} (h : c.Framed) (bytes : Bytes) : (c.act bytes).1.Framed := by
  unfold Complete.act
  split
  · exact h.refresh _
  · exact h

theorem Framed.resize {c : Complete T} (h : c.Framed) (cols rows : Nat) :
    (c.resize cols rows).1.Framed := by
  unfold Complete.resize
  split
  · exact h
  · split
    · exact h.refresh _
    · exact h

theorem Framed.applyInstruction {c c' : Complete T} {inst : HostInstruction} (h : c.Framed)
    (hc : c.applyInstruction inst = .ok c') : c'.Framed := by
  unfold Complete.applyInstruction at hc
  split at hc
  · split at hc
    · next bytes _ =>
        have hact := h.act bytes
        split at hc
        · next heq => cases hc; rw [heq] at hact; exact hact
        · cases hc
    · cases hc; exact h
  · split at hc
    · next resize _ =>
        have hresize := h.resize (clampSize (resize.width.getD 80))
          (clampSize (resize.height.getD 24))
        split at hc
        · next heq => cases hc; rw [heq] at hresize; exact hresize
        · cases hc
    · split at hc <;> cases hc <;> exact h

theorem Framed.applyInstructions {c c' : Complete T} {insts : List HostInstruction}
    (h : c.Framed) (hc : insts.foldlM Complete.applyInstruction c = .ok c') : c'.Framed := by
  induction insts generalizing c with
  | nil => cases hc; exact h
  | cons inst insts ih =>
      rw [List.foldlM_cons] at hc
      cases hinst : c.applyInstruction inst with
      | error e => rw [hinst] at hc; cases hc
      | ok c₁ =>
          rw [hinst] at hc
          exact ih (h.applyInstruction hinst) hc

end Screens

theorem diffMessage_eq_default {a b : Complete T} (ha : a.screen.rows.length = a.screen.rowsCount)
    (hb : b.screen.rows.length = b.screen.rowsCount) :
    diffMessage a b = default ↔ b.echoAck = a.echoAck ∧ b.screen.sameBut a.screen := by
  have hempty : (default : HostMessage) = ⟨[]⟩ := rfl
  simp only [hempty, diffMessage, HostMessage.mk.injEq, List.append_eq_nil_iff]
  refine and_congr ?_ ?_
  · by_cases h : b.echoAck = a.echoAck <;> simp [h]
  · rw [ScreenSnapshot.sameBut, ← DisplayDiff.diff_eq_nil hb ha]
    by_cases hsame : b.screen = a.screen
    · have hnil := (DisplayDiff.diff_eq_nil hb ha).mpr (by rw [hsame])
      simp [hsame, hsame ▸ hnil]
    · rw [if_pos hsame]
      constructor
      · intro h
        by_contra hne
        rw [if_pos hne] at h
        cases (List.append_eq_nil_iff.mp h).2
      · intro hnil
        -- a size change is never silent
        have hsize : ¬(b.screen.cols ≠ a.screen.cols ∨
            b.screen.rowsCount ≠ a.screen.rowsCount) := by
          intro hsize
          rw [DisplayDiff.diff, if_pos hsize] at hnil
          exact DisplayDiff.fullRedraw_ne_nil hnil
        rw [if_neg hsize, if_neg (not_not.mpr hnil)]
        rfl

section

variable [Emulator T] [ProstMessage HostMessage]

/-- The diff is empty exactly on equal states, but for states that differ in
their default colors or palettes and in nothing else: their diff is empty. -/
theorem diff_empty_iff_equal (a b : Complete T)
    (ha : a.screen.rows.length = a.screen.rowsCount)
    (hb : b.screen.rows.length = b.screen.rowsCount) :
    (State.diffFrom a b = [] ↔ State.stateEqual a b = true) ↔
      (a.echoAck = b.echoAck → b.screen.sameBut a.screen →
        b.screen.colors = a.screen.colors) := by
  have hdiff : State.diffFrom a b = [] ↔ b.echoAck = a.echoAck ∧ b.screen.sameBut a.screen := by
    rw [← diffMessage_eq_default ha hb]
    constructor
    · exact ProstMessage.eq_default_of_encode
    · intro h
      exact (congrArg ProstMessage.encode h).trans ProstMessage.encode_default
  have hequal : State.stateEqual a b = true ↔ a.echoAck = b.echoAck ∧ a.screen = b.screen := by
    simp [State.stateEqual]
  rw [hdiff, hequal, eq_comm (a := a.screen), ScreenSnapshot.eq_iff, eq_comm (a := b.echoAck)]
  tauto

end

/-! ## A state that differs in its colors -/

/-- A blank screen. -/
def plain : Complete VtTerminal := ⟨none, .new 2 1, 0, []⟩

/-- The same screen, its default foreground set to green. -/
def recolored : Complete VtTerminal :=
  { plain with screen := { plain.screen with fg := ⟨0, 255, 0⟩ } }

/-- It is not equal, and its diff is empty. -/
theorem recolored_silent :
    ¬∀ a b : Complete VtTerminal, a.screen.rows.length = a.screen.rowsCount →
      b.screen.rows.length = b.screen.rowsCount →
      (State.diffFrom a b = [] ↔ State.stateEqual a b = true) := by
  intro h
  exact absurd (h recolored plain rfl rfl) (by decide +kernel)

/-- The same screen under a title, and an echo ack. -/
def titled : Complete VtTerminal :=
  { plain with screen := { plain.screen with title := "vi".toList }, echoAck := 3 }

/-- They differ, and so there is a diff. -/
theorem diff_empty_iff_equal_plain :
    State.stateEqual titled plain = false ∧ State.diffFrom titled plain ≠ [] ∧
      (State.diffFrom titled plain = [] ↔ State.stateEqual titled plain = true) := by
  have hequal : State.stateEqual titled plain = false := by decide +kernel
  have hiff : State.diffFrom titled plain = [] ↔ State.stateEqual titled plain = true :=
    (diff_empty_iff_equal titled plain rfl rfl).mpr fun hecho _ => absurd hecho (by decide)
  exact ⟨hequal, fun hdiff => Bool.eq_false_iff.mp hequal (hiff.mp hdiff), hiff⟩

end Complete

end Morsh
