import Morsh.Client.Loop
import Morsh.Proofs.Dimensions
import Morsh.Proofs.LineEditing

/-!
# When the predictor stays in range

Every row of the overlay is as long as the screen the engine remembers is wide,
and a key brings that up to the screen it is typed on. So the only index left
to go out of range is the cursor the caller hands in, and only a byte that is
inserted looks there.

Out of range is a `none`, so the proof goes through every operation twice: where
the rows are as long as the screen is wide it returns, and where the cursor is
right of the screen the insertion is the one that does not. `Fits` is the
invariant of the engine, for the width it remembers. A key first brings the
engine to the screen it is typed on, so afterwards it fits that screen whatever
it fitted before. The condition is then pushed up from a byte to a chunk, an
event, a turn of the loop and a run; at each level a step completes exactly if
the bytes typed in it are within the screen, and leaves an engine that fits.
-/

namespace Morsh

namespace Overlay

variable {o : Overlay} {rowNum n epoch now : Nat} {f : OverlayRow → Option OverlayRow}
  {fresh : OverlayRow} {rows : List OverlayRow}

/-- A row that cannot be changed is a panic, wherever it is. -/
theorem updateRows_none (horder : Ordered rows)
    (hrow : f ((find rowNum rows).getD fresh) = none) : updateRows rowNum fresh f rows = none := by
  induction rows with
  | nil =>
      have hfresh : f fresh = none := hrow
      rw [updateRows, hfresh]
      rfl
  | cons r rest ih =>
      obtain ⟨hafter, hrest⟩ := List.pairwise_cons.mp horder
      rw [find_cons] at hrow
      rw [updateRows]
      by_cases heq : r.rowNum = rowNum
      · rw [if_pos heq] at hrow
        have hrow : f r = none := hrow
        rw [if_pos heq, hrow]
        rfl
      · rw [if_neg heq] at hrow
        rw [if_neg heq]
        by_cases hlt : rowNum < r.rowNum
        · rw [find_none fun s hs => Nat.lt_trans hlt (hafter s hs)] at hrow
          have hfresh : f fresh = none := hrow
          rw [if_pos hlt, hfresh]
          rfl
        · rw [if_neg hlt, ih hrest hrow]
          rfl

theorem Wide.updateRow_none (h : o.Wide n) (hrow : f (o.current rowNum n epoch now) = none) :
    o.updateRow rowNum n epoch now f = none := by
  rw [Overlay.updateRow, updateRows_none h.order hrow]
  rfl

variable (rowNum epoch now) in
theorem Wide.updateRow_total (h : o.Wide n)
    (hf : ∀ r, r.cells.length = n →
      ∃ row, f r = some row ∧ row.rowNum = r.rowNum ∧ row.cells.length = n) :
    ∃ o', o.updateRow rowNum n epoch now f = some o' ∧ o'.Wide n := by
  obtain ⟨hnum, hlen, -⟩ := h.current rowNum epoch now fun _ _ => ' '
  obtain ⟨row, hrow, hnum', hlen'⟩ := hf _ hlen
  obtain ⟨o', ho', hwide, -⟩ := h.updateRow f hrow (hnum'.trans hnum) hlen' fun _ _ => ' '
  exact ⟨o', ho', hwide⟩

end Overlay

namespace OverlayRow

variable {row : OverlayRow} {c n epoch frame now : Nat}

variable (epoch frame now) in
theorem insert_total (hlen : row.cells.length = n) (hc : c < n) (ch : Char)
    (cellAt : Nat → Char) :
    ∃ row', row.insert ch c (n - 1) n epoch frame now cellAt = some row' ∧
      row'.rowNum = row.rowNum ∧ row'.cells.length = n := by
  have hfit : n - 1 ≤ row.cells.length ∧ (c < n - 1 → n - 1 < row.cells.length) ∧
      c < row.cells.length := by omega
  exact ⟨_, if_pos hfit, rfl, by rw [List.length_mapIdx, hlen]⟩

variable (epoch frame now) in
theorem insert_none (hlen : row.cells.length = n) (hc : n ≤ c) (ch : Char)
    (cellAt : Nat → Char) : row.insert ch c (n - 1) n epoch frame now cellAt = none :=
  if_neg fun h => Nat.not_lt.mpr hc (hlen ▸ h.2.2)

variable (c epoch frame now) in
theorem shiftLeft_total (hlen : row.cells.length = n) (cellAt : Nat → Char) :
    ∃ row', row.shiftLeft c n epoch frame now cellAt = some row' ∧
      row'.rowNum = row.rowNum ∧ row'.cells.length = n :=
  ⟨_, if_pos ⟨fun _ => Nat.le_of_eq hlen.symm, fun _ => Nat.le_of_eq hlen.symm⟩, rfl,
    by rw [List.length_mapIdx, hlen]⟩

end OverlayRow

namespace PredictionEngine

variable {p p' : PredictionEngine} {ch : Char} {row c n numRows now : Nat}
  {cellAt : Nat → Nat → Char}

/-- The predictor of a screen `n` columns wide. -/
structure Fits (p : PredictionEngine) (n : Nat) : Prop where
  overwrite : p.predictOverwrite = false
  width : p.lastWidth = n
  wide : p.overlay.Wide n

/-- The byte is inserted right of the screen. -/
def Beyond (p : PredictionEngine) (ch : Char) (cursorCol numCols : Nat) : Prop :=
  p.inputState = .ground ∧ (isAsciiGraphic ch = true ∨ ch = ' ') ∧ numCols ≤ cursorCol

theorem Fits.of_same (h : Fits p n) (hsame : SameModes p p') (hoverlay : p'.overlay = p.overlay) :
    Fits p' n where
  overwrite := hsame.overwrite.trans h.overwrite
  width := hsame.width.trans h.width
  wide := hoverlay ▸ h.wide

theorem wide_new : Overlay.new.Wide n := ⟨.nil, fun _ hr => absurd hr List.not_mem_nil⟩

theorem Fits.reset (h : Fits p n) : Fits p.reset n := ⟨h.overwrite, h.width, wide_new⟩

variable (row c n numRows) in
/-- Whatever the screen was, a key finds the predictor of the screen it is
typed on. -/
theorem Fits.prepare {m : Nat} (h : Fits p m) (hpref : p.displayPreference ≠ .never) :
    Fits (p.prepare row c n numRows) n := by
  obtain ⟨hsame, hoverlay⟩ := prepare_same row c n numRows hpref
  refine ⟨hsame.overwrite.trans h.overwrite, hsame.width, ?_⟩
  rw [hoverlay]
  refine prune_wide ?_
  unfold sized
  split
  · exact wide_new
  · next hsize =>
      rw [not_or, not_not, not_not] at hsize
      exact hsize.2 ▸ h.width ▸ h.wide

/-! ## The byte -/

variable (row numRows now) in
theorem Fits.newlineCarriageReturn (h : Fits p n) :
    ∃ p', p.newlineCarriageReturn row n numRows now = some p' ∧ Fits p' n := by
  unfold PredictionEngine.newlineCarriageReturn
  dsimp only
  split
  · obtain ⟨o', ho', hwide⟩ := h.wide.updateRow_total (f := fun row =>
      some (row.blank p.predictionEpoch (p.localFrameSent + 1) now)) row p.predictionEpoch now
      fun r hlen => ⟨_, rfl, rfl, by rw [OverlayRow.blank, List.length_map, hlen]⟩
    rw [ho']
    exact ⟨_, rfl, h.overwrite, h.width, hwide⟩
  · exact ⟨_, rfl, h.overwrite, h.width, h.wide⟩

variable (row c now cellAt) in
theorem Fits.predictBackspace (h : Fits p n) :
    ∃ p', p.predictBackspace row c n now cellAt = some p' ∧ Fits p' n := by
  unfold PredictionEngine.predictBackspace
  split
  · exact ⟨p, rfl, h⟩
  · dsimp only
    obtain ⟨o', ho', hwide⟩ := h.wide.updateRow_total
      (f := fun r => r.shiftLeft (c - 1) n p.predictionEpoch (p.localFrameSent + 1) now
        (cellAt row))
      row p.predictionEpoch now fun r hlen => OverlayRow.shiftLeft_total _ _ _ _ hlen _
    rw [h.overwrite]
    simp only [Bool.false_eq_true, if_false, ho']
    exact ⟨_, rfl, rfl, h.width, hwide⟩

theorem Fits.typing (h : Fits p n) (input : InputState) :
    Fits { p with inputState := input } n := ⟨h.overwrite, h.width, h.wide⟩

theorem Fits.predictCursorKey (h : Fits p n) (ch : Char) (numCols : Nat) :
    Fits (p.predictCursorKey ch numCols) n := by
  unfold PredictionEngine.predictCursorKey
  dsimp only
  split
  · split
    · exact ⟨h.overwrite, h.width, h.wide⟩
    · exact h
  · split
    · exact ⟨h.overwrite, h.width, h.wide⟩
    · exact h
  · exact ⟨h.overwrite, h.width, h.wide⟩

theorem Fits.tentative (h : Fits p n) (q : PredictionEngine)
    (hq : q = if c + 1 ≥ n then p.becomeTentative else p) : Fits q n := by
  subst hq
  split
  · exact ⟨h.overwrite, h.width, h.wide⟩
  · exact h

variable (ch row numRows now cellAt) in
theorem Fits.predictInsert (h : Fits p n) (hc : c < n) :
    ∃ p', p.predictInsert ch row c n numRows now cellAt = some p' ∧ Fits p' n := by
  unfold PredictionEngine.predictInsert
  dsimp only
  generalize hq : (if c + 1 ≥ n then p.becomeTentative else p) = q
  have hfits : Fits q n := h.tentative q hq.symm
  have hpos : ¬ (!q.predictOverwrite && decide (n = 0)) = true := by
    simp only [hfits.overwrite, Bool.not_false, Bool.true_and, decide_eq_true_eq]
    omega
  obtain ⟨o', ho', hwide⟩ := hfits.wide.updateRow_total
    (f := fun r => r.insert ch c (n - 1) n q.predictionEpoch (q.localFrameSent + 1) now
      (cellAt row))
    row q.predictionEpoch now fun r hlen => OverlayRow.insert_total _ _ _ hlen hc ch _
  rw [if_neg hpos, hfits.overwrite, if_neg Bool.false_ne_true, ho', Option.bind_some]
  split
  · exact ⟨_, rfl, rfl, hfits.width, hwide⟩
  · exact Fits.newlineCarriageReturn row numRows now ⟨rfl, hfits.width, hwide⟩

variable (ch row numRows now cellAt) in
theorem Fits.predictInsert_none (h : Fits p n) (hc : n ≤ c) :
    p.predictInsert ch row c n numRows now cellAt = none := by
  unfold PredictionEngine.predictInsert
  dsimp only
  generalize hq : (if c + 1 ≥ n then p.becomeTentative else p) = q
  have hfits : Fits q n := h.tentative q hq.symm
  split
  · rfl
  · obtain ⟨-, hlen, -⟩ := hfits.wide.current row q.predictionEpoch now cellAt
    rw [hfits.overwrite, if_neg Bool.false_ne_true, hfits.wide.updateRow_none
      (OverlayRow.insert_none _ _ _ hlen hc ch _), Option.bind_none]

variable (ch row c numRows now cellAt) in
/-- A key is predicted unless it is inserted right of the screen, and leaves
the predictor of that screen. -/
theorem Fits.dispatch (h : Fits p n) :
    (p.dispatch ch row c n numRows now cellAt = none ∧ Beyond p ch c n) ∨
    ∃ p', p.dispatch ch row c n numRows now cellAt = some p' ∧ Fits p' n ∧
      ¬ Beyond p ch c n := by
  have hsequence : p.inputState ≠ .ground → ¬ Beyond p ch c n := fun hinput hbeyond =>
    hinput hbeyond.1
  unfold PredictionEngine.dispatch
  split
  case h_1 hinput =>
    refine .inr ?_
    have hinside := hsequence (hinput ▸ nofun)
    split
    · exact ⟨_, rfl, h.typing .csi, hinside⟩
    · split
      · exact ⟨_, rfl, h.typing .ss3, hinside⟩
      · exact ⟨_, rfl, ⟨h.overwrite, h.width, h.wide⟩, hinside⟩
  case h_2 hinput =>
    refine .inr ?_
    have hinside := hsequence (hinput ▸ nofun)
    split
    · exact ⟨_, rfl, (h.typing .ground).predictCursorKey ch n, hinside⟩
    · exact ⟨_, rfl, h, hinside⟩
  case h_3 hinput =>
    have hinside := hsequence (hinput ▸ nofun)
    exact .inr ⟨_, rfl, (h.typing .ground).predictCursorKey ch n, hinside⟩
  case h_4 hinput =>
    split
    · next hesc =>
        subst hesc
        exact .inr ⟨_, rfl, h.typing .escape, fun ⟨_, hprint, _⟩ => by
          revert hprint; decide⟩
    · split
      · next hdel =>
          subst hdel
          obtain ⟨p', hp', hfits⟩ := h.predictBackspace row c now cellAt
          exact .inr ⟨p', hp', hfits, fun ⟨_, hprint, _⟩ => by revert hprint; decide⟩
      · split
        · next hcontrol =>
            refine .inr ⟨_, rfl, ⟨h.overwrite, h.width, h.wide⟩, fun ⟨_, hprint, _⟩ => ?_⟩
            rw [not_isControl hprint] at hcontrol
            grind
        · next hcontrol =>
            have hprint : isAsciiGraphic ch = true ∨ ch = ' ' := by grind
            rcases Nat.lt_or_ge c n with hc | hc
            · obtain ⟨p', hp', hfits⟩ := h.predictInsert ch row numRows now cellAt hc
              exact .inr ⟨p', hp', hfits, fun hbeyond => Nat.not_lt.mpr hbeyond.2.2 hc⟩
            · exact .inl ⟨h.predictInsert_none ch row numRows now cellAt hc, hinput, hprint, hc⟩

variable (ch row c numRows now cellAt) in
theorem Fits.newUserByte {m : Nat} (h : Fits p m) :
    (p.newUserByte ch row c n numRows now cellAt = none ∧
      p.displayPreference ≠ .never ∧ Beyond p ch c n) ∨
    ∃ p' m', p.newUserByte ch row c n numRows now cellAt = some p' ∧ Fits p' m' ∧
      ¬ (p.displayPreference ≠ .never ∧ Beyond p ch c n) := by
  unfold PredictionEngine.newUserByte
  split
  · next hnever => exact .inr ⟨p, m, rfl, h, fun hpref => hpref.1 hnever⟩
  · next hpref =>
      have hinput : (p.prepare row c n numRows).inputState = p.inputState :=
        (prepare_same row c n numRows hpref).1.input
      rcases (h.prepare row c n numRows hpref).dispatch ch row c numRows now cellAt with
        ⟨hnone, hbeyond⟩ | ⟨p', hp', hfits, hinside⟩
      · exact .inl ⟨hnone, hpref, hinput ▸ hbeyond.1, hbeyond.2⟩
      · exact .inr ⟨p', n, hp', hfits, fun hbeyond =>
          hinside ⟨hinput.trans hbeyond.2.1, hbeyond.2.2⟩⟩

/-! ## The server's states -/

theorem length_scanCells (getCell : Nat → Char) (scan : Scan)
    (cells : List ConditionalOverlayCell) :
    (p.scanCells now getCell scan cells).2.length = cells.length := by
  induction cells generalizing scan with
  | nil => rfl
  | cons cell rest ih => exact congrArg (· + 1) (ih _)

variable (p now) in
theorem scanRows_shape (getCell : Nat → Nat → Char) (scan : Scan) (rows : List OverlayRow) :
    (p.scanRows now getCell scan rows).2.map (fun r => (r.rowNum, r.cells.length))
      = rows.map fun r => (r.rowNum, r.cells.length) := by
  induction rows generalizing scan with
  | nil => rfl
  | cons row rest ih =>
      refine congrArg₂ List.cons (congrArg (Prod.mk row.rowNum) (length_scanCells _ _ _)) (ih _)

theorem wide_of_shape {rows rows' : List OverlayRow}
    (hshape : rows'.map (fun r => (r.rowNum, r.cells.length))
      = rows.map fun r => (r.rowNum, r.cells.length)) (h : Overlay.Wide ⟨rows⟩ n) :
    Overlay.Wide ⟨rows'⟩ n where
  order := by
    have hlt : ∀ l : List OverlayRow, Overlay.Ordered l ↔
        (l.map fun r => (r.rowNum, r.cells.length)).Pairwise fun a b => a.1 < b.1 :=
      fun l => by rw [List.pairwise_map, Overlay.Ordered]
    exact (hlt rows').mpr (hshape ▸ (hlt rows).mp h.order)
  cells r hr := by
    have hmem : (r.rowNum, r.cells.length) ∈ rows.map fun r => (r.rowNum, r.cells.length) :=
      hshape ▸ List.mem_map_of_mem hr
    obtain ⟨r', hr', heq⟩ := List.mem_map.mp hmem
    exact (congrArg Prod.snd heq).symm.trans (h.cells r' hr')

theorem Fits.validatePredictions (h : Fits p n) (now : Nat) (getCell : Nat → Nat → Char)
    (row c : Nat) : Fits (p.validatePredictions now getCell row c) n := by
  have hwide := wide_of_shape (scanRows_shape p now getCell
    ⟨false, p.confirmedEpoch, p.glitchTrigger, p.lastQuickConfirmation⟩ p.overlay.rows) h.wide
  unfold PredictionEngine.validatePredictions
  dsimp only
  split
  · exact ⟨h.overwrite, h.width, wide_new⟩
  · exact ⟨h.overwrite, h.width, hwide⟩

end PredictionEngine

namespace Client

variable {T : Type} {c : Client T}

/-- The predictor of some screen. -/
def Fits (c : Client T) : Prop := ∃ n, c.prediction.Fits n

/-- The cursor handed to the predictor: where it is predicted, or else where
the user sees it. -/
def handed (c : Client T) : Nat × Nat :=
  c.prediction.cursorPos.getD (c.localFramebuffer.cursorY, c.localFramebuffer.cursorX)

/-- The byte is to be inserted, and the cursor is right of the screen. -/
def Oversteps (c : Client T) (byte : UInt8) : Prop :=
  c.prediction.displayPreference ≠ .never ∧
    c.prediction.Beyond (Char.ofNat byte.toNat) c.handed.2 c.localFramebuffer.cols

/-- No byte of a chunk oversteps, typed after those in front of it. -/
def Within : (clock : Nat → Nat) → Client T → Bytes → Prop
  | _, _, [] => True
  | clock, c, byte :: rest =>
      ¬ c.Oversteps byte ∧ ∀ c', c.typeByte false (clock 0) byte = some c' →
        Within (fun i => clock (i + 1)) c' rest

/-- What an event types is within the screen. -/
def InRange (c : Client T) (clock : Nat → Nat) : TermEvent → Prop
  | .input bytes =>
      c.shutdownInProgress = false → bytes.length ≤ PASTE_THRESHOLD →
        Within clock (c.startInput bytes) bytes
  | _ => True

/-- What the loop is woken by types within the screen. -/
def Wakes (c : Client T) : Wake → Prop
  | .term clock event => c.InRange clock event
  | _ => True

theorem Fits.typeByte (h : c.Fits) (now : Nat) (byte : UInt8) :
    (c.typeByte false now byte = none ∧ c.Oversteps byte) ∨
    ∃ c', c.typeByte false now byte = some c' ∧ c'.Fits ∧ ¬ c.Oversteps byte := by
  obtain ⟨n, hfits⟩ := h
  have hpredict : c.predictByte false now byte =
      (c.prediction.newUserByte (Char.ofNat byte.toNat) c.handed.1 c.handed.2
        c.localFramebuffer.cols c.localFramebuffer.rowsCount now c.localFramebuffer.charAt).map
        fun prediction => { c with prediction := prediction } := rfl
  unfold Client.typeByte
  rw [hpredict]
  rcases hfits.newUserByte (Char.ofNat byte.toNat) c.handed.1 c.handed.2
    c.localFramebuffer.rowsCount now c.localFramebuffer.charAt (n := c.localFramebuffer.cols)
    with ⟨hnone, hbeyond⟩ | ⟨p', m, hp', hfits', hinside⟩
  · exact .inl ⟨by rw [hnone]; rfl, hbeyond⟩
  · exact .inr ⟨_, by rw [hp']; rfl, ⟨m, hfits'⟩, hinside⟩

theorem Fits.typeBytes (h : c.Fits) (clock : Nat → Nat) (bytes : Bytes) :
    (typeBytes false clock c bytes = none ∧ ¬ Within clock c bytes) ∨
    ∃ c', typeBytes false clock c bytes = some c' ∧ c'.Fits ∧ Within clock c bytes := by
  induction bytes generalizing c clock with
  | nil => exact .inr ⟨c, rfl, h, trivial⟩
  | cons byte rest ih =>
      rw [Client.typeBytes, Within]
      rcases h.typeByte (clock 0) byte with ⟨hnone, hover⟩ | ⟨d, hd, hfits, hwithin⟩
      · exact .inl ⟨by rw [hnone]; rfl, fun hw => hw.1 hover⟩
      · rw [hd, Option.bind_some]
        rcases ih hfits fun i => clock (i + 1) with ⟨hnone, hout⟩ | ⟨d', hd', hfits', hin⟩
        · exact .inl ⟨hnone, fun hw => hout (hw.2 d rfl)⟩
        · exact .inr ⟨d', hd', hfits', hwithin, fun e he => Option.some.inj he ▸ hin⟩

theorem Fits.paste (h : c.Fits) (clock : Nat → Nat) (bytes : Bytes) :
    ∃ c', Client.typeBytes true clock c bytes = some c' ∧ c'.Fits := by
  induction bytes generalizing c clock with
  | nil => exact ⟨c, rfl, h⟩
  | cons byte rest ih =>
      exact ih (c := { c with endpoint := c.endpoint.edit UserStream.push (.userByte byte) }) h _

theorem Fits.startInput (h : c.Fits) (bytes : Bytes) : (c.startInput bytes).Fits := by
  obtain ⟨n, hfits⟩ := h
  refine ⟨n, ?_⟩
  unfold Client.startInput
  dsimp only
  split
  · exact ⟨hfits.overwrite, hfits.width, PredictionEngine.wide_new⟩
  · exact ⟨hfits.overwrite, hfits.width, hfits.wide⟩

theorem Fits.handleTermEvent (h : c.Fits) (clock : Nat → Nat) (event : TermEvent) :
    (c.handleTermEvent clock event = none ∧ ¬ c.InRange clock event) ∨
    ∃ c' exit, c.handleTermEvent clock event = some (c', exit) ∧ c'.Fits ∧
      c.InRange clock event := by
  unfold Client.handleTermEvent
  by_cases hdown : c.shutdownInProgress = true
  · rw [if_pos hdown]
    refine .inr ⟨c, false, rfl, h, ?_⟩
    cases event with
    | input bytes => exact fun hup => absurd (hdown.symm.trans hup) nofun
    | resize | escapeHelp | quit => trivial
  · rw [if_neg hdown]
    cases event with
    | escapeHelp => exact .inr ⟨_, _, rfl, h, trivial⟩
    | resize =>
        obtain ⟨n, hfits⟩ := h
        exact .inr ⟨_, _, rfl, ⟨n, hfits.reset⟩, trivial⟩
    | quit =>
        dsimp only
        split
        · exact .inr ⟨_, _, rfl, h, trivial⟩
        · exact .inr ⟨_, _, rfl, h, trivial⟩
    | input bytes =>
        have hstart := h.startInput bytes
        dsimp only
        by_cases hpaste : bytes.length > PASTE_THRESHOLD
        · obtain ⟨c', hc', hfits⟩ := hstart.paste clock bytes
          rw [decide_eq_true hpaste, hc']
          exact .inr ⟨_, _, rfl, hfits, fun _ hshort => absurd hshort (Nat.not_le.mpr hpaste)⟩
        · rw [decide_eq_false hpaste]
          rcases hstart.typeBytes clock bytes with ⟨hnone, hout⟩ | ⟨c', hc', hfits, hin⟩
          · rw [hnone]
            exact .inl ⟨rfl, fun hrange =>
              hout (hrange (eq_false_of_ne_true hdown) (Nat.not_lt.mp hpaste))⟩
          · rw [hc']
            exact .inr ⟨_, _, rfl, hfits, fun _ _ => hin⟩

theorem Fits.judge (h : c.Fits) (now srttMs : Nat) : (c.judge now srttMs).Fits := by
  obtain ⟨n, hfits⟩ := h
  unfold Client.judge
  refine ⟨n, PredictionEngine.Fits.validatePredictions ?_ _ _ _ _⟩
  exact ⟨hfits.overwrite, hfits.width, hfits.wide⟩

variable [Emulator T] [ProstMessage HostMessage]

theorem Fits.receive (h : c.Fits) (now srttMs : Nat) (fresh : Bool)
    (incoming : Except String (Option Instruction)) :
    (c.receive now srttMs fresh incoming).Fits := by
  unfold Client.receive
  dsimp only
  split
  · exact Fits.judge (c := { c with endpoint := c.endpoint.recv now fresh incoming }) h now srttMs
  · exact h

theorem Fits.wake (h : c.Fits) (w : Wake) :
    (c.wake w = none ∧ ¬ c.Wakes w) ∨
    ∃ c' exit, c.wake w = some (c', exit) ∧ c'.Fits ∧ c.Wakes w := by
  cases w with
  | term clock event => exact h.handleTermEvent clock event
  | datagram now srttMs fresh incoming =>
      exact .inr ⟨_, _, rfl, h.receive now srttMs fresh incoming, trivial⟩
  | timeout => exact .inr ⟨_, _, rfl, h, trivial⟩

end Client

namespace MainLoop

open Run

variable {T : Type} [Emulator T] [ProstMessage HostMessage] [ProstMessage UserMessage]
  {s s' : MainLoop T} {t : Turn}

/-- What is typed in a turn is within the frame painted at its start. -/
def InRange (s : MainLoop T) (t : Turn) : Prop :=
  s.left = false → (s.waiting t.waitAt).Wakes t.wake

theorem turn_spec (h : s.client.Fits) :
    (s.turn t = none ∧ ¬ s.InRange t) ∨
    ∃ s', s.turn t = some s' ∧ s'.client.Fits ∧ s.InRange t := by
  unfold turn
  by_cases hleft : s.left = true
  · rw [if_pos hleft]
    exact .inr ⟨s, rfl, h, fun hin => absurd (hleft.symm.trans hin) nofun⟩
  · rw [if_neg hleft]
    have hwait : (s.waiting t.waitAt).Fits := h
    rcases hwait.wake t.wake with ⟨hnone, hout⟩ | ⟨c, exit, hc, hfits, hin⟩
    · rw [hnone]
      exact .inl ⟨rfl, fun hrange => hout (hrange (eq_false_of_ne_true hleft))⟩
    · rw [hc]
      refine .inr ⟨_, rfl, ?_, fun _ => hin⟩
      dsimp only
      split
      · exact hfits
      · exact hfits

/-- The predictor completes every call of a run of the main loop if and only if
no turn of it inserts a byte while the cursor handed to the predictor is right
of the frame. -/
theorem predictor_in_range_iff (now cols rows srttMs : Nat) (screen : Complete T)
    (pref : DisplayPreference) (turns : List Turn) :
    (run turn (start now cols rows srttMs screen pref) turns).isSome ↔
      Along InRange turn (start now cols rows srttMs screen pref) turns := by
  refine isSome_run_iff (I := fun s => s.client.Fits) ?_ ?_ ⟨0, rfl, rfl, PredictionEngine.wide_new⟩
  · intro s t s' h hs'
    rcases turn_spec h with ⟨hnone, -⟩ | ⟨d, hd, hfits, -⟩
    · exact absurd (hnone.symm.trans hs') nofun
    · exact Option.some.inj (hd.symm.trans hs') ▸ hfits
  · intro s t h
    rcases turn_spec h with ⟨hnone, hout⟩ | ⟨d, hd, -, hin⟩
    · exact iff_of_false (by rw [hnone]; exact Bool.false_ne_true) hout
    · exact iff_of_true (by rw [hd]; rfl) hin

end MainLoop

namespace MainLoop

/-- A turn in which nothing but the event takes time. -/
def woken (w : Wake) : Turn := ⟨⟨0, 1000, 250⟩, w, 0, ⟨0, 1000, 250⟩, []⟩

/-- The server's first screen, of two columns by one row. -/
def narrowed : Instruction where
  protocolVersion := some MORSH_PROTOCOL_VERSION
  oldNum := some 0
  newNum := some 1
  ackNum := some 0
  throwawayNum := some 0
  diff := some (ProstMessage.encode (HostMessage.mk [⟨none, some ⟨some 2, some 1⟩, none⟩]))
  chaff := none

/-- On a terminal of three columns two letters are typed, a screen of two
columns comes in, and a third letter is typed. -/
def shrunk : List Turn :=
  [woken (.term (fun _ => 0) (.input [97, 98])), woken (.datagram 0 250 true (.ok (some narrowed))),
    woken (.term (fun _ => 0) (.input [99]))]

open VtTerminal in
/-- The third letter is predicted in column 2 of two. -/
theorem shrunk_screen_panics :
    (Run.run turn (start 0 3 1 250 (opened 3 1) .adaptive) (shrunk.take 2)).isSome ∧
      Run.run turn (start 0 3 1 250 (opened 3 1) .adaptive) shrunk = none :=
  ⟨by decide +kernel, Option.isNone_iff_eq_none.mp (by decide +kernel)⟩

end MainLoop

end Morsh
