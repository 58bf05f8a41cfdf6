import Morsh.Client.Input
import Morsh.Proofs.TentativeCursor

/-!
# When a prediction expires

A key leaves a prediction as it is or makes it anew, and what it makes expires
with the frame after the last one sent. So a prediction made for a byte expires
with the first state that can hold the byte.

`Dated` is a relation between the predictions before a key and after it, for
cells, for rows and for the engine: whatever is active afterwards was there
before, or expires with that frame. It is reflexive and transitive, so each of
the operations a key is made of has its own lemma and their composition is free;
an operation that makes no prediction is dated for any frame. A chunk is typed
byte by byte against one frame number, and `Predicts` is what a byte of it has
left behind.
-/

namespace Morsh

/-- Every active cell of the row was in it before or expires with the frame. -/
structure OverlayRow.Dated (row row' : OverlayRow) (frame : Nat) : Prop where
  rowNum : row'.rowNum = row.rowNum
  cells : ∀ cell ∈ row'.cells, cell.active = true →
    cell ∈ row.cells ∨ cell.expirationFrame = frame

/-- Every active cell was in its row before or expires with the frame. -/
def Overlay.Dated (o o' : Overlay) (frame : Nat) : Prop :=
  ∀ r' ∈ o'.rows, ∀ cell ∈ r'.cells, cell.active = true →
    (∃ r ∈ o.rows, r.rowNum = r'.rowNum ∧ cell ∈ r.cells) ∨ cell.expirationFrame = frame

/-- Every prediction was there before or expires with the frame after the last
one sent. -/
structure PredictionEngine.Dated (p p' : PredictionEngine) : Prop where
  sent : p'.localFrameSent = p.localFrameSent
  cells : p.overlay.Dated p'.overlay (p.localFrameSent + 1)
  cursors : ∀ c ∈ p'.cursors, c.active = true →
    c ∈ p.cursors ∨ c.expirationFrame = p.localFrameSent + 1

/-! ## Cells -/

namespace OverlayRow

variable {row row' : OverlayRow} {epoch frame now n : Nat}

theorem dated_mapIdx {f : Nat → ConditionalOverlayCell → ConditionalOverlayCell}
    (hf : ∀ i cell, f i cell = cell ∨ (f i cell).expirationFrame = frame) :
    row.Dated { row with cells := row.cells.mapIdx f } frame := by
  refine ⟨rfl, fun cell' hcell' _ => ?_⟩
  obtain ⟨i, hi, rfl⟩ := List.mem_mapIdx.mp hcell'
  rcases hf i row.cells[i] with hsame | hdated
  · rw [hsame]
    exact .inl (List.getElem_mem hi)
  · exact .inr hdated

theorem insert_dated {ch : Char} {c rightmost : Nat} {cellAt : Nat → Char}
    (h : row.insert ch c rightmost n epoch frame now cellAt = some row') :
    row.Dated row' frame := by
  unfold insert at h
  split at h
  · cases h
    refine dated_mapIdx fun i cell => ?_
    dsimp only
    split
    · exact .inr rfl
    · split
      · right
        split
        · rfl
        · split
          · split
            · split <;> rfl
            · rfl
          · rfl
      · exact .inl rfl
  · cases h

theorem shiftLeft_dated {c : Nat} {cellAt : Nat → Char}
    (h : row.shiftLeft c n epoch frame now cellAt = some row') : row.Dated row' frame := by
  unfold shiftLeft at h
  split at h
  · cases h
    refine dated_mapIdx fun i cell => ?_
    dsimp only
    split
    · right
      split
      · split
        · split
          · split <;> rfl
          · rfl
        · rfl
      · rfl
    · exact .inl rfl
  · cases h

theorem clearAt_dated {c : Nat} (h : row.clearAt c epoch frame now = some row') :
    row.Dated row' frame := by
  unfold clearAt at h
  split at h
  · cases h
    refine dated_mapIdx fun i cell => ?_
    dsimp only
    split
    · exact .inr rfl
    · exact .inl rfl
  · cases h

theorem blank_dated : row.Dated (row.blank epoch frame now) frame := by
  refine ⟨rfl, fun cell hcell _ => ?_⟩
  obtain ⟨old, -, rfl⟩ := List.mem_map.mp hcell
  exact .inr rfl

end OverlayRow

namespace Overlay

variable {o o' o'' : Overlay} {frame rowNum n epoch now : Nat}
  {f : OverlayRow → Option OverlayRow}

theorem Dated.of_rows (h : ∀ r' ∈ o'.rows, r' ∈ o.rows) : o.Dated o' frame :=
  fun r' hr' _ hcell _ => .inl ⟨r', h r' hr', rfl, hcell⟩

theorem Dated.trans (h : o.Dated o' frame) (h' : o'.Dated o'' frame) : o.Dated o'' frame := by
  intro r'' hr'' cell hcell hactive
  rcases h' r'' hr'' cell hcell hactive with ⟨r', hr', hnum, hcell'⟩ | hdated
  · rcases h r' hr' cell hcell' hactive with ⟨r, hr, hnum', hcell''⟩ | hdated
    · exact .inl ⟨r, hr, hnum'.trans hnum, hcell''⟩
    · exact .inr hdated
  · exact .inr hdated

theorem updateRows_dated {fresh : OverlayRow} (hfresh : ∀ cell ∈ fresh.cells, cell.active = false)
    (hf : ∀ r r', f r = some r' → r.Dated r' frame) {rows rows' : List OverlayRow}
    (h : updateRows rowNum fresh f rows = some rows') :
    Dated ⟨rows⟩ ⟨rows'⟩ frame := by
  -- the row changed, made of one of the overlay or of a fresh one
  have hchanged : ∀ {r r' : OverlayRow} {rest : List OverlayRow}, f r = some r' →
      r = fresh ∨ r ∈ rest → ∀ cell ∈ r'.cells, cell.active = true →
      (∃ q ∈ rest, q.rowNum = r'.rowNum ∧ cell ∈ q.cells) ∨ cell.expirationFrame = frame := by
    intro r r' rest hr hwhere cell hcell hactive
    rcases (hf r r' hr).cells cell hcell hactive with hold | hdated
    · rcases hwhere with rfl | hmem
      · exact absurd (hactive.symm.trans (hfresh cell hold)) nofun
      · exact .inl ⟨r, hmem, (hf r r' hr).rowNum.symm, hold⟩
    · exact .inr hdated
  induction rows generalizing rows' with
  | nil =>
      obtain ⟨r', hr', rfl⟩ := Option.map_eq_some_iff.mp h
      intro r hr
      rw [List.mem_singleton.mp hr]
      exact hchanged hr' (.inl rfl)
  | cons r rest ih =>
      rw [updateRows] at h
      split at h
      · obtain ⟨r', hr', rfl⟩ := Option.map_eq_some_iff.mp h
        intro q hq
        rcases List.mem_cons.mp hq with rfl | hq
        · exact hchanged hr' (.inr List.mem_cons_self)
        · exact fun cell hcell _ => .inl ⟨q, List.mem_cons_of_mem r hq, rfl, hcell⟩
      · split at h
        · obtain ⟨r', hr', rfl⟩ := Option.map_eq_some_iff.mp h
          intro q hq
          rcases List.mem_cons.mp hq with rfl | hq
          · exact hchanged hr' (.inl rfl)
          · exact fun cell hcell _ => .inl ⟨q, hq, rfl, hcell⟩
        · obtain ⟨rows', hrows', rfl⟩ := Option.map_eq_some_iff.mp h
          intro q hq cell hcell hactive
          rcases List.mem_cons.mp hq with rfl | hq
          · exact .inl ⟨q, List.mem_cons_self, rfl, hcell⟩
          · rcases ih hrows' q hq cell hcell hactive with ⟨r', hr', hnum, hcell'⟩ | hdated
            · exact .inl ⟨r', List.mem_cons_of_mem r hr', hnum, hcell'⟩
            · exact .inr hdated

theorem updateRow_dated (hf : ∀ r r', f r = some r' → r.Dated r' frame)
    (h : o.updateRow rowNum n epoch now f = some o') : o.Dated o' frame := by
  obtain ⟨rows', hrows', rfl⟩ := Option.map_eq_some_iff.mp h
  refine updateRows_dated (fun cell hcell => ?_) hf hrows'
  obtain ⟨col, -, rfl⟩ := List.mem_map.mp hcell
  rfl

end Overlay

/-! ## Keys -/

namespace PredictionEngine

variable {p p' p'' : PredictionEngine} {ch : Char} {row c n numRows now : Nat}
  {cellAt : Nat → Nat → Char}

theorem Dated.of_kept (hsent : p'.localFrameSent = p.localFrameSent)
    (hrows : ∀ r ∈ p'.overlay.rows, r ∈ p.overlay.rows)
    (hcursors : ∀ k ∈ p'.cursors, k ∈ p.cursors) :
    p.Dated p' :=
  ⟨hsent, .of_rows hrows, fun k hk _ => .inl (hcursors k hk)⟩

theorem Dated.refl (p : PredictionEngine) : p.Dated p := .of_kept rfl (fun _ => id) fun _ => id

theorem Dated.trans (h : p.Dated p') (h' : p'.Dated p'') : p.Dated p'' := by
  have hcells := h'.cells
  have hcursors := h'.cursors
  rw [h.sent] at hcells hcursors
  refine ⟨h'.sent.trans h.sent, h.cells.trans hcells, fun k hk hactive => ?_⟩
  rcases hcursors k hk hactive with hold | hdated
  · exact h.cursors k hold hactive
  · exact .inr hdated

theorem Dated.moveCursor {f : ConditionalCursorMove → ConditionalCursorMove}
    (hf : ∀ k, (f k).expirationFrame = p.localFrameSent + 1) :
    p.Dated { p with cursors := updateLast f p.cursors } := by
  refine ⟨rfl, .of_rows fun _ => id, fun k hk _ => ?_⟩
  obtain ⟨k', hk', rfl | rfl⟩ := mem_updateLast hk
  · exact .inl hk'
  · exact .inr (hf k')

theorem Dated.editRow {f : OverlayRow → Option OverlayRow} {rowNum epoch : Nat} {overlay : Overlay}
    (hf : ∀ r r', f r = some r' → r.Dated r' (p.localFrameSent + 1))
    (h : p.overlay.updateRow rowNum n epoch now f = some overlay) :
    p.Dated { p with overlay := overlay } :=
  ⟨rfl, Overlay.updateRow_dated hf h, fun _ hk _ => .inl hk⟩

theorem predictCursorKey_dated : p.Dated (p.predictCursorKey ch n) := by
  unfold predictCursorKey
  split
  · split
    · exact .moveCursor fun _ => rfl
    · exact .refl p
  · split
    · exact .moveCursor fun _ => rfl
    · exact .refl p
  · exact .of_kept rfl (fun _ => id) fun k hk => absurd hk List.not_mem_nil

theorem newlineCarriageReturn_dated (h : p.newlineCarriageReturn row n numRows now = some p') :
    p.Dated p' := by
  unfold newlineCarriageReturn at h
  dsimp only at h
  split at h
  · obtain ⟨overlay, hoverlay, rfl⟩ := Option.map_eq_some_iff.mp h
    refine Dated.trans (.moveCursor fun _ => rfl) (.editRow (fun r r' hr => ?_) hoverlay)
    cases hr
    exact OverlayRow.blank_dated
  · cases h
    exact .moveCursor fun _ => rfl

theorem predictBackspace_dated (h : p.predictBackspace row c n now cellAt = some p') :
    p.Dated p' := by
  unfold predictBackspace at h
  split at h
  · cases h
    exact .refl p
  · dsimp only at h
    obtain ⟨overlay, hoverlay, rfl⟩ := Option.map_eq_some_iff.mp h
    refine Dated.trans (.moveCursor fun _ => rfl) (.editRow (fun r r' hr => ?_) hoverlay)
    split at hr
    · exact OverlayRow.clearAt_dated hr
    · exact OverlayRow.shiftLeft_dated hr

theorem predictInsert_dated (h : p.predictInsert ch row c n numRows now cellAt = some p') :
    p.Dated p' := by
  unfold predictInsert at h
  dsimp only at h
  -- at the margin the epoch changes, and no prediction with it
  have hmargin : p.Dated (if c + 1 ≥ n then p.becomeTentative else p) := by
    split
    · exact .of_kept rfl (fun _ => id) fun _ => id
    · exact .refl p
  generalize (if c + 1 ≥ n then p.becomeTentative else p) = q at h hmargin
  split at h
  · cases h
  · obtain ⟨overlay, hoverlay, h⟩ := Option.bind_eq_some_iff.mp h
    have hinserted : p.Dated { q with overlay := overlay } :=
      hmargin.trans (.editRow (fun r r' hr => OverlayRow.insert_dated hr) hoverlay)
    split at h
    · cases h
      exact hinserted.trans (.moveCursor fun _ => rfl)
    · have htentative : ({ q with overlay := overlay } : PredictionEngine).Dated
          { q with overlay := overlay }.becomeTentative := .of_kept rfl (fun _ => id) fun _ => id
      exact (hinserted.trans htentative).trans (newlineCarriageReturn_dated h)

theorem dispatch_dated (h : p.dispatch ch row c n numRows now cellAt = some p') : p.Dated p' := by
  have hinput : ∀ state, p.Dated { p with inputState := state } := fun _ =>
    .of_kept rfl (fun _ => id) fun _ => id
  have hdropped : ∀ state, p.Dated { p.unknownInput with inputState := state } := fun _ =>
    .of_kept rfl (fun _ => id) fun k hk => absurd hk List.not_mem_nil
  unfold dispatch at h
  split at h
  · split at h
    · cases h
      exact hinput .csi
    · split at h
      · cases h
        exact hinput .ss3
      · cases h
        exact hdropped .ground
  · split at h
    · cases h
      exact (hinput .ground).trans predictCursorKey_dated
    · cases h
      exact .refl p
  · cases h
    exact (hinput .ground).trans predictCursorKey_dated
  · split at h
    · cases h
      exact hinput .escape
    · split at h
      · exact predictBackspace_dated h
      · split at h
        · cases h
          exact .of_kept rfl (fun _ => id) fun k hk => absurd hk List.not_mem_nil
        · exact predictInsert_dated h

theorem cull_dated : p.Dated (p.cull numRows) := by
  obtain ⟨hcursors, -⟩ := cull_cursors p numRows
  have hsent : (p.cull numRows).localFrameSent = p.localFrameSent := by
    unfold cull
    grind
  have hrows : (p.cull numRows).overlay = p.overlay ∨
      (p.cull numRows).overlay = p.overlay.prune numRows := by
    unfold cull
    grind
  refine .of_kept hsent (fun r hr => ?_) fun k hk => hcursors ▸ hk
  rcases hrows with hrows | hrows
  · exact hrows ▸ hr
  · rw [hrows] at hr
    exact List.mem_of_mem_filter hr

theorem initCursor_dated : p.Dated (p.initCursor row c) := by
  unfold initCursor
  dsimp only
  split
  · refine ⟨rfl, .of_rows fun _ => id, fun k hk _ => ?_⟩
    rcases List.mem_append.mp hk with hold | hnew
    · exact .inl hold
    · rw [List.mem_singleton.mp hnew]
      exact .inr rfl
  · exact .refl p

theorem prepare_dated : p.Dated (p.prepare row c n numRows) := by
  have hsized : p.Dated (p.sized numRows n) := by
    unfold sized
    split
    · exact .of_kept rfl (fun r hr => absurd hr List.not_mem_nil)
        fun k hk => absurd hk List.not_mem_nil
    · exact .refl p
  exact (hsized.trans cull_dated).trans initCursor_dated

theorem newUserByte_dated (h : p.newUserByte ch row c n numRows now cellAt = some p') :
    p.Dated p' := by
  unfold newUserByte at h
  split at h
  · cases h
    exact .refl p
  · exact prepare_dated.trans (dispatch_dated h)

/-- A prediction that was not there before, and that expires with the frame. -/
def Makes (p p' : PredictionEngine) (frame : Nat) : Prop :=
  (∃ r' ∈ p'.overlay.rows, ∃ cell ∈ r'.cells, cell.active = true ∧ cell.expirationFrame = frame ∧
      ¬ ∃ r ∈ p.overlay.rows, r.rowNum = r'.rowNum ∧ cell ∈ r.cells) ∨
    ∃ k ∈ p'.cursors, k.active = true ∧ k.expirationFrame = frame ∧ k ∉ p.cursors

theorem Dated.makes {frame : Nat} (h : p.Dated p') (hmakes : p.Makes p' frame) :
    frame = p.localFrameSent + 1 := by
  rcases hmakes with ⟨r', hr', cell, hcell, hactive, rfl, hnew⟩ | ⟨k, hk, hactive, rfl, hnew⟩
  · exact (h.cells r' hr' cell hcell hactive).resolve_left hnew
  · exact (h.cursors k hk hactive).resolve_left hnew

end PredictionEngine

/-! ## Chunks -/

namespace Client

variable {T : Type} {c c' : Client T} {clock : Nat → Nat} {paste : Bool}

/-- The bytes pushed onto the stream. -/
def push (x : Endpoint UserStream (Complete T) UserEvent) (bytes : Bytes) :
    Endpoint UserStream (Complete T) UserEvent :=
  bytes.foldl (fun x byte => x.edit UserStream.push (.userByte byte)) x

theorem typeByte_spec {now : Nat} {byte : UInt8} (h : c.typeByte paste now byte = some c') :
    c'.endpoint = push c.endpoint [byte] ∧ c.prediction.Dated c'.prediction := by
  obtain ⟨c₁, hpredict, rfl⟩ := Option.map_eq_some_iff.mp h
  unfold predictByte at hpredict
  split at hpredict
  · cases hpredict
    exact ⟨rfl, .refl _⟩
  · obtain ⟨p, hp, rfl⟩ := Option.map_eq_some_iff.mp hpredict
    exact ⟨rfl, PredictionEngine.newUserByte_dated hp⟩

theorem typeBytes_spec {bytes : Bytes} (h : typeBytes paste clock c bytes = some c') :
    c'.endpoint = push c.endpoint bytes ∧ c.prediction.Dated c'.prediction := by
  induction bytes generalizing c clock with
  | nil =>
      cases h
      exact ⟨rfl, .refl _⟩
  | cons byte rest ih =>
      obtain ⟨c₁, hbyte, hrest⟩ := Option.bind_eq_some_iff.mp h
      obtain ⟨hpushed, hdated⟩ := typeByte_spec hbyte
      obtain ⟨hpushed', hdated'⟩ := ih hrest
      exact ⟨by rw [hpushed', hpushed]; rfl, hdated.trans hdated'⟩

/-- For this byte of a chunk a prediction is made that expires with the frame. -/
def Predicts (c : Client T) (clock : Nat → Nat) (front : Bytes) (byte : UInt8) (back : Bytes)
    (frame : Nat) : Prop :=
  ∃ c₁ c₂, typeBytes ((front ++ byte :: back).length > PASTE_THRESHOLD) clock
      (c.startInput (front ++ byte :: back)) front = some c₁ ∧
    c₁.typeByte ((front ++ byte :: back).length > PASTE_THRESHOLD) (clock front.length) byte
      = some c₂ ∧ c₁.prediction.Makes c₂.prediction frame

/-- It expires with the state after the last one sent. -/
theorem Predicts.frame_eq {front back : Bytes} {byte : UInt8} {frame : Nat}
    (h : c.Predicts clock front byte back frame) :
    frame = c.endpoint.transport.sender.sentStateLast + 1 := by
  obtain ⟨c₁, c₂, hfront, hbyte, hmakes⟩ := h
  rw [(typeByte_spec hbyte).2.makes hmakes, (typeBytes_spec hfront).2.sent]
  rfl

theorem handleTermEvent_input {bytes : Bytes} {exit : Bool}
    (hrunning : c.shutdownInProgress = false)
    (h : c.handleTermEvent clock (.input bytes) = some (c', exit)) :
    c'.endpoint = push c.endpoint bytes := by
  unfold handleTermEvent at h
  rw [if_neg (by simp [hrunning])] at h
  obtain ⟨c₁, htyped, heq⟩ := Option.map_eq_some_iff.mp h
  cases heq
  exact (typeBytes_spec htyped).1

end Client

end Morsh
