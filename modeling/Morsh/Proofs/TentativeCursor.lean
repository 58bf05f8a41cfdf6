import Mathlib.Data.List.Forall2
import Morsh.Prediction.EngineRun
import Morsh.Proofs.LineEditing

/-!
# The predicted cursor is hidden while tentative

Every mark of an entry is at most the entry's own epoch, and that is at most the
engine's. A key finds the last entry at the engine's epoch, for an older one has
been followed by a new one, so the mark it leaves is no higher; only a key that
wraps the prediction raises the epoch and then moves the entry all the same.

The marks of an entry are the epochs of the keys that moved it, and `Tracks` keeps
them in step with the entries: when a key moves the last entry its epoch is added
there, when the engine drops entries the marks go with them. `Moved` says what a
key can do to the entries, with the wrap set apart, since it is the one that
raises the epoch before it moves the entry. A validation drops entries from the
front, by their epochs, so for what is displayed the epoch is confirmed and with
it every mark.
-/

namespace Morsh

theorem updateLast_concat {α : Type} (f : α → α) (l : List α) (x : α) :
    updateLast f (l ++ [x]) = l ++ [f x] := by
  rw [updateLast, List.getLast?_concat, List.dropLast_concat]

theorem getLast?_updateLast {α : Type} {f : α → α} {l : List α} :
    (updateLast f l).getLast? = l.getLast?.map f := by
  rcases List.eq_nil_or_concat l with rfl | ⟨front, x, rfl⟩
  · rfl
  · rw [List.concat_eq_append, updateLast_concat, List.getLast?_concat, List.getLast?_concat]
    rfl

theorem mem_updateLast {α : Type} {f : α → α} {l : List α} {y : α} (h : y ∈ updateLast f l) :
    ∃ x ∈ l, y = x ∨ y = f x := by
  rcases List.eq_nil_or_concat l with rfl | ⟨front, x, rfl⟩
  · exact absurd h List.not_mem_nil
  · rw [List.concat_eq_append] at h ⊢
    rw [updateLast_concat, List.mem_append, List.mem_singleton] at h
    rcases h with h | rfl
    · exact ⟨y, List.mem_append_left _ h, .inl rfl⟩
    · exact ⟨x, List.mem_append_right _ List.mem_cons_self, .inr rfl⟩

theorem forall₂_mem_right {α β : Type} {R : α → β → Prop} {as : List α} {bs : List β} {b : β}
    (h : List.Forall₂ R as bs) (hb : b ∈ bs) : ∃ a ∈ as, R a b := by
  obtain ⟨i, hi, rfl⟩ := List.mem_iff_getElem.mp hb
  have hi' : i < as.length := h.length_eq ▸ hi
  exact ⟨as[i], List.getElem_mem hi', h.get hi' hi⟩

/-- Related lists stay so when their last elements do. -/
theorem forall₂_updateLast {α β : Type} {R : α → β → Prop} {f : α → α} {g : β → β}
    {as : List α} {bs : List β} (h : List.Forall₂ R as bs)
    (hlast : ∀ a b, as.getLast? = some a → R a b → R (f a) (g b)) :
    List.Forall₂ R (updateLast f as) (updateLast g bs) := by
  rcases List.eq_nil_or_concat as with rfl | ⟨front, a, rfl⟩
  · cases h
    exact .nil
  · rw [List.concat_eq_append] at h hlast ⊢
    obtain ⟨bs', b, hfront, hab, rfl⟩ : ∃ bs' b, List.Forall₂ R front bs' ∧ R a b ∧
        bs = bs' ++ [b] := by
      rcases List.eq_nil_or_concat bs with rfl | ⟨bs', b, rfl⟩
      · have hlen := h.length_eq
        simp at hlen
      · rw [List.concat_eq_append] at h ⊢
        have hrev := List.forall₂_reverse_iff.mpr h
        rw [List.reverse_concat, List.reverse_concat] at hrev
        obtain ⟨hab, hrest⟩ := List.forall₂_cons.mp hrev
        exact ⟨bs', b, List.forall₂_reverse_iff.mp hrest, hab, rfl⟩
    rw [updateLast_concat, updateLast_concat]
    exact List.rel_append hfront (.cons (hlast a b List.getLast?_concat hab) .nil)

namespace PredictionEngine

variable {p p' q : PredictionEngine} {ch : Char} {row col numCols numRows now : Nat}
  {cellAt : Nat → Nat → Char} {f : ConditionalCursorMove → ConditionalCursorMove}

/-- A move of an entry leaves its epoch as it is. -/
def KeepsEpoch (f : ConditionalCursorMove → ConditionalCursorMove) : Prop :=
  ∀ c, (f c).tentativeUntilEpoch = c.tentativeUntilEpoch ∧ (f c).active = c.active

/-- What a key leaves of the entries: none of them, or all of them with the last
one moved. -/
inductive Moved (p p' : PredictionEngine) : Prop where
  | dropped (h : p'.cursors = []) (hepoch : p.predictionEpoch ≤ p'.predictionEpoch)
  | moved {f : ConditionalCursorMove → ConditionalCursorMove}
      (h : p'.cursors = updateLast f p.cursors) (hf : KeepsEpoch f)
      (hepoch : p'.predictionEpoch = p.predictionEpoch)

/-- A key that wraps: the entry is moved to the start of a row. -/
structure Wrapped (p p' : PredictionEngine) (numRows : Nat) : Prop where
  moved : ∃ f, p'.cursors = updateLast f p.cursors ∧ KeepsEpoch f ∧
    ∀ c, (f c).col = 0 ∧ (f c).row = if c.row + 1 < numRows then c.row + 1 else c.row
  epoch : p.predictionEpoch ≤ p'.predictionEpoch

theorem updateLast_id {α : Type} (l : List α) : updateLast id l = l := by
  rcases List.eq_nil_or_concat l with rfl | ⟨front, x, rfl⟩
  · rfl
  · rw [List.concat_eq_append, updateLast_concat]
    rfl

theorem Moved.of_same (hcursors : p'.cursors = p.cursors)
    (hepoch : p'.predictionEpoch = p.predictionEpoch) : Moved p p' :=
  .moved (hcursors.trans (updateLast_id _).symm) (fun _ => ⟨rfl, rfl⟩) hepoch

theorem predictCursorKey_moved (p : PredictionEngine) (input : InputState) (ch : Char)
    (numCols : Nat) : Moved p ({ p with inputState := input }.predictCursorKey ch numCols) := by
  unfold predictCursorKey
  dsimp only
  split
  · split
    · exact .moved rfl (fun _ => ⟨rfl, rfl⟩) rfl
    · exact .of_same rfl rfl
  · split
    · exact .moved rfl (fun _ => ⟨rfl, rfl⟩) rfl
    · exact .of_same rfl rfl
  · exact .dropped rfl (Nat.le_succ _)

theorem predictBackspace_moved
    (h : p.predictBackspace row col numCols now cellAt = some p') : Moved p p' := by
  unfold predictBackspace at h
  split at h
  · cases h
    exact .of_same rfl rfl
  · obtain ⟨overlay, -, rfl⟩ := Option.map_eq_some_iff.mp h
    exact .moved rfl (fun _ => ⟨rfl, rfl⟩) rfl

theorem newlineCarriageReturn_wrapped
    (h : p.newlineCarriageReturn row numCols numRows now = some p') :
    Wrapped p p' numRows := by
  unfold newlineCarriageReturn at h
  dsimp only at h
  split at h
  · obtain ⟨overlay, -, rfl⟩ := Option.map_eq_some_iff.mp h
    exact ⟨⟨_, rfl, fun _ => ⟨rfl, rfl⟩, fun _ => ⟨rfl, rfl⟩⟩, Nat.le_refl _⟩
  · cases h
    exact ⟨⟨_, rfl, fun _ => ⟨rfl, rfl⟩, fun _ => ⟨rfl, rfl⟩⟩, Nat.le_refl _⟩

theorem predictInsert_moved
    (h : p.predictInsert ch row col numCols numRows now cellAt = some p') :
    Moved p p' ∨ numCols ≤ col + 1 ∧ Wrapped p p' numRows := by
  unfold predictInsert at h
  dsimp only at h
  by_cases hmargin : col + 1 < numCols
  · rw [if_neg (Nat.not_le.mpr hmargin)] at h
    split at h
    · cases h
    · obtain ⟨overlay, -, h⟩ := Option.bind_eq_some_iff.mp h
      cases h
      exact .inl (.moved rfl (fun _ => ⟨rfl, rfl⟩) rfl)
  · rw [if_pos (Nat.not_lt.mp hmargin)] at h
    split at h
    · cases h
    · obtain ⟨overlay, -, h⟩ := Option.bind_eq_some_iff.mp h
      obtain ⟨hmoved, hepoch⟩ := newlineCarriageReturn_wrapped h
      -- the epoch has been raised twice
      have hraised : p.predictionEpoch ≤ p.predictionEpoch + 1 + 1 := Nat.le_add_right _ 2
      exact .inr ⟨Nat.not_lt.mp hmargin, hmoved, Nat.le_trans hraised hepoch⟩

/-- The key moves the last entry without a change of epoch, or drops them all,
unless it is a printable one at the right margin. -/
theorem dispatch_moved (h : p.dispatch ch row col numCols numRows now cellAt = some p') :
    Moved p p' ∨ p.inputState = .ground ∧ (isAsciiGraphic ch = true ∨ ch = ' ') ∧
      numCols ≤ col + 1 ∧ Wrapped p p' numRows := by
  unfold dispatch at h
  split at h
  case h_1 =>
    split at h
    · cases h
      exact .inl (.of_same rfl rfl)
    · split at h
      · cases h
        exact .inl (.of_same rfl rfl)
      · cases h
        exact .inl (.dropped rfl (Nat.le_succ _))
  case h_2 =>
    split at h
    · cases h
      exact .inl (predictCursorKey_moved p .ground ch numCols)
    · cases h
      exact .inl (.of_same rfl rfl)
  case h_3 =>
    cases h
    exact .inl (predictCursorKey_moved p .ground ch numCols)
  case h_4 hground =>
    split at h
    · cases h
      exact .inl (.of_same rfl rfl)
    · split at h
      · exact .inl (predictBackspace_moved h)
      · split at h
        · cases h
          exact .inl (.dropped rfl (Nat.le_succ _))
        · next hprintable =>
            rcases predictInsert_moved h with hmoved | ⟨hmargin, hwrapped⟩
            · exact .inl hmoved
            · refine .inr ⟨hground, ?_, hmargin, hwrapped⟩
              grind

theorem sized_cursors (p : PredictionEngine) (numRows numCols : Nat) :
    ((p.sized numRows numCols).cursors = p.cursors ∨ (p.sized numRows numCols).cursors = []) ∧
      p.predictionEpoch ≤ (p.sized numRows numCols).predictionEpoch := by
  unfold sized
  split
  · exact ⟨.inr rfl, Nat.le_succ _⟩
  · exact ⟨.inl rfl, Nat.le_refl _⟩

theorem cull_cursors (p : PredictionEngine) (numRows : Nat) :
    (p.cull numRows).cursors = p.cursors ∧
      (p.cull numRows).predictionEpoch = p.predictionEpoch := by
  unfold cull
  split
  · exact ⟨rfl, rfl⟩
  · constructor <;> grind

theorem initCursor_cursors (p : PredictionEngine) (row col : Nat) :
    (p.initCursor row col).predictionEpoch = p.predictionEpoch ∧
      ((p.initCursor row col).cursors = p.cursors ∧
          (∃ c, p.cursors.getLast? = some c ∧ c.tentativeUntilEpoch = p.predictionEpoch) ∨
        ∃ c, (p.initCursor row col).cursors = p.cursors ++ [c] ∧
          c.tentativeUntilEpoch = p.predictionEpoch) := by
  unfold initCursor
  dsimp only
  split
  · exact ⟨rfl, .inr ⟨_, rfl, rfl⟩⟩
  · next h =>
      rw [Bool.or_eq_true, not_or, Bool.not_eq_true', Bool.not_eq_false, Option.any_eq_true] at h
      obtain ⟨c, hlast, hepoch⟩ := h.2
      exact ⟨rfl, .inl ⟨rfl, c, hlast, beq_iff_eq.mp hepoch⟩⟩

end PredictionEngine

namespace EngineRun

open PredictionEngine

variable {p p' q : PredictionEngine} {marks : List (List Nat)}
  {ch : Char} {row col numCols numRows now : Nat}

/-- What an entry rests on is no later than the entry. -/
def Rests (c : ConditionalCursorMove) (marks : List Nat) : Prop :=
  ∀ epoch ∈ marks, epoch ≤ c.tentativeUntilEpoch

/-- The invariant of a run: one list of marks for each entry, no mark above its
entry, no entry above the engine. -/
structure Tracks (p : PredictionEngine) (marks : List (List Nat)) : Prop where
  rests : List.Forall₂ Rests p.cursors marks
  epochs : ∀ c ∈ p.cursors, c.tentativeUntilEpoch ≤ p.predictionEpoch

theorem Tracks.none (h : p.cursors = []) : Tracks p [] where
  rests := h ▸ .nil
  epochs _ hc := absurd hc (h ▸ List.not_mem_nil)

theorem Tracks.of_same (h : Tracks p marks) (hcursors : p'.cursors = p.cursors)
    (hepoch : p.predictionEpoch ≤ p'.predictionEpoch) : Tracks p' marks where
  rests := hcursors ▸ h.rests
  epochs c hc := Nat.le_trans (h.epochs c (hcursors ▸ hc)) hepoch

theorem Tracks.le (h : Tracks p marks) {m : List Nat} (hm : m ∈ marks) {epoch : Nat}
    (hepoch : epoch ∈ m) : epoch ≤ p.predictionEpoch := by
  obtain ⟨c, hc, hrests⟩ := forall₂_mem_right h.rests hm
  exact Nat.le_trans (hrests epoch hepoch) (h.epochs c hc)

theorem Tracks.sized (h : Tracks p marks) (numRows numCols : Nat) :
    Tracks (p.sized numRows numCols)
      (marks.take (p.sized numRows numCols).cursors.length) := by
  obtain ⟨hcursors | hcursors, hepoch⟩ := sized_cursors p numRows numCols
  · rw [hcursors, h.rests.length_eq, List.take_length]
    exact h.of_same hcursors hepoch
  · rw [hcursors]
    exact .none hcursors

/-- What a key finds, its last entry of the engine's epoch. A change of size and
the culling come first; where they leave none of that epoch a cursor is begun, and
with it a mark. -/
theorem Tracks.prepare (h : Tracks p marks) (row col numCols numRows : Nat) :
    Tracks (p.prepare row col numCols numRows) (begunMarks p row col numCols numRows marks) ∧
      p.predictionEpoch ≤ (p.prepare row col numCols numRows).predictionEpoch ∧
      ∃ c, (p.prepare row col numCols numRows).cursors.getLast? = some c ∧
        c.tentativeUntilEpoch = (p.prepare row col numCols numRows).predictionEpoch := by
  have hsized := h.sized numRows numCols
  have hraised := (sized_cursors p numRows numCols).2
  obtain ⟨hsame, hculled⟩ := cull_cursors (p.sized numRows numCols) numRows
  obtain ⟨hepoch, hcursors⟩ := initCursor_cursors ((p.sized numRows numCols).cull numRows) row col
  have hprepare : p.prepare row col numCols numRows
      = ((p.sized numRows numCols).cull numRows).initCursor row col := rfl
  rw [← hprepare, hsame, hculled] at hcursors
  rw [← hprepare, hculled] at hepoch
  unfold begunMarks
  dsimp only
  generalize marks.take (p.sized numRows numCols).cursors.length = held at hsized ⊢
  have hlen := hsized.rests.length_eq
  rcases hcursors with ⟨hkept, c, hlast, hc⟩ | ⟨c, hnew, hc⟩
  · rw [if_neg (by rw [hkept, hlen]; exact Nat.lt_irrefl _)]
    exact ⟨hsized.of_same hkept (Nat.le_of_eq hepoch.symm), hepoch ▸ hraised, c, hkept ▸ hlast,
      hepoch ▸ hc⟩
  · rw [if_pos (by rw [hnew, List.length_append, hlen]; exact Nat.lt_succ_self _)]
    refine ⟨⟨?_, fun d hd => ?_⟩, hepoch ▸ hraised, c, ?_, hepoch ▸ hc⟩
    · rw [hnew]
      refine List.rel_append hsized.rests (.cons (fun epoch hmem => ?_) .nil)
      cases hheld : held.getLast? with
      | none =>
          rw [hheld] at hmem
          exact absurd hmem List.not_mem_nil
      | some m =>
          rw [hheld] at hmem
          rw [hc]
          exact hsized.le (List.mem_of_getLast? hheld) hmem
    · rw [hepoch]
      rcases List.mem_append.mp (hnew ▸ hd) with hd | hd
      · exact hsized.epochs d hd
      · exact Nat.le_of_eq (List.mem_singleton.mp hd ▸ hc)
    · rw [hnew, List.getLast?_concat]

/-- A wrap that finds the cursor at the start of the last row leaves it there. -/
theorem cursorPos_wrapped (h : Wrapped p p' numRows)
    (hstart : ∀ row col, p.cursorPos = some (row, col) → col = 0 ∧ numRows ≤ row + 1) :
    p'.cursorPos = p.cursorPos := by
  obtain ⟨⟨f, hf, hkeeps, hhome⟩, -⟩ := h
  unfold cursorPos at hstart ⊢
  rw [hf, getLast?_updateLast]
  cases hlast : p.cursors.getLast? with
  | none => rfl
  | some c =>
      obtain ⟨-, hactive⟩ := hkeeps c
      obtain ⟨hcol, hrow⟩ := hhome c
      rw [hlast] at hstart
      by_cases hc : c.active = true
      · obtain ⟨hzero, hlastRow⟩ := hstart c.row c.col (by simp [Option.filter_some, hc])
        rw [if_neg (Nat.not_lt.mpr hlastRow)] at hrow
        simp [Option.filter_some, hactive, hc, hcol, hrow, hzero]
      · simp [Option.filter_some, hactive, hc]

theorem Tracks.updateLast {f : ConditionalCursorMove → ConditionalCursorMove}
    {g : List Nat → List Nat} (h : Tracks p marks) (hcursors : p'.cursors = updateLast f p.cursors)
    (hf : KeepsEpoch f) (hepoch : p.predictionEpoch ≤ p'.predictionEpoch)
    (hg : ∀ c m, p.cursors.getLast? = some c → Rests c m → Rests c (g m)) :
    Tracks p' (Morsh.updateLast g marks) where
  rests := by
    rw [hcursors]
    refine forall₂_updateLast h.rests fun c m hlast hrests epoch hmem => ?_
    rw [(hf c).1]
    exact hg c m hlast hrests epoch hmem
  epochs d hd := by
    rw [hcursors] at hd
    obtain ⟨c, hc, rfl | rfl⟩ := mem_updateLast hd
    · exact Nat.le_trans (h.epochs _ hc) hepoch
    · rw [(hf c).1]
      exact Nat.le_trans (h.epochs c hc) hepoch

theorem keyMarks_tracks {cellAt : Nat → Nat → Char} (h : Tracks p marks)
    (hleft : ¬ Wraps p ch row col numCols numRows)
    (hkey : p.newUserByte ch row col numCols numRows now cellAt = some p') :
    Tracks p' (keyMarks p p' row col numCols numRows marks) := by
  unfold newUserByte at hkey
  unfold keyMarks
  by_cases hpref : p.displayPreference = .never
  · rw [if_pos hpref] at hkey ⊢
    cases hkey
    exact h
  rw [if_neg hpref] at hkey ⊢
  obtain ⟨hbegun, hraised, last, hlast, hnewest⟩ := h.prepare row col numCols numRows
  dsimp only
  split
  · next hnone => exact .none hnone
  next hsome =>
  have hkeep : ∀ c m, (p.prepare row col numCols numRows).cursors.getLast? = some c →
      Rests c m → Rests c (id m) := fun _ _ _ hrests => hrests
  rcases dispatch_moved hkey with (⟨hnone, -⟩ | ⟨hmoved, hf, hepoch⟩) |
    ⟨hground, hprintable, hmargin, hwrapped⟩
  · exact absurd hnone hsome
  · split
    · rw [← updateLast_id (begunMarks p row col numCols numRows marks)]
      exact hbegun.updateLast hmoved hf (Nat.le_of_eq hepoch.symm) hkeep
    · refine hbegun.updateLast hmoved hf (Nat.le_of_eq hepoch.symm)
        fun c m hc hrests epoch hmem => ?_
      rw [hlast] at hc
      cases hc
      rw [hnewest]
      rcases List.mem_append.mp hmem with hmem | hmem
      · exact hnewest ▸ hrests epoch hmem
      · rcases List.mem_cons.mp hmem with rfl | hmem
        · exact Nat.le_refl _
        · obtain ⟨i, hi, rfl⟩ := List.mem_range'.mp hmem
          omega
  · have hsame := cursorPos_wrapped hwrapped fun r c hpos => by
      by_contra hnot
      have hinput : p.inputState = .ground :=
        (prepare_same row col numCols numRows hpref).1.input.symm.trans hground
      exact hleft ⟨hpref, hinput, hprintable, hmargin, r, c, hpos, by omega⟩
    rw [if_pos hsame, ← updateLast_id (begunMarks p row col numCols numRows marks)]
    obtain ⟨⟨f, hf, hkeeps, -⟩, hepoch⟩ := hwrapped
    exact hbegun.updateLast hf hkeeps hepoch hkeep

theorem forall₂_filter_zip {α β : Type} {R : α → β → Prop} (keep : α → Bool) {as : List α}
    {bs : List β} (h : List.Forall₂ R as bs) :
    List.Forall₂ R (as.filter keep) (((as.zip bs).filter fun e => keep e.1).map (·.2)) := by
  induction h with
  | nil => exact .nil
  | @cons a b as bs hab _ ih =>
      rw [List.zip_cons_cons]
      by_cases hkeep : keep a = true
      · rw [List.filter_cons_of_pos hkeep, List.filter_cons_of_pos (by exact hkeep)]
        exact .cons hab ih
      · rw [List.filter_cons_of_neg hkeep, List.filter_cons_of_neg (by exact hkeep)]
        exact ih

/-- A validation drops all the entries, or keeps those that are pending. The marks
are filtered by the same entries, so each entry that is kept keeps its mark. -/
theorem keptMarks_tracks (h : Tracks p marks) (now : Nat) (getCell : Nat → Nat → Char)
    (row col : Nat) :
    Tracks (p.validatePredictions now getCell row col)
      (keptMarks p (p.validatePredictions now getCell row col) row col marks) := by
  have hcases : (p.validatePredictions now getCell row col).cursors = [] ∨
      (p.validatePredictions now getCell row col).cursors = p.cursors.filter (fun c =>
          c.getValidity row col p.lastHeight p.lastWidth p.localFrameLateAcked = .pending) ∧
        (p.validatePredictions now getCell row col).predictionEpoch = p.predictionEpoch := by
    unfold validatePredictions
    dsimp only
    split
    · exact .inl rfl
    · exact .inr ⟨rfl, rfl⟩
  unfold keptMarks
  split
  · next hnone => exact .none hnone
  · next hsome =>
      obtain ⟨hcursors, hepoch⟩ := hcases.resolve_left hsome
      refine ⟨?_, fun c hc => ?_⟩
      · rw [hcursors]
        exact forall₂_filter_zip (fun c : ConditionalCursorMove => decide
          (c.getValidity row col p.lastHeight p.lastWidth p.localFrameLateAcked = .pending)) h.rests
      · rw [hcursors] at hc
        exact hepoch ▸ h.epochs c (List.mem_of_mem_filter hc)

/-- Every call that does not wrap the prediction keeps the invariant. -/
theorem step_tracks (s : EngineRun) (op : EngineOp) (s' : EngineRun)
    (h : Tracks s.engine s.marks) (hleft : s.KeepsLeft op) (hstep : s.step op = some s') :
    Tracks s'.engine s'.marks := by
  cases op with
  | newUserByte ch row col numCols numRows now cellAt =>
      obtain ⟨p', hkey, rfl⟩ := Option.map_eq_some_iff.mp hstep
      exact keyMarks_tracks h hleft hkey
  | validatePredictions now getCell row col =>
      cases hstep
      exact keptMarks_tracks h now getCell row col
  | reset =>
      cases hstep
      exact .none rfl
  | setLocalFrameSent _ | setLocalFrameAcked _ | setLocalFrameLateAcked _ | setSendInterval _
  | setDisplayPreference _ =>
      cases hstep
      exact h.of_same rfl (Nat.le_refl _)

/-- A cursor that is displayed is of a confirmed epoch, and so is all below it: no
mark of an entry is of a later epoch than the entry. -/
theorem Tracks.confirmed {s : EngineRun} (h : Tracks s.engine s.marks) : s.Confirmed := by
  intro hshown
  unfold displayCursor at hshown
  split at hshown
  · exact absurd rfl hshown
  rcases List.eq_nil_or_concat s.engine.cursors with hnone | ⟨front, c, hcursors⟩
  · rw [hnone] at hshown
    exact absurd rfl hshown
  rw [List.concat_eq_append] at hcursors
  rw [hcursors, List.getLast?_concat] at hshown
  have hconfirmed : c.tentativeUntilEpoch ≤ s.engine.confirmedEpoch := by
    by_contra hlater
    have htentative : c.isTentative s.engine.confirmedEpoch = true :=
      decide_eq_true (Nat.not_le.mp hlater)
    simp [Option.filter_some, htentative] at hshown
  have hrests := h.rests
  rw [hcursors] at hrests
  have hrev := List.forall₂_reverse_iff.mpr hrests
  rw [List.reverse_concat] at hrev
  obtain ⟨m, rest, hm, -, hmarks⟩ := List.forall₂_cons_left_iff.mp hrev
  refine ⟨m, ?_, fun epoch hmem => Nat.le_trans (hm epoch hmem) hconfirmed⟩
  rw [List.getLast?_eq_head?_reverse, hmarks]
  rfl

/-- In every run no key of which wraps the prediction, the predicted cursor is
displayed only where every keystroke that moved it, and every change of epoch
made meanwhile, is of a confirmed epoch. -/
theorem display_cursor_confirmed (now : Nat) (ops : List EngineOp) (s : EngineRun)
    (hleft : Run.Along KeepsLeft step (new now) ops)
    (hrun : Run.run step (new now) ops = some s) : s.Confirmed :=
  Tracks.confirmed <|
    Run.run_invariant_along (I := fun s => Tracks s.engine s.marks) step_tracks (.none rfl) hleft
      hrun

/-- A screen with `ch` in its first cell. -/
def firstCell (ch : Char) : Nat → Nat → Char := fun row col =>
  if row = 0 ∧ col = 0 then ch else ' '

/-- Two keys on a screen of three columns, the first of them confirmed. -/
def typeTwo : List EngineOp :=
  [.setDisplayPreference .always, .newUserByte 'a' 0 0 3 2 0 (firstCell ' '), .setLocalFrameSent 1,
    .setLocalFrameLateAcked 1, .validatePredictions 0 (firstCell 'a') 0 1,
    .newUserByte 'b' 0 1 3 2 0 (firstCell 'a')]

theorem display_cursor_confirmed_typeTwo :
    ∃ s, Run.run step (new 0) typeTwo = some s ∧ s.engine.displayCursor = some (0, 2) ∧
      s.Confirmed := by
  have heval : (Run.run step (new 0) typeTwo).map (·.engine.displayCursor)
      = some (some (0, 2)) := by
    decide +kernel
  obtain ⟨s, hrun, hshown⟩ := Option.map_eq_some_iff.mp heval
  refine ⟨s, hrun, hshown, display_cursor_confirmed 0 typeTwo s ?_ hrun⟩
  have hfirst : ∀ s : EngineRun, ¬ Wraps s.engine 'a' 0 0 3 2 := fun _ hwraps =>
    absurd hwraps.2.2.2.1 (by decide)
  have hsecond : ∀ s : EngineRun, ¬ Wraps s.engine 'b' 0 1 3 2 := fun _ hwraps =>
    absurd hwraps.2.2.2.1 (by decide)
  exact ⟨trivial, fun s _ => ⟨hfirst s, fun _ _ => ⟨trivial, fun _ _ => ⟨trivial, fun _ _ =>
    ⟨trivial, fun s _ => ⟨hsecond s, fun _ _ => trivial⟩⟩⟩⟩⟩⟩

/-- The third key is typed at the margin. The epoch is raised for it, twice, and
then the confirmed entry wraps to the next row and is displayed there. -/
theorem wrapped_cursor_displayed :
    ∃ s, Run.run step (new 0) (typeTwo ++ [.newUserByte 'c' 0 2 3 2 0 (firstCell 'a')]) = some s ∧
      s.engine.displayCursor = some (1, 0) ∧ ¬ s.Confirmed := by
  have heval : (Run.run step (new 0)
      (typeTwo ++ [.newUserByte 'c' 0 2 3 2 0 (firstCell 'a')])).map
        (fun s => (s.engine.displayCursor, decide s.Confirmed)) = some (some (1, 0), false) := by
    decide +kernel
  obtain ⟨s, hrun, h⟩ := Option.map_eq_some_iff.mp heval
  obtain ⟨hshown, hnot⟩ := Prod.mk.inj h
  exact ⟨s, hrun, hshown, of_decide_eq_false hnot⟩

end EngineRun

end Morsh
