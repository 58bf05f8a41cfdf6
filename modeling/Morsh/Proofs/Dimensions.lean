import Morsh.Proofs.World
import Morsh.Terminal.Vt

/-!
# A screen by its dimensions

Whatever an emulator draws, the wrapper reports the size it was created or last
resized with. So the dimensions alone are a meaning of `Complete`: a diff that
names a new size carries it, and a diff that names none is between screens of
one size.

`Sized` is the invariant: the emulator behind a screen has the size of the
screen, and neither is empty. Every operation on a state keeps it and only a
resize changes the size, so the dimensions after a message are a fold over its
instructions. A size is clamped to the range of the wire before it is used, and
within the range that is no change. The rest is an `Account` once more: the value
of the server's edits is the last size any of them asked for.
-/

namespace Morsh

open State

/-- The emulator does what it is asked: it can be created and resized at any
size that is not empty, and it renders. -/
class LawfulEmulator (T : Type) [Emulator T] : Prop where
  new_ok : ∀ cols rows, 1 ≤ cols → 1 ≤ rows →
    ∃ t : T, Emulator.new (T := T) cols rows = .ok t
  resize_ok : ∀ (t : T) cols rows, 1 ≤ cols → 1 ≤ rows →
    ∃ t' : T, Emulator.resize t cols rows = .ok t'
  render_ok : ∀ t : T, ∃ r, Emulator.render t = .ok r

namespace Complete

variable {T : Type} [Emulator T]

/-- The emulator behind a screen has its size, and neither is empty. -/
structure Sized (c : Complete T) : Prop where
  terminal : ∀ t, c.terminal = some t → (t.cols, t.rows) = c.dimensions
  cols : 1 ≤ c.screen.cols ∧ c.screen.cols ≤ 65535
  rows : 1 ≤ c.screen.rowsCount ∧ c.screen.rowsCount ≤ 65535

variable [LawfulEmulator T]

omit [LawfulEmulator T] in
theorem snapshot_size {m : MoshTerminal T} {screen : ScreenSnapshot}
    (h : m.snapshot = .ok screen) : screen.cols = m.cols ∧ screen.rowsCount = m.rows := by
  unfold MoshTerminal.snapshot at h
  cases hr : Emulator.render m.terminal with
  | error e => rw [hr] at h; cases h
  | ok r => rw [hr] at h; cases h; exact ⟨rfl, rfl⟩

theorem snapshot_ok (m : MoshTerminal T) : ∃ screen, m.snapshot = .ok screen := by
  obtain ⟨r, hr⟩ := LawfulEmulator.render_ok m.terminal
  unfold MoshTerminal.snapshot
  rw [hr]
  exact ⟨_, rfl⟩

theorem refresh_size (c : Complete T) (m : MoshTerminal T) :
    (c.refresh m).dimensions = (m.cols, m.rows) ∧ (c.refresh m).terminal = some m := by
  obtain ⟨screen, hscreen⟩ := snapshot_ok m
  obtain ⟨hcols, hrows⟩ := snapshot_size hscreen
  refine ⟨?_, rfl⟩
  simp only [refresh, dimensions, hscreen, hcols, hrows]

theorem Sized.refresh {c : Complete T} {m : MoshTerminal T} (hcols : 1 ≤ m.cols ∧ m.cols ≤ 65535)
    (hrows : 1 ≤ m.rows ∧ m.rows ≤ 65535) : (c.refresh m).Sized := by
  obtain ⟨hdim, hterm⟩ := refresh_size c m
  have hc : (c.refresh m).screen.cols = m.cols := congrArg Prod.fst hdim
  have hr : (c.refresh m).screen.rowsCount = m.rows := congrArg Prod.snd hdim
  refine ⟨fun t ht => ?_, hc ▸ hcols, hr ▸ hrows⟩
  rw [hterm] at ht
  cases ht
  exact hdim.symm

/-- There is always an emulator to write to, of the size of the screen. -/
theorem Sized.terminalMut {c : Complete T} (h : c.Sized) :
    ∃ m, c.terminalMut = .ok m ∧ (m.cols, m.rows) = c.dimensions := by
  unfold Complete.terminalMut
  cases ht : c.terminal with
  | some m => exact ⟨m, rfl, h.terminal m ht⟩
  | none =>
      obtain ⟨t, hnew⟩ := LawfulEmulator.new_ok (T := T) c.screen.cols c.screen.rowsCount
        h.cols.1 h.rows.1
      simp only [MoshTerminal.new, hnew]
      exact ⟨_, rfl, rfl⟩

theorem Sized.act {c : Complete T} (h : c.Sized) (bytes : Bytes) :
    (c.act bytes).2 = .ok () ∧ (c.act bytes).1.Sized ∧
      (c.act bytes).1.dimensions = c.dimensions := by
  obtain ⟨m, hm, hdim⟩ := h.terminalMut
  have hc : m.cols = c.screen.cols := congrArg Prod.fst hdim
  have hr : m.rows = c.screen.rowsCount := congrArg Prod.snd hdim
  unfold Complete.act
  rw [hm]
  exact ⟨rfl, Sized.refresh (m := m.write bytes) (hc ▸ h.cols) (hr ▸ h.rows),
    (refresh_size c (m.write bytes)).1.trans hdim⟩

theorem Sized.resize {c : Complete T} (h : c.Sized) (size : PtySize) :
    (c.resize size.cols size.rows).2 = .ok () ∧ (c.resize size.cols size.rows).1.Sized ∧
      (c.resize size.cols size.rows).1.dimensions = (size.cols, size.rows) := by
  obtain ⟨m, hm, -⟩ := h.terminalMut
  obtain ⟨t, ht⟩ := LawfulEmulator.resize_ok m.terminal size.cols size.rows
    size.cols_range.1 size.rows_range.1
  unfold Complete.resize MoshTerminal.resize
  rw [hm]
  simp only [ht]
  exact ⟨trivial, Sized.refresh size.cols_range size.rows_range, (refresh_size c _).1⟩

theorem clampSize_ofNat {n : Nat} (h : 1 ≤ n ∧ n ≤ 65535) :
    clampSize (Int32.ofNat n) = n := by
  rw [clampSize, Int32.toInt_ofNat_of_lt (by omega)]
  omega

/-- Instructions other than a resize keep the size. -/
theorem Sized.applyInstruction {c : Complete T} (h : c.Sized) {inst : HostInstruction}
    {c' : Complete T} (happly : c.applyInstruction inst = .ok c') :
    c'.Sized ∧ c'.dimensions = match inst.hostbytes, inst.resize with
      | none, some r => (clampSize (r.width.getD 80), clampSize (r.height.getD 24))
      | _, _ => c.dimensions := by
  obtain ⟨hostbytes, resize, echoack⟩ := inst
  unfold Complete.applyInstruction at happly
  cases hostbytes with
  | some hb =>
      obtain ⟨hoststring⟩ := hb
      cases hoststring with
      | none => cases happly; exact ⟨h, rfl⟩
      | some bytes =>
          obtain ⟨hok, hsized, hdim⟩ := h.act bytes
          simp only [] at happly
          generalize c.act bytes = p at happly hok hsized hdim
          obtain ⟨c₁, res⟩ := p
          cases res with
          | error e => cases hok
          | ok u => cases happly; exact ⟨hsized, hdim⟩
  | none =>
      cases resize with
      | some r =>
          obtain ⟨hok, hsized, hdim⟩ := h.resize (.ofResize (r.width.getD 80) (r.height.getD 24))
          simp only [PtySize.ofResize] at hok hsized hdim
          simp only [] at happly
          generalize c.resize (clampSize (r.width.getD 80)) (clampSize (r.height.getD 24)) = p
            at happly hok hsized hdim
          obtain ⟨c₁, res⟩ := p
          cases res with
          | error e => cases hok
          | ok u => cases happly; exact ⟨hsized, hdim⟩
      | none =>
          simp only [] at happly
          split at happly <;> cases happly <;>
            exact ⟨⟨h.terminal, h.cols, h.rows⟩, rfl⟩

/-! ## What a diff does to the dimensions -/

/-- The dimensions after one instruction of a message. -/
def sizeOf (dim : Nat × Nat) (inst : HostInstruction) : Nat × Nat :=
  match inst.hostbytes, inst.resize with
  | none, some r => (clampSize (r.width.getD 80), clampSize (r.height.getD 24))
  | _, _ => dim

theorem Sized.applyInstructions {c c' : Complete T} (h : c.Sized) {insts : List HostInstruction}
    (happly : insts.foldlM Complete.applyInstruction c = .ok c') :
    c'.Sized ∧ c'.dimensions = insts.foldl sizeOf c.dimensions := by
  induction insts generalizing c with
  | nil => cases happly; exact ⟨h, rfl⟩
  | cons inst insts ih =>
      rw [List.foldlM_cons] at happly
      cases hstep : c.applyInstruction inst with
      | error e => rw [hstep] at happly; cases happly
      | ok c₁ =>
          rw [hstep] at happly
          obtain ⟨hsized, hdim⟩ := h.applyInstruction hstep
          obtain ⟨hsized', hdim'⟩ := ih hsized happly
          refine ⟨hsized', hdim'.trans ?_⟩
          rw [hdim]
          rfl

omit [Emulator T] [LawfulEmulator T] in
/-- The message from `existing` to `c` takes the one's dimensions to the
other's. -/
theorem Sized.diffMessage {c existing : Complete T} (h : c.Sized) :
    (diffMessage c existing).instruction.foldl sizeOf existing.dimensions = c.dimensions := by
  have hcols : clampSize (Int32.ofNat c.screen.cols) = c.screen.cols := clampSize_ofNat h.cols
  have hrows : clampSize (Int32.ofNat c.screen.rowsCount) = c.screen.rowsCount :=
    clampSize_ofNat h.rows
  -- an echo ack says nothing about the size, and neither does output
  have hecho : (if existing.echoAck ≠ c.echoAck then
      [(⟨none, none, some ⟨some c.echoAck⟩⟩ : HostInstruction)] else []).foldl sizeOf
        existing.dimensions = existing.dimensions := by
    split <;> rfl
  unfold Complete.diffMessage
  rw [List.foldl_append, hecho]
  by_cases hscreen : existing.screen = c.screen
  · rw [if_neg (not_not.mpr hscreen), List.foldl_nil, dimensions, dimensions, hscreen]
  · rw [if_pos hscreen, List.foldl_append]
    have hsize : (if existing.screen.cols ≠ c.screen.cols
          ∨ existing.screen.rowsCount ≠ c.screen.rowsCount then
        [(⟨none, some ⟨some (Int32.ofNat c.screen.cols),
          some (Int32.ofNat c.screen.rowsCount)⟩, none⟩ : HostInstruction)] else []).foldl sizeOf
        existing.dimensions = c.dimensions := by
      split
      · simp only [List.foldl_cons, List.foldl_nil, sizeOf, Option.getD_some, hcols, hrows]
        rfl
      · next hsame =>
          push Not at hsame
          rw [List.foldl_nil, dimensions, dimensions, hsame.1, hsame.2]
    rw [hsize]
    split <;> rfl

theorem Sized.new {cols rows : Nat} {c : Complete T} (hcols : 1 ≤ cols ∧ cols ≤ 65535)
    (hrows : 1 ≤ rows ∧ rows ≤ 65535) (hnew : Complete.new cols rows = .ok c) :
    c.Sized ∧ c.dimensions = (cols, rows) := by
  obtain ⟨t, ht⟩ := LawfulEmulator.new_ok (T := T) cols rows hcols.1 hrows.1
  obtain ⟨screen, hscreen⟩ := snapshot_ok (⟨t, cols, rows⟩ : MoshTerminal T)
  obtain ⟨hc, hr⟩ := snapshot_size hscreen
  have hc' : (MoshTerminal.new cols rows : Except String (MoshTerminal T))
      = .ok ⟨t, cols, rows⟩ := by rw [MoshTerminal.new, ht]; rfl
  have hok : c = ⟨some ⟨t, cols, rows⟩, screen, 0, []⟩ := by
    rw [Complete.new, hc'] at hnew
    change Except.map _ (MoshTerminal.snapshot _) = _ at hnew
    rw [hscreen] at hnew
    exact (Except.ok.inj hnew).symm
  subst hok
  have hdim : (⟨some ⟨t, cols, rows⟩, screen, 0, []⟩ : Complete T).dimensions = (cols, rows) := by
    rw [dimensions, hc, hr]
  refine ⟨⟨fun m hm => ?_, hc ▸ hcols, hr ▸ hrows⟩, hdim⟩
  cases hm
  exact hdim.symm

variable [ProstMessage HostMessage]

/-- A screen read by its dimensions. -/
def dimensionsMeaning (T : Type) [Emulator T] [LawfulEmulator T] :
    Meaning (Complete T) (Nat × Nat) where
  Frame := Unit
  rep _ c dim := c.Sized ∧ c.dimensions = dim
  le _ _ := True
  le_refl _ := trivial
  le_trans _ _ := trivial
  clone := by
    rintro _ c dim ⟨h, hdim⟩
    exact ⟨⟨fun t ht => (Option.some_ne_none t ht.symm).elim, h.cols, h.rows⟩, hdim⟩
  equal := by
    rintro _ a b va vb ⟨-, rfl⟩ ⟨-, rfl⟩ _ heq
    have hscreen : a.screen = b.screen := (of_decide_eq_true heq).2
    rw [dimensions, dimensions, hscreen]
  empty := by
    rintro _ a c va vc ⟨-, rfl⟩ ⟨hc, rfl⟩ _ hdiff
    have hmsg : diffMessage c a = default := ProstMessage.eq_default_of_encode hdiff
    have hfold := @Sized.diffMessage _ _ a hc
    rw [hmsg] at hfold
    exact hfold
  apply := by
    rintro _ _ a b c s va vc ⟨-, rfl⟩ ⟨hc, rfl⟩ _ ⟨hb, hdim⟩ hs
    have happly : decodeAndApply b (ProstMessage.encode (diffMessage c a)) = .ok s := hs
    rw [decodeAndApply, ProstMessage.decode_encode] at happly
    obtain ⟨hsized, hsize⟩ := hb.applyInstructions happly
    exact ⟨hsized, by rw [hsize, hdim, hc.diffMessage]⟩
  adopt := by
    rintro _ c dim ⟨h, hdim⟩
    have hclone : (cloneState c).terminal = none := rfl
    have hadopt : State.adoptFrom (State.clone c) c
        = ({ cloneState c with terminal := c.terminal }, { c with terminal := none }) :=
      if_pos ⟨rfl, rfl⟩
    rw [hadopt]
    exact ⟨⟨⟨h.terminal, h.cols, h.rows⟩, hdim⟩,
      ⟨⟨fun t ht => (Option.some_ne_none t ht.symm).elim, h.cols, h.rows⟩, hdim⟩⟩
  trim h := by cases h

/-- The dimensions after these edits of a terminal of 80 by 24. -/
def sizeAfterEdits (edits : List HostEdit) : Nat × Nat :=
  edits.foldl (fun dim e => match e with
    | .resize size => (size.cols, size.rows)
    | _ => dim) (80, 24)

/-- The server's edits, by what they do to the dimensions. -/
def dimensionsAccount (T : Type) [Emulator T] [LawfulEmulator T] :
    Account (Complete T) HostEdit (Nat × Nat) where
  meaning := dimensionsMeaning T
  act := HostEdit.apply
  val := sizeAfterEdits
  Handed _ _ := True
  edit_rep := by
    rintro _ c es e ⟨h, hdim⟩
    rw [sizeAfterEdits, List.foldl_append, List.foldl_cons, List.foldl_nil]
    cases e with
    | act data => exact ⟨(h.act data).2.1, (h.act data).2.2.trans hdim⟩
    | resize size => exact (h.resize size).2
    | registerInputFrame n now => exact ⟨⟨h.terminal, h.cols, h.rows⟩, hdim⟩
    | setEchoAck now => exact ⟨⟨h.terminal, h.cols, h.rows⟩, hdim⟩
  edit_le := trivial
  handed_step _ _ _ _ := trivial

end Complete

namespace VtTerminal

instance : LawfulEmulator VtTerminal where
  new_ok cols rows hcols hrows :=
    ⟨_, if_neg (not_or.mpr ⟨by omega, by omega⟩)⟩
  resize_ok t cols rows hcols hrows :=
    ⟨_, if_neg (not_or.mpr ⟨by omega, by omega⟩)⟩
  render_ok t := ⟨_, rfl⟩

/-- The state of a fresh emulator. -/
def opened (cols rows : Nat) : Complete VtTerminal :=
  let m : MoshTerminal VtTerminal := ⟨⟨.ground, .new cols rows⟩, cols, rows⟩
  ⟨some m, m.snapshot.toOption.getD (.new cols rows), 0, []⟩

theorem new_opened {cols rows : Nat} (hcols : 1 ≤ cols) (hrows : 1 ≤ rows) :
    Complete.new cols rows = .ok (opened cols rows) := by
  have hnew : Emulator.new (T := VtTerminal) cols rows = .ok ⟨.ground, .new cols rows⟩ :=
    if_neg (not_or.mpr ⟨by omega, by omega⟩)
  rw [Complete.new, MoshTerminal.new, hnew]
  rfl

end VtTerminal

end Morsh
