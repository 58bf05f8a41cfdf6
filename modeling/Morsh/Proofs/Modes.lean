import Morsh.Proofs.Sequences

/-!
# Title and modes

`stateChanges` compares with the old snapshot, so it is right on a terminal
whose title and modes are the old ones. With nothing to compare it writes every
mode, so for the modes it is right on any terminal; the title is another matter.

There are two statements about every emitter. On a terminal where the old value
holds, the new one holds afterwards; and whatever holds, nothing but that title
or mode changes. The mouse modes exclude each other, and are written as resets of
all of them with at most one set behind; `exclusive_feeds` is the lemma for such
a group. Titles are the exception: without an old snapshot an empty title is not
written, so the terminal keeps the one it has.
-/

namespace Morsh

open Vt

variable [CharWidth] {s s' s'' : Screen CellStyle} {old : Option ScreenSnapshot}
  {new : ScreenSnapshot}

/-- The title and the modes of a snapshot. A mouse mode is set when it is the
one selected. -/
structure Announced (s : Screen CellStyle) (snap : ScreenSnapshot) : Prop where
  title : s.title = snap.title
  bracketedPaste : s.modes 2004 = snap.bracketedPaste
  mouseFocusEvent : s.modes 1004 = snap.mouseFocusEvent
  mouseAlternateScroll : s.modes 1007 = snap.mouseAlternateScroll
  mouseReporting : ∀ m, m ≠ .none → s.modes m.number = decide (snap.mouseReporting = m)
  mouseEncoding : ∀ e, e ≠ .default → s.modes e.number = decide (snap.mouseEncoding = e)

/-- Nothing but the modes in `numbers` has changed. -/
structure Switched (numbers : List Nat) (s s' : Screen CellStyle) : Prop where
  rest : s' = { s with modes := s'.modes }
  others : ∀ n ∉ numbers, s'.modes n = s.modes n

omit [CharWidth] in
theorem Switched.refl (numbers : List Nat) (s : Screen CellStyle) : Switched numbers s s :=
  ⟨rfl, fun _ _ => rfl⟩

omit [CharWidth] in
theorem Switched.trans {ns : List Nat} (h : Switched ns s s') (h' : Switched ns s' s'') :
    Switched ns s s'' := by
  refine ⟨?_, fun n hn => (h'.others n hn).trans (h.others n hn)⟩
  rw [h'.rest, h.rest]

omit [CharWidth] in
theorem switched_setMode {numbers : List Nat} {n : Nat} (on : Bool) (hn : n ∈ numbers) :
    Switched numbers s (s.setMode on n) := by
  refine ⟨rfl, fun k hk => ?_⟩
  have hne : k ≠ n := fun h => hk (h ▸ hn)
  simp [Screen.setMode, hne]

namespace DisplayDiff

theorem titleChange_feeds {old : ScreenSnapshot} (h : s.title = old.title)
    (hnew : ∀ c ∈ new.title, Vt.isControl c = false) :
    Feeds s (titleChange (some old) new) { s with title := new.title } := by
  unfold titleChange
  by_cases hsame : old.title = new.title
  · have heq : ({ s with title := new.title } : Screen CellStyle) = s := by rw [← hsame, ← h]
    simp only [if_pos hsame, heq]
    exact Feeds.nil
  · simp only [if_neg hsame]
    exact feeds_title hnew

theorem titleChange_none_feeds (hnew : ∀ c ∈ new.title, Vt.isControl c = false) :
    Feeds s (titleChange none new)
      { s with title := if new.title = [] then s.title else new.title } := by
  unfold titleChange
  by_cases hempty : new.title = []
  · simp only [if_pos hempty]
    exact Feeds.nil
  · simp only [if_neg hempty]
    exact feeds_title hnew

/-- A mode that is as it was is not written, and is as it should be: the terminal
has it as the old snapshot has it, so setting it again would change nothing. -/
theorem modeChange_feeds {number : Nat} {field : ScreenSnapshot → Bool}
    (h : ∀ o ∈ old, s.modes number = field o) :
    Feeds s (modeChange number field old new) (s.setMode (field new) number) := by
  unfold modeChange
  by_cases hsame : old.map field = some (field new)
  · obtain ⟨o, ho, hfield⟩ := Option.map_eq_some_iff.mp hsame
    have heq : s.setMode (field new) number = s := by
      have hmodes : (fun n => if n = number then field new else s.modes n) = s.modes := by
        funext n
        split
        · next hn => rw [hn, h o ho, hfield]
        · rfl
      rw [Screen.setMode, hmodes]
    rw [if_neg (not_not.mpr hsame), heq]
    exact Feeds.nil
  · rw [if_pos hsame]
    exact feeds_mode number (field new)

/-- Modes of which at most one is set: the others are reset first. The mode that
is wanted is left out, so it does not matter where it stands among them. -/
theorem resets_feeds {α : Type} [DecidableEq α] (number : α → Nat) (m : α) (ms : List α) :
    ∃ s', Feeds s (ms.flatMap fun k => if k ≠ m then mode (number k) false else []) s' ∧
      Switched (ms.map number) s s' ∧
      ∀ n, s'.modes n = if ∃ k ∈ ms, k ≠ m ∧ number k = n then false else s.modes n := by
  induction ms generalizing s with
  | nil => exact ⟨s, Feeds.nil, .refl _ s, fun n => by simp⟩
  | cons k ms ih =>
      rw [List.flatMap_cons]
      by_cases hk : k = m
      · obtain ⟨s', hfeeds, hswitched, hmodes⟩ := ih (s := s)
        refine ⟨s', by simpa [hk] using hfeeds,
          ⟨hswitched.rest, fun n hn => hswitched.others n (by simp at hn ⊢; tauto)⟩, fun n => ?_⟩
        rw [hmodes]
        simp [hk]
      · obtain ⟨s', hfeeds, hswitched, hmodes⟩ := ih (s := s.setMode false (number k))
        refine ⟨s', ?_, ?_, fun n => ?_⟩
        · rw [if_pos hk]
          exact (feeds_mode (number k) false).append hfeeds
        · refine (switched_setMode false (by simp)).trans
            ⟨hswitched.rest, fun n hn => hswitched.others n (by simp at hn ⊢; tauto)⟩
        · rw [hmodes]
          by_cases hn : number k = n
          · simp [hk, hn, Screen.setMode]
          · simp [hn, Ne.symm hn, Screen.setMode]

theorem exclusive_feeds {α : Type} [DecidableEq α] {number : α → Nat} {ms : List α} {m off : α}
    (hinj : ∀ j ∈ ms, ∀ k ∈ ms, number j = number k → j = k) (hoff : off ∉ ms)
    (hm : m ≠ off → m ∈ ms) :
    ∃ s', Feeds s ((ms.flatMap fun k => if k ≠ m then mode (number k) false else []) ++
        if m ≠ off then mode (number m) true else []) s' ∧
      Switched (ms.map number) s s' ∧
      ∀ k ∈ ms, s'.modes (number k) = decide (m = k) := by
  obtain ⟨s', hfeeds, hswitched, hmodes⟩ := resets_feeds (s := s) number m ms
  by_cases hmoff : m = off
  · refine ⟨s', by simpa [hmoff] using hfeeds, hswitched, fun k hk => ?_⟩
    have hne : k ≠ m := fun h => hoff (hmoff ▸ h ▸ hk)
    rw [hmodes, if_pos ⟨k, hk, hne, rfl⟩, decide_eq_false (Ne.symm hne)]
  · rw [if_pos hmoff]
    refine ⟨_, hfeeds.append (feeds_mode (number m) true),
      hswitched.trans (switched_setMode true (List.mem_map_of_mem (hm hmoff))), fun k hk => ?_⟩
    simp only [Screen.setMode]
    by_cases hkm : k = m
    · rw [if_pos (congrArg number hkm), decide_eq_true hkm.symm]
    · rw [if_neg fun h => hkm (hinj k hk m (hm hmoff) h), hmodes, if_pos ⟨k, hk, hkm, rfl⟩,
        decide_eq_false (Ne.symm hkm)]

variable (s old new) in
theorem mouseReportingChange_feeds :
    ∃ s', Feeds s (mouseReportingChange old new) s' ∧ Switched [9, 1000, 1002, 1003] s s' ∧
      ((∀ o ∈ old, ∀ m, m ≠ .none → s.modes m.number = decide (o.mouseReporting = m)) →
        ∀ m, m ≠ .none → s'.modes m.number = decide (new.mouseReporting = m)) := by
  unfold mouseReportingChange
  by_cases hsame : old.map (·.mouseReporting) = some new.mouseReporting
  · obtain ⟨o, ho, hfield⟩ := Option.map_eq_some_iff.mp hsame
    rw [if_neg (not_not.mpr hsame)]
    exact ⟨s, Feeds.nil, .refl _ s, fun h => hfield ▸ h o ho⟩
  · rw [if_pos hsame]
    have hall : ∀ m : MouseReporting, m ≠ .none → m ∈ [.x10, .vt200, .buttonEvent, .anyEvent] := by
      intro m hm
      cases m <;> simp_all
    obtain ⟨s', hfeeds, hswitched, hmodes⟩ := @exclusive_feeds _ s _ _ MouseReporting.number _ _
      .none (by decide) (by decide) (hall new.mouseReporting)
    exact ⟨s', hfeeds, hswitched, fun _ m hm => hmodes m (hall m hm)⟩

variable (s old new) in
theorem mouseEncodingChange_feeds :
    ∃ s', Feeds s (mouseEncodingChange old new) s' ∧ Switched [1005, 1006, 1015] s s' ∧
      ((∀ o ∈ old, ∀ e, e ≠ .default → s.modes e.number = decide (o.mouseEncoding = e)) →
        ∀ e, e ≠ .default → s'.modes e.number = decide (new.mouseEncoding = e)) := by
  unfold mouseEncodingChange
  by_cases hsame : old.map (·.mouseEncoding) = some new.mouseEncoding
  · obtain ⟨o, ho, hfield⟩ := Option.map_eq_some_iff.mp hsame
    rw [if_neg (not_not.mpr hsame)]
    exact ⟨s, Feeds.nil, .refl _ s, fun h => hfield ▸ h o ho⟩
  · rw [if_pos hsame]
    have hall : ∀ e : MouseEncoding, e ≠ .default → e ∈ [.utf8, .sgr, .urxvt] := by
      intro e he
      cases e <;> simp_all
    obtain ⟨s', hfeeds, hswitched, hmodes⟩ := @exclusive_feeds _ s _ _ MouseEncoding.number _ _
      .default (by decide) (by decide) (hall new.mouseEncoding)
    exact ⟨s', hfeeds, hswitched, fun _ e he => hmodes e (hall e he)⟩

variable (old) in
/-- The modes become those of the new snapshot, on a terminal whose modes are the
old ones, if there are old ones. Nothing else changes but the title, least of
all whether the cursor is visible. -/
theorem stateChanges_modes {text : Text} (h : ∀ o ∈ old, Announced s o)
    (htitle : Feeds s (titleChange old new) { s with title := text }) :
    ∃ s', Feeds s (stateChanges old new) s' ∧ (text = new.title → Announced s' new) ∧
      s' = { s with modes := s'.modes, title := text } ∧ s'.modes 25 = s.modes 25 := by
  have hpaste := @modeChange_feeds _ { s with title := text } old new 2004
    (·.bracketedPaste) fun o ho => (h o ho).bracketedPaste
  have hfocus := @modeChange_feeds _ (Screen.setMode { s with title := text }
    new.bracketedPaste 2004) old new 1004 (·.mouseFocusEvent) fun o ho => (h o ho).mouseFocusEvent
  have halternate := @modeChange_feeds _ (Screen.setMode (Screen.setMode
    { s with title := text } new.bracketedPaste 2004) new.mouseFocusEvent 1004) old new 1007
    (·.mouseAlternateScroll) fun o ho => (h o ho).mouseAlternateScroll
  have hflags := (((htitle.append hpaste).append hfocus).append halternate)
  generalize hs₁ : Screen.setMode _ new.mouseAlternateScroll 1007 = s₁ at hflags
  have hmodes₁ : ∀ n, s₁.modes n = if n = 1007 then new.mouseAlternateScroll
      else if n = 1004 then new.mouseFocusEvent
      else if n = 2004 then new.bracketedPaste else s.modes n := fun n => hs₁ ▸ rfl
  have hrest₁ : s₁ = { s with modes := s₁.modes, title := text } := hs₁ ▸ rfl
  obtain ⟨s₂, hfeeds₂, hswitched₂, hreporting⟩ := mouseReportingChange_feeds s₁ old new
  have hreporting := hreporting fun o ho m hm => by
    rw [← (h o ho).mouseReporting m hm, hmodes₁]
    cases m <;> simp [MouseReporting.number]
  obtain ⟨s₃, hfeeds₃, hswitched₃, hencoding⟩ := mouseEncodingChange_feeds s₂ old new
  have hencoding := hencoding fun o ho e he => by
    rw [← (h o ho).mouseEncoding e he,
      hswitched₂.others _ (by cases e <;> simp [MouseEncoding.number]), hmodes₁]
    cases e <;> simp [MouseEncoding.number]
  have hkept : ∀ n ∉ [9, 1000, 1002, 1003, 1005, 1006, 1015], s₃.modes n = s₁.modes n := by
    intro n hn
    rw [hswitched₃.others n (by simp at hn ⊢; tauto), hswitched₂.others n (by simp at hn ⊢; tauto)]
  have hrest₃ : s₃ = { s with modes := s₃.modes, title := text } := by
    rw [hswitched₃.rest, hswitched₂.rest, hrest₁]
  refine ⟨s₃, (hflags.append hfeeds₂).append hfeeds₃,
    fun htext => ⟨?_, ?_, ?_, ?_, ?_, hencoding⟩, hrest₃, ?_⟩
  · rw [hrest₃]
    exact htext
  · rw [hkept _ (by decide), hmodes₁]
    rfl
  · rw [hkept _ (by decide), hmodes₁]
    rfl
  · rw [hkept _ (by decide), hmodes₁]
    rfl
  · intro m hm
    rw [← hreporting m hm, hswitched₃.others _ (by cases m <;> simp [MouseReporting.number])]
  · rw [hkept _ (by decide), hmodes₁]
    rfl

/-- On a terminal whose title and modes are the old ones they become the new
ones. -/
theorem stateChanges_feeds {old : ScreenSnapshot} (h : Announced s old)
    (hnew : ∀ c ∈ new.title, Vt.isControl c = false) :
    ∃ s', Feeds s (stateChanges (some old) new) s' ∧ Announced s' new ∧
      s' = { s with modes := s'.modes, title := s'.title } ∧ s'.modes 25 = s.modes 25 := by
  obtain ⟨s', hfeeds, hannounced, hrest, hvisible⟩ := stateChanges_modes
    (some old) (fun o ho => Option.some.inj ho ▸ h) (titleChange_feeds h.title hnew)
  have htitle : s'.title = new.title := congrArg Screen.title hrest
  exact ⟨s', hfeeds, hannounced rfl, by rw [htitle]; exact hrest, hvisible⟩

/-! ## On any terminal -/

theorem titleChange_rest (old : Option ScreenSnapshot)
    (hnew : ∀ c ∈ new.title, Vt.isControl c = false) :
    ∃ text, Feeds s (titleChange old new) { s with title := text } := by
  unfold titleChange
  split
  · split
    · exact ⟨s.title, Feeds.nil⟩
    · exact ⟨new.title, feeds_title hnew⟩
  · split
    · exact ⟨s.title, Feeds.nil⟩
    · exact ⟨new.title, feeds_title hnew⟩

variable (s new) in
theorem modeChange_rest (number : Nat) (field : ScreenSnapshot → Bool)
    (old : Option ScreenSnapshot) :
    ∃ s', Feeds s (modeChange number field old new) s' ∧ Switched [number] s s' := by
  unfold modeChange
  split
  · exact ⟨_, feeds_mode number (field new), switched_setMode _ List.mem_cons_self⟩
  · exact ⟨s, Feeds.nil, .refl _ s⟩

/-- Whatever the title and the modes of the terminal are, nothing else changes,
and whether the cursor is visible does not. -/
theorem stateChanges_rest (old : Option ScreenSnapshot)
    (hnew : ∀ c ∈ new.title, Vt.isControl c = false) :
    ∃ s', Feeds s (stateChanges old new) s' ∧
      s' = { s with modes := s'.modes, title := s'.title } ∧ s'.modes 25 = s.modes 25 := by
  obtain ⟨text, htitle⟩ := titleChange_rest (s := s) old hnew
  obtain ⟨s₁, hpaste, hswitched₁⟩ := modeChange_rest { s with title := text } new
    2004 (·.bracketedPaste) old
  obtain ⟨s₂, hfocus, hswitched₂⟩ := modeChange_rest s₁ new 1004
    (·.mouseFocusEvent) old
  obtain ⟨s₃, halternate, hswitched₃⟩ := modeChange_rest s₂ new 1007
    (·.mouseAlternateScroll) old
  obtain ⟨s₄, hreporting, hswitched₄, -⟩ := mouseReportingChange_feeds s₃ old new
  obtain ⟨s₅, hencoding, hswitched₅, -⟩ := mouseEncodingChange_feeds s₄ old new
  have hrest : s₅ = { s with modes := s₅.modes, title := text } := by
    rw [hswitched₅.rest, hswitched₄.rest, hswitched₃.rest, hswitched₂.rest, hswitched₁.rest]
  have htext : s₅.title = text := congrArg Screen.title hrest
  refine ⟨s₅, ((((htitle.append hpaste).append hfocus).append halternate).append hreporting).append
    hencoding, by rw [htext]; exact hrest, ?_⟩
  rw [hswitched₅.others 25 (by decide), hswitched₄.others 25 (by decide),
    hswitched₃.others 25 (by decide), hswitched₂.others 25 (by decide),
    hswitched₁.others 25 (by decide)]

end DisplayDiff

end Morsh
