import Mathlib.Data.List.Induction
import Morsh.Lib.Vt.Terminal

/-!
# What a text does to a screen

`Feeds` for each of the sequences a terminal understands, from the parser's
ground state back to it.

The parser goes through a control sequence character by character, collecting
numbers; `feed_numbers` is the induction on them, and `Feeds.csi` and `Feeds.title`
put a sequence together. What a sequence then does is an equation about the
screen, and a text made of several is taken apart by `Feeds.append`. A printed
glyph is a base character and its marks, so that writing one is a single step of
the row.
-/

namespace Vt

variable {σ : Type} [Rendition σ] [CharWidth]

/-- The text takes one screen to the other, between two ground states. -/
def Feeds (s : Screen σ) (text : List Char) (s' : Screen σ) : Prop :=
  (⟨.ground, s⟩ : Terminal σ).feed text = ⟨.ground, s'⟩

variable {s s' s'' : Screen σ}

theorem Feeds.nil : Feeds s [] s := rfl

theorem Feeds.append {as bs : List Char} (h : Feeds s as s') (h' : Feeds s' bs s'') :
    Feeds s (as ++ bs) s'' := by
  unfold Feeds at *
  rw [Terminal.feed_append, h, h']

theorem Feeds.cons {c : Char} {cs : List Char} (h : Feeds s [c] s') (h' : Feeds s' cs s'') :
    Feeds s (c :: cs) s'' := @Feeds.append _ _ _ _ _ _ [c] _ h h'

/-! ## Control sequences -/

/-- Numbers in decimal, separated by semicolons. -/
def numbers (ps : List Nat) : List Char :=
  [';'].intercalate (ps.map (Nat.toDigits 10))

theorem feed_digits {priv : Bool} {pre : List Nat} (cs : List Char) (current : Nat)
    (hdigit : ∀ c ∈ cs, c.isDigit = true) :
    (⟨.csi priv pre (some current), s⟩ : Terminal σ).feed cs
      = ⟨.csi priv pre (some (Nat.ofDigitChars 10 cs current)), s⟩ := by
  induction cs generalizing current with
  | nil => rfl
  | cons c cs ih =>
      have hc := hdigit c List.mem_cons_self
      have hquery : c ≠ '?' := by rintro rfl; exact absurd hc (by decide)
      have hsemi : c ≠ ';' := by rintro rfl; exact absurd hc (by decide)
      rw [Terminal.feed_cons, Nat.ofDigitChars_cons]
      simp only [Terminal.step, if_neg hquery, if_neg hsemi, if_pos hc, Option.getD_some]
      exact ih _ fun d hd => hdigit d (List.mem_cons_of_mem c hd)

theorem feed_number {priv : Bool} {pre : List Nat} (n : Nat) :
    (⟨.csi priv pre none, s⟩ : Terminal σ).feed (Nat.toDigits 10 n)
      = ⟨.csi priv pre (some n), s⟩ := by
  have hdigit : ∀ c ∈ Nat.toDigits 10 n, c.isDigit = true :=
    fun c hc => Nat.isDigit_of_mem_toDigits (by decide) (by decide) hc
  have hvalue := Nat.ofDigitChars_ten_toDigits (n := n)
  obtain ⟨c, cs, hcs⟩ := List.exists_cons_of_ne_nil (Nat.toDigits_ne_nil (b := 10) (n := n))
  rw [hcs] at hdigit hvalue ⊢
  have hc := hdigit c List.mem_cons_self
  have hquery : c ≠ '?' := by rintro rfl; exact absurd hc (by decide)
  have hsemi : c ≠ ';' := by rintro rfl; exact absurd hc (by decide)
  rw [Terminal.feed_cons]
  simp only [Terminal.step, if_neg hquery, if_neg hsemi, if_pos hc, Option.getD_none]
  rw [feed_digits cs _ fun d hd => hdigit d (List.mem_cons_of_mem c hd),
    ← Nat.ofDigitChars_cons, hvalue]

omit [CharWidth] in
theorem numbers_cons_cons (n m : Nat) (ps : List Nat) :
    numbers (n :: m :: ps) = Nat.toDigits 10 n ++ ';' :: numbers (m :: ps) := by
  simp [numbers, List.intercalate]

theorem feed_numbers {priv : Bool} {pre : List Nat} (n : Nat) (ps : List Nat) :
    ∃ init last, (⟨.csi priv pre none, s⟩ : Terminal σ).feed (numbers (n :: ps))
      = ⟨.csi priv init (some last), s⟩ ∧ init ++ [last] = pre ++ n :: ps := by
  induction ps generalizing pre n with
  | nil =>
      refine ⟨pre, n, ?_, rfl⟩
      have hone : numbers [n] = Nat.toDigits 10 n := by simp [numbers, List.intercalate]
      rw [hone, feed_number]
  | cons m ps ih =>
      obtain ⟨init, last, hfeed, hall⟩ := @ih (pre ++ [n]) m
      refine ⟨init, last, ?_, by rw [hall]; simp⟩
      rw [numbers_cons_cons, Terminal.feed_append, feed_number, Terminal.feed_cons]
      exact hfeed

omit [CharWidth] in
theorem finish_append (init : List Nat) (last : Nat) :
    finish init (some last) = init ++ [last] := by
  unfold finish
  split
  · next h => rw [h]; rfl
  · rfl

theorem step_final {priv : Bool} {params : List Nat} {current : Option Nat} {f : Char}
    (hf : f ≠ '?' ∧ f ≠ ';' ∧ f.isDigit = false) :
    (⟨.csi priv params current, s⟩ : Terminal σ).step f
      = ⟨.ground, s.dispatch priv (finish params current) f⟩ := by
  obtain ⟨hquery, hsemi, hdigit⟩ := hf
  simp [Terminal.step, hquery, hsemi, hdigit]

theorem Feeds.csi {f : Char} (hf : f ≠ '?' ∧ f ≠ ';' ∧ f.isDigit = false) (ps : List Nat) :
    Feeds s ('\x1b' :: '[' :: (numbers ps ++ [f])) (s.dispatch false ps f) := by
  have hstart : ∀ cs, (⟨.ground, s⟩ : Terminal σ).feed ('\x1b' :: '[' :: cs)
      = (⟨.csi false [] none, s⟩ : Terminal σ).feed cs := fun cs => rfl
  rw [Feeds, hstart, Terminal.feed_append]
  cases ps with
  | nil => exact step_final hf
  | cons n ps =>
      obtain ⟨init, last, hfeed, hall⟩ := @feed_numbers _ _ _ s false [] n ps
      rw [hfeed, Terminal.feed_cons, step_final hf, finish_append, hall]
      rfl

theorem Feeds.mode (n : Nat) (on : Bool) :
    Feeds s ('\x1b' :: '[' :: '?' :: (Nat.toDigits 10 n ++ [if on then 'h' else 'l']))
      (s.setMode on n) := by
  have hstart : ∀ cs, (⟨.ground, s⟩ : Terminal σ).feed ('\x1b' :: '[' :: '?' :: cs)
      = (⟨.csi true [] none, s⟩ : Terminal σ).feed cs := fun cs => rfl
  rw [Feeds, hstart, Terminal.feed_append, feed_number]
  cases on <;> rfl

/-! ## The title -/

theorem feed_osc (text rest : List Char) (h : ∀ c ∈ rest, c ≠ '\x07' ∧ c ≠ '\x1b') :
    (⟨.osc text, s⟩ : Terminal σ).feed rest = ⟨.osc (text ++ rest), s⟩ := by
  induction rest generalizing text with
  | nil => simp [Terminal.feed]
  | cons c rest ih =>
      obtain ⟨hbel, hesc⟩ := h c List.mem_cons_self
      rw [Terminal.feed_cons]
      simp only [Terminal.step, if_neg hbel, if_neg hesc]
      rw [ih _ fun d hd => h d (List.mem_cons_of_mem c hd), List.append_assoc]
      rfl

theorem Feeds.title {text : List Char} (h : ∀ c ∈ text, c ≠ '\x07' ∧ c ≠ '\x1b') :
    Feeds s ('\x1b' :: ']' :: '0' :: ';' :: (text ++ ['\x07'])) { s with title := text } := by
  have hstart : ∀ cs, (⟨.ground, s⟩ : Terminal σ).feed ('\x1b' :: ']' :: '0' :: ';' :: cs)
      = (⟨.osc ['0', ';'], s⟩ : Terminal σ).feed cs := fun cs => rfl
  rw [Feeds, hstart, Terminal.feed_append, feed_osc _ _ h]
  rfl

/-! ## Printing -/

theorem Feeds.print {c : Char} (h : isControl c = false) : Feeds s [c] (s.print c) := by
  have hesc : c ≠ '\x1b' := by
    rintro rfl
    exact absurd h (by decide)
  simp [Feeds, Terminal.feed, Terminal.step, hesc, h]

theorem Feeds.carriageReturn : Feeds s ['\r'] s.carriageReturn := rfl

theorem Feeds.lineFeed : Feeds s ['\n'] s.lineFeed := rfl

theorem Feeds.mark {m : Char} (hwidth : CharWidth.width m = 0) (h : isControl m = false) :
    Feeds s [m] (s.combine m) := by
  have hprint := Feeds.print (s := s) h
  rwa [Screen.print, hwidth] at hprint

/-! ## Printing a glyph -/

namespace Screen

/-- The row of the cursor, replaced. -/
def setRow (s : Screen σ) (row : Row σ) : Screen σ := { s with grid := s.grid.set s.y row }

omit [Rendition σ] [CharWidth] in
theorem overRow_eq {row : Row σ} (hrow : s.grid[s.y]? = some row) (f : Row σ → Row σ) :
    s.overRow f = s.setRow (f row) := by
  rw [overRow, setRow, List.modify_eq_set_getElem?, hrow]
  rfl

omit [Rendition σ] [CharWidth] in
/-- A mark joins the glyph just written, wherever that left the cursor. -/
theorem combine_advance {row : Row σ} {n : Nat} (m : Char) (hy : s.y < s.grid.length)
    (hfit : s.x + n + 1 ≤ s.cols) (hwrap : s.pendingWrap = false) :
    ((s.setRow row).advance (n + 1)).combine m
      = (s.setRow (attach m row (s.x + n))).advance (n + 1) := by
  have hget : (s.grid.set s.y row)[s.y]? = some row := List.getElem?_set_self hy
  unfold advance
  by_cases hroom : s.x + (n + 1) < s.cols
  · have hx : s.x + (n + 1) - 1 = s.x + n := by omega
    rw [if_pos (show (s.setRow row).x + (n + 1) < (s.setRow row).cols from hroom),
      if_pos (show (s.setRow (attach m row (s.x + n))).x + (n + 1)
        < (s.setRow (attach m row (s.x + n))).cols from hroom)]
    unfold combine
    rw [if_neg (by simp [setRow, hwrap]), if_neg (by simp)]
    simp only [overRow, setRow, List.modify_eq_set_getElem?, hget, hx, Option.map_eq_map,
      Option.map_some, Option.getD_some, List.set_set]
  · have hx : s.cols - 1 = s.x + n := by omega
    rw [if_neg (show ¬(s.setRow row).x + (n + 1) < (s.setRow row).cols from hroom),
      if_neg (show ¬(s.setRow (attach m row (s.x + n))).x + (n + 1)
        < (s.setRow (attach m row (s.x + n))).cols from hroom)]
    unfold combine
    rw [if_pos rfl]
    simp only [overRow, setRow, List.modify_eq_set_getElem?, hget, hx, Option.map_eq_map,
      Option.map_some, Option.getD_some, List.set_set]

end Screen

variable {row : Row σ} {base : Char} {marks : List Char}

/-- A glyph of one column: a character and the marks that join it. -/
theorem Feeds.narrow (hrow : s.grid[s.y]? = some row) (hx : s.x < s.cols)
    (hlen : row.length = s.cols) (hwrap : s.pendingWrap = false)
    (hbase : CharWidth.width base = 1) (hmarks : ∀ m ∈ marks, CharWidth.width m = 0)
    (hprint : ∀ c ∈ base :: marks, isControl c = false) :
    Feeds s (base :: marks)
      ((s.setRow (putNarrow s.blank row s.x ⟨base :: marks, s.pen, .narrow⟩)).advance 1) := by
  have hy : s.y < s.grid.length := (List.getElem?_eq_some_iff.mp hrow).1
  induction marks using List.reverseRecOn with
  | nil =>
      have h := Feeds.print (s := s) (hprint base List.mem_cons_self)
      have hwrapped : s.wrap = s := by simp [Screen.wrap, hwrap]
      rw [Screen.print, hbase] at h
      simp only [Screen.printNarrow, hwrapped] at h
      rwa [Screen.overRow_eq hrow] at h
  | append_singleton marks m ih =>
      have hfirst := ih (fun c hc => hmarks c (List.mem_append_left _ hc))
        fun c hc => hprint c (by simp at hc ⊢; tauto)
      have hmark := Feeds.mark (s := (s.setRow (putNarrow s.blank row s.x
        ⟨base :: marks, s.pen, .narrow⟩)).advance 1) (hmarks m (by simp)) (hprint m (by simp))
      rw [Screen.combine_advance (n := 0) m hy hx hwrap, Nat.add_zero,
        attach_putNarrow rfl (hlen ▸ hx)] at hmark
      exact hfirst.append hmark

/-- A glyph of two columns. -/
theorem Feeds.wide (hrow : s.grid[s.y]? = some row) (hx : s.x + 1 < s.cols)
    (hlen : row.length = s.cols) (hwrap : s.pendingWrap = false)
    (hbase : CharWidth.width base = 2) (hmarks : ∀ m ∈ marks, CharWidth.width m = 0)
    (hprint : ∀ c ∈ base :: marks, isControl c = false) :
    Feeds s (base :: marks)
      ((s.setRow (putWide s.blank row s.x ⟨base :: marks, s.pen, .wide⟩)).advance 2) := by
  have hy : s.y < s.grid.length := (List.getElem?_eq_some_iff.mp hrow).1
  induction marks using List.reverseRecOn with
  | nil =>
      have h := Feeds.print (s := s) (hprint base List.mem_cons_self)
      have hwrapped : s.wrap = s := by simp [Screen.wrap, hwrap]
      rw [Screen.print, hbase] at h
      simp only [Screen.printWide, hwrapped, if_neg (show ¬s.cols < 2 by omega), if_pos hx] at h
      rwa [Screen.overRow_eq hrow] at h
  | append_singleton marks m ih =>
      have hfirst := ih (fun c hc => hmarks c (List.mem_append_left _ hc))
        fun c hc => hprint c (by simp at hc ⊢; tauto)
      have hmark := Feeds.mark (s := (s.setRow (putWide s.blank row s.x
        ⟨base :: marks, s.pen, .wide⟩)).advance 2) (hmarks m (by simp)) (hprint m (by simp))
      rw [Screen.combine_advance (n := 1) m hy hx hwrap,
        attach_putWide (hlen ▸ hx)] at hmark
      exact hfirst.append hmark

/-! ## Scrolling -/

omit [CharWidth] in
theorem Screen.scrollUp_eq {region below : List (Row σ)} (hgrid : s.grid = region ++ below)
    (htop : s.top = 0) (hbottom : region.length = s.bottom + 1) :
    s.scrollUp = { s with grid := (region ++ [s.blankRow]).drop 1 ++ below } := by
  obtain ⟨first, rest, rfl⟩ : ∃ first rest, region = first :: rest := by
    cases region with
    | nil => cases hbottom
    | cons first rest => exact ⟨first, rest, rfl⟩
  have hrest : rest.length = s.bottom := by simpa using hbottom
  simp only [Screen.scrollUp, hgrid, htop, List.cons_append, List.drop_succ_cons, List.drop_zero,
    List.take_zero, List.nil_append, Nat.sub_zero, ← hrest]
  simp

/-- Line feeds on the bottom margin scroll the region, blank lines coming in. -/
theorem Feeds.lineFeeds {region below : List (Row σ)} (n : Nat) (hgrid : s.grid = region ++ below)
    (htop : s.top = 0) (hbottom : region.length = s.bottom + 1) (hy : s.y = s.bottom)
    (hwrap : s.pendingWrap = false) :
    Feeds s (List.replicate n '\n')
      { s with grid := (region ++ List.replicate n s.blankRow).drop n ++ below } := by
  induction n generalizing s region with
  | zero =>
      have hsame : ({ s with
          grid := (region ++ List.replicate 0 s.blankRow).drop 0 ++ below } : Screen σ) = s := by
        simp [← hgrid]
      rw [hsame]
      exact Feeds.nil
  | succ n ih =>
      have hline : s.lineFeed = { s with grid := (region ++ [s.blankRow]).drop 1 ++ below } := by
        have hsame : ({ s with pendingWrap := false } : Screen σ) = s := by rw [← hwrap]
        rw [Screen.lineFeed, hsame, if_pos hy, Screen.scrollUp_eq hgrid htop hbottom]
      have hrest := ih (s := { s with grid := (region ++ [s.blankRow]).drop 1 ++ below }) rfl htop
        (by simp [hbottom]) hy hwrap
      have hgrid' : ((region ++ [s.blankRow]).drop 1 ++ List.replicate n s.blankRow).drop n
          = (region ++ List.replicate (n + 1) s.blankRow).drop (n + 1) := by
        cases region with
        | nil => cases hbottom
        | cons first rest => simp [List.replicate_succ]
      refine Feeds.cons (hline ▸ Feeds.lineFeed) ?_
      rw [← hgrid']
      exact hrest

end Vt
