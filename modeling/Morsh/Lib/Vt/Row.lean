import Mathlib.Data.List.Basic

/-!
# A row of character cells

A glyph two columns wide is a `wide` cell and the `spacer` to its right, and a
row is whole when the two only come together. Writing a cell over one half of a
glyph blanks the other half; `erase` does that, and a write is an erasure
followed by the new cells.

Every fact is about one column. `Erased` names the columns an erasure blanks, at
most two; outside of these and its own cells a write changes nothing. So what a
row holds after a write is known column by column, and a whole row stays whole.
-/

namespace Vt

inductive Kind where
  | narrow
  | wide
  | spacer
  deriving DecidableEq, Repr

structure Cell (σ : Type) where
  text : List Char
  style : σ
  kind : Kind
  deriving DecidableEq, Repr

abbrev Row (σ : Type) := List (Cell σ)

variable {σ : Type}

def Cell.blank (style : σ) : Cell σ := ⟨[' '], style, .narrow⟩

/-- The right half of a wide cell. -/
def Cell.tail (c : Cell σ) : Cell σ := ⟨[], c.style, .spacer⟩

/-- A combining character joins the cell. -/
def Cell.mark (m : Char) (c : Cell σ) : Cell σ := { c with text := c.text ++ [m] }

/-- The kind of the cell at a column. -/
def Row.kindAt (row : Row σ) (x : Nat) : Option Kind := row[x]?.map (·.kind)

/-- Blank a column and the rest of the glyph it is part of. -/
def erase (blank : Cell σ) (row : Row σ) (x : Nat) : Row σ :=
  match Row.kindAt row x with
  | some .wide => (row.set (x + 1) blank).set x blank
  | some .spacer => (row.set (x - 1) blank).set x blank
  | _ => row.set x blank

def putNarrow (blank : Cell σ) (row : Row σ) (x : Nat) (c : Cell σ) : Row σ :=
  (erase blank row x).set x c

def putWide (blank : Cell σ) (row : Row σ) (x : Nat) (c : Cell σ) : Row σ :=
  ((erase blank (erase blank row x) (x + 1)).set x c).set (x + 1) c.tail

/-- Attach a combining character to the glyph at a column. -/
def attach (m : Char) (row : Row σ) (x : Nat) : Row σ :=
  if Row.kindAt row x = some .spacer then row.modify (x - 1) (Cell.mark m)
  else row.modify x (Cell.mark m)

/-- The halves of wide glyphs come in pairs. -/
structure Whole (row : Row σ) : Prop where
  wide : ∀ {x c}, row[x]? = some c → c.kind = .wide → row[x + 1]? = some c.tail
  spacer : ∀ {x c}, row[x]? = some c → c.kind = .spacer →
    ∃ y d, x = y + 1 ∧ row[y]? = some d ∧ d.kind = .wide

variable {blank c : Cell σ} {row : Row σ} {x j : Nat}

/-! ## Erasing -/

/-- Columns that erasing column `x` blanks. -/
def Erased (row : Row σ) (x j : Nat) : Prop :=
  j = x ∨ j = x + 1 ∧ Row.kindAt row x = some .wide ∨
    j + 1 = x ∧ Row.kindAt row x = some .spacer

@[simp] theorem erase_length (blank : Cell σ) (row : Row σ) (x : Nat) :
    (erase blank row x).length = row.length := by
  unfold erase
  split <;> simp

theorem getElem?_erase_of_not (h : ¬Erased row x j) :
    (erase blank row x)[j]? = row[j]? := by
  unfold Erased at h
  push Not at h
  obtain ⟨hx, hwide, hspacer⟩ := h
  unfold erase
  split
  · next hk =>
      rw [List.getElem?_set_ne hx.symm, List.getElem?_set_ne (fun he => hwide he.symm hk)]
  · next hk =>
      by_cases hzero : x = 0
      · rw [List.getElem?_set_ne hx.symm, List.getElem?_set_ne (by omega)]
      · have hne : x - 1 ≠ j := fun he => hspacer (by omega) hk
        rw [List.getElem?_set_ne hx.symm, List.getElem?_set_ne hne]
  · rw [List.getElem?_set_ne hx.symm]

theorem getElem?_erase_of_erased (h : Erased row x j) (hj : j < row.length) :
    (erase blank row x)[j]? = some blank := by
  unfold erase
  rcases h with rfl | ⟨rfl, hk⟩ | ⟨rfl, hk⟩
  · split <;> simp [hj]
  · rw [hk]
    simp only [List.getElem?_set]
    simp [hj]
  · rw [hk]
    simp only [List.getElem?_set]
    simp [hj]

theorem kindAt_eq_some {k : Kind} :
    Row.kindAt row x = some k ↔ ∃ d, row[x]? = some d ∧ d.kind = k := by
  simp [Row.kindAt, Option.map_eq_some_iff]

theorem not_erased_of_kind (hblank : blank.kind = .narrow)
    (hget : (erase blank row x)[j]? = some c) (hc : c.kind ≠ .narrow) :
    ¬Erased row x j ∧ row[j]? = some c := by
  have hj : j < row.length := by
    rw [← erase_length blank row x]
    exact (List.getElem?_eq_some_iff.mp hget).1
  have hnot : ¬Erased row x j := by
    intro h
    rw [getElem?_erase_of_erased h hj] at hget
    exact hc (Option.some.inj hget ▸ hblank)
  exact ⟨hnot, (getElem?_erase_of_not hnot).symm.trans hget⟩

theorem Whole.erase (h : Whole row) (hblank : blank.kind = .narrow) (x : Nat) :
    Whole (erase blank row x) := by
  constructor
  · intro j c hget hc
    obtain ⟨hnot, hold⟩ := not_erased_of_kind hblank hget (by rw [hc]; decide)
    have htail := h.wide hold hc
    refine (getElem?_erase_of_not fun hhit => hnot ?_).trans htail
    rcases hhit with heq | ⟨heq, hk⟩ | ⟨heq, hk⟩
    · -- the spacer itself is the column erased
      exact Or.inr (Or.inr ⟨heq, kindAt_eq_some.mpr ⟨c.tail, heq ▸ htail, rfl⟩⟩)
    · exact Or.inl (by omega)
    · obtain ⟨d, hd, hdk⟩ := kindAt_eq_some.mp hk
      obtain ⟨y, e, hy, he, hek⟩ := h.spacer hd hdk
      have hyj : y = j + 1 := by omega
      rw [hyj, htail] at he
      cases he
      cases hek
  · intro j c hget hc
    obtain ⟨hnot, hold⟩ := not_erased_of_kind hblank hget (by rw [hc]; decide)
    obtain ⟨y, d, rfl, hd, hdk⟩ := h.spacer hold hc
    refine ⟨y, d, rfl, (getElem?_erase_of_not fun hhit => hnot ?_).trans hd, hdk⟩
    rcases hhit with rfl | ⟨rfl, hk⟩ | ⟨heq, hk⟩
    · exact Or.inr (Or.inl ⟨rfl, kindAt_eq_some.mpr ⟨d, hd, hdk⟩⟩)
    · obtain ⟨e, he, hek⟩ := kindAt_eq_some.mp hk
      rw [h.wide he hek] at hd
      cases hd
      cases hdk
    · exact Or.inl heq

/-! ## Writing -/

theorem Whole.set_narrow {d : Cell σ} (h : Whole row) (hrow : row[x]? = some d)
    (hd : d.kind = .narrow) (hc : c.kind = .narrow) : Whole (row.set x c) := by
  have hx : x < row.length := (List.getElem?_eq_some_iff.mp hrow).1
  constructor
  · intro j e hget he
    by_cases hj : x = j
    · subst hj
      rw [List.getElem?_set_self hx] at hget
      cases hget
      rw [hc] at he
      cases he
    · rw [List.getElem?_set_ne hj] at hget
      have htail := h.wide hget he
      refine (List.getElem?_set_ne fun hj' => ?_).trans htail
      rw [← hj', hrow] at htail
      cases htail
      cases hd
  · intro j e hget he
    by_cases hj : x = j
    · subst hj
      rw [List.getElem?_set_self hx] at hget
      cases hget
      rw [hc] at he
      cases he
    · rw [List.getElem?_set_ne hj] at hget
      obtain ⟨y, f, rfl, hf, hfk⟩ := h.spacer hget he
      refine ⟨y, f, rfl, (List.getElem?_set_ne fun hy => ?_).trans hf, hfk⟩
      rw [← hy, hrow] at hf
      cases hf
      rw [hd] at hfk
      cases hfk

theorem Whole.set_wide {d e : Cell σ} (h : Whole row) (hx : row[x]? = some d)
    (hd : d.kind = .narrow) (hx' : row[x + 1]? = some e) (he : e.kind = .narrow)
    (hc : c.kind = .wide) : Whole ((row.set x c).set (x + 1) c.tail) := by
  have hlen : x + 1 < row.length := (List.getElem?_eq_some_iff.mp hx').1
  have hget : ∀ j, ((row.set x c).set (x + 1) c.tail)[j]?
      = if j = x then some c else if j = x + 1 then some c.tail else row[j]? := by
    intro j
    by_cases hj : j = x
    · subst hj
      rw [if_pos rfl, List.getElem?_set_ne (by omega), List.getElem?_set_self (by omega)]
    · rw [if_neg hj]
      by_cases hj' : j = x + 1
      · subst hj'
        rw [if_pos rfl, List.getElem?_set_self (by simpa using hlen)]
      · rw [if_neg hj', List.getElem?_set_ne (Ne.symm hj'), List.getElem?_set_ne (Ne.symm hj)]
  constructor
  · intro j f hf hfk
    rw [hget] at hf ⊢
    split at hf
    · next hj =>
        cases hf
        rw [if_neg (by omega), if_pos (by omega)]
    · split at hf
      · cases hf
        cases hfk
      · next hj hj' =>
          have htail := h.wide hf hfk
          have hne : j + 1 ≠ x := by
            intro heq
            rw [heq, hx] at htail
            cases htail
            cases hd
          rw [if_neg hne, if_neg (by omega), htail]
  · intro j f hf hfk
    rw [hget] at hf
    split at hf
    · cases hf
      rw [hc] at hfk
      cases hfk
    · split at hf
      · next hj hj' => exact ⟨x, c, hj', by rw [hget, if_pos rfl], hc⟩
      · next hj hj' =>
          obtain ⟨y, g, rfl, hg, hgk⟩ := h.spacer hf hfk
          refine ⟨y, g, rfl, ?_, hgk⟩
          have hne : y ≠ x + 1 := by
            rintro rfl
            rw [hx'] at hg
            cases hg
            rw [he] at hgk
            cases hgk
          rw [hget, if_neg (by omega), if_neg hne, hg]

@[simp] theorem putNarrow_length : (putNarrow blank row x c).length = row.length := by
  simp [putNarrow]

@[simp] theorem putWide_length : (putWide blank row x c).length = row.length := by
  simp [putWide]

theorem getElem?_putNarrow_self (hx : x < row.length) :
    (putNarrow blank row x c)[x]? = some c := by
  rw [putNarrow, List.getElem?_set_self (by simpa using hx)]

/-- A write leaves every column alone but its own and the other half of the
glyph it hits. -/
theorem getElem?_putNarrow_of_ne (hj : j ≠ x)
    (hwide : j = x + 1 → Row.kindAt row x ≠ some .wide)
    (hspacer : j + 1 = x → Row.kindAt row x ≠ some .spacer) :
    (putNarrow blank row x c)[j]? = row[j]? := by
  rw [putNarrow, List.getElem?_set_ne hj.symm]
  refine getElem?_erase_of_not ?_
  rintro (h | ⟨h, hk⟩ | ⟨h, hk⟩)
  · exact hj h
  · exact hwide h hk
  · exact hspacer h hk

theorem getElem?_putWide_self (hx : x + 1 < row.length) :
    (putWide blank row x c)[x]? = some c ∧ (putWide blank row x c)[x + 1]? = some c.tail := by
  constructor
  · rw [putWide, List.getElem?_set_ne (by omega), List.getElem?_set_self (by simp; omega)]
  · rw [putWide, List.getElem?_set_self (by simpa using hx)]

theorem kindAt_erase (hblank : blank.kind = .narrow) {k : Kind} (hk : k ≠ .narrow)
    (h : Row.kindAt (erase blank row x) j = some k) : Row.kindAt row j = some k := by
  obtain ⟨d, hd, hdk⟩ := kindAt_eq_some.mp h
  exact kindAt_eq_some.mpr ⟨d, (not_erased_of_kind hblank hd (hdk ▸ hk)).2, hdk⟩

theorem getElem?_putWide_of_ne (hblank : blank.kind = .narrow) (hj : j ≠ x) (hj' : j ≠ x + 1)
    (hwide : j = x + 2 → Row.kindAt row (x + 1) ≠ some .wide)
    (hspacer : j + 1 = x → Row.kindAt row x ≠ some .spacer) :
    (putWide blank row x c)[j]? = row[j]? := by
  rw [putWide, List.getElem?_set_ne (Ne.symm hj'), List.getElem?_set_ne (Ne.symm hj)]
  have hfirst : ¬Erased row x j := by
    rintro (h | ⟨h, -⟩ | ⟨h, hk⟩)
    · exact hj h
    · exact hj' h
    · exact hspacer h hk
  refine (getElem?_erase_of_not ?_).trans (getElem?_erase_of_not hfirst)
  rintro (h | ⟨h, hk⟩ | ⟨h, -⟩)
  · exact hj' h
  · exact hwide h (kindAt_erase hblank (by decide) hk)
  · exact hj (by omega)

theorem Whole.putNarrow (h : Whole row) (hblank : blank.kind = .narrow) (hc : c.kind = .narrow)
    (hx : x < row.length) : Whole (putNarrow blank row x c) :=
  (h.erase hblank x).set_narrow (getElem?_erase_of_erased (Or.inl rfl) hx) hblank hc

theorem Whole.putWide (h : Whole row) (hblank : blank.kind = .narrow) (hc : c.kind = .wide)
    (hx : x + 1 < row.length) : Whole (putWide blank row x c) := by
  have hlen : x + 1 < (Vt.erase blank row x).length := by simpa using hx
  have hself : (Vt.erase blank (Vt.erase blank row x) (x + 1))[x + 1]? = some blank :=
    getElem?_erase_of_erased (Or.inl rfl) hlen
  have hfirst : (Vt.erase blank row x)[x]? = some blank :=
    getElem?_erase_of_erased (Or.inl rfl) (by omega)
  -- the second erasure does not bring anything back at the first column
  have hsecond : (Vt.erase blank (Vt.erase blank row x) (x + 1))[x]? = some blank := by
    by_cases hhit : Erased (Vt.erase blank row x) (x + 1) x
    · exact getElem?_erase_of_erased hhit (by omega)
    · exact (getElem?_erase_of_not hhit).trans hfirst
  exact ((h.erase hblank x).erase hblank (x + 1)).set_wide hsecond hblank hself hblank hc

/-! ## Combining characters -/

theorem attach_putNarrow {m : Char} (hc : c.kind = .narrow) (hx : x < row.length) :
    attach m (putNarrow blank row x c) x = putNarrow blank row x (c.mark m) := by
  have hself := @getElem?_putNarrow_self _ blank c _ _ hx
  have hkind : Row.kindAt (putNarrow blank row x c) x ≠ some .spacer := by
    simp [Row.kindAt, hself, hc]
  rw [attach, if_neg hkind, List.modify_eq_set_getElem?, hself, putNarrow]
  simp [putNarrow]

theorem attach_putWide {m : Char} (hx : x + 1 < row.length) :
    attach m (putWide blank row x c) (x + 1) = putWide blank row x (c.mark m) := by
  obtain ⟨hself, htail⟩ := @getElem?_putWide_self _ blank c _ _ hx
  have hkind : Row.kindAt (putWide blank row x c) (x + 1) = some .spacer := by
    simp [Row.kindAt, htail, Cell.tail]
  rw [attach, if_pos hkind, Nat.add_sub_cancel, List.modify_eq_set_getElem?, hself]
  change (putWide blank row x c).set x (c.mark m) = putWide blank row x (c.mark m)
  rw [putWide, List.set_comm _ _ (by omega), List.set_set]
  rfl

end Vt
