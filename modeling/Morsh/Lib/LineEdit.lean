import Mathlib.Data.List.InsertIdx

/-!
# Editing a line that is only partly known

A line of fixed length is edited at a cursor: an insertion pushes the last
element out, a deletion lets a blank in. A view gives some columns of a line and
leaves the others open. `Inserted` and `Deleted` say what the edits do to a
view; a view that is right where it says anything stays so.

`Knows` is that invariant, and there is one lemma for each edit. A column of the
new view is to the left of the edit, at it, or behind it, where it comes from its
neighbour; the view leaves the last column open after an insertion and the last
two after a deletion, so nothing has to be known of what comes in there.
-/

namespace LineEdit

variable {α : Type*}

inductive Edit (α : Type*) where
  | insert (x : α)
  | backspace

/-- A line and the column the next edit is made at. -/
structure Line (α : Type*) where
  cells : List α
  cursor : Nat

def insertAt (c : Nat) (x : α) (cells : List α) : List α :=
  (cells.insertIdx c x).take cells.length

def deleteAt (blank : α) (c : Nat) (cells : List α) : List α := cells.eraseIdx c ++ [blank]

/-- One edit; there is nothing to delete in front of the line. -/
def Line.edit (blank : α) (l : Line α) : Edit α → Line α
  | .insert x => ⟨insertAt l.cursor x l.cells, l.cursor + 1⟩
  | .backspace =>
      if l.cursor = 0 then l else ⟨deleteAt blank (l.cursor - 1) l.cells, l.cursor - 1⟩

/-- No edit is made at the right margin of `n` columns. -/
def StaysLeft (n : Nat) : Nat → List (Edit α) → Prop
  | _, [] => True
  | c, .insert _ :: rest => c + 1 < n ∧ StaysLeft n (c + 1) rest
  | c, .backspace :: rest => c < n ∧ StaysLeft n (c - 1) rest

/-- What is seen of a line of `n` columns after `x` is inserted at `c`. -/
structure Inserted (n c : Nat) (x : α) (view view' : Nat → Option α) : Prop where
  before : ∀ i < c, view' i = view i
  here : view' c = some x
  after : ∀ i, c < i → i < n - 1 → view' i = view (i - 1)
  margin : view' (n - 1) = none

/-- What is seen of it after the element in front of `c` is deleted. -/
structure Deleted (n c : Nat) (view view' : Nat → Option α) : Prop where
  before : ∀ i < c - 1, view' i = view i
  after : ∀ i, c - 1 ≤ i → i < n - 2 → view' i = view (i + 1)
  margin : ∀ i, c - 1 ≤ i → n - 2 ≤ i → i < n → view' i = none

/-- Where the view says something it is right. -/
def Knows (view : Nat → Option α) (cells : List α) : Prop :=
  ∀ i < cells.length, ∀ x, view i = some x → cells[i]? = some x

variable {n c : Nat} {x blank : α} {view view' : Nat → Option α} {cells : List α}

theorem length_insertAt (h : c ≤ cells.length) : (insertAt c x cells).length = cells.length := by
  rw [insertAt, List.length_take, List.length_insertIdx_of_le_length h]
  omega

theorem length_deleteAt (h : c < cells.length) :
    (deleteAt blank c cells).length = cells.length := by
  rw [deleteAt, List.length_append, List.length_eraseIdx_of_lt h, List.length_singleton]
  omega

theorem Knows.insertAt (h : Knows view cells) (hlen : cells.length = n) (hc : c + 1 < n)
    (hview : Inserted n c x view view') : Knows view' (insertAt c x cells) := by
  intro i hi y hy
  rw [length_insertAt (by omega), hlen] at hi
  rw [LineEdit.insertAt, List.getElem?_take_of_lt (by omega)]
  rcases Nat.lt_trichotomy i c with hlt | rfl | hgt
  · rw [hview.before i hlt] at hy
    rw [List.getElem?_insertIdx_of_lt hlt]
    exact h i (by omega) y hy
  · rw [hview.here] at hy
    rw [List.getElem?_insertIdx_self, if_pos (by omega)]
    exact hy
  · by_cases hmargin : i = n - 1
    · rw [hmargin, hview.margin] at hy
      cases hy
    · rw [hview.after i hgt (by omega)] at hy
      rw [List.getElem?_insertIdx_of_gt hgt]
      exact h (i - 1) (by omega) y hy

theorem Knows.deleteAt (h : Knows view cells) (hlen : cells.length = n) (hpos : 1 ≤ c)
    (hc : c < n) (hview : Deleted n c view view') :
    Knows view' (deleteAt blank (c - 1) cells) := by
  intro i hi y hy
  rw [length_deleteAt (by omega), hlen] at hi
  have herase : i < (cells.eraseIdx (c - 1)).length ∨ i = n - 1 := by
    rw [List.length_eraseIdx_of_lt (by omega), hlen]
    omega
  rcases herase with hin | hlast
  · rw [LineEdit.deleteAt, List.getElem?_append_left hin]
    by_cases hlt : i < c - 1
    · rw [hview.before i hlt] at hy
      rw [List.getElem?_eraseIdx_of_lt hlt]
      exact h i (by omega) y hy
    · by_cases hmargin : i < n - 2
      · rw [hview.after i (by omega) hmargin] at hy
        rw [List.getElem?_eraseIdx_of_ge (by omega)]
        exact h (i + 1) (by omega) y hy
      · rw [hview.margin i (by omega) (by omega) hi] at hy
        cases hy
  · rw [hview.margin i (by omega) (by omega) hi] at hy
    cases hy

end LineEdit
