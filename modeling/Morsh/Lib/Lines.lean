import Mathlib.Data.List.Basic

/-!
# The lines of a text

Each line with its terminator taken off, a line feed or a carriage return and a
line feed; what is behind the last line feed is a line unless it is empty. A
text cut behind a line feed has the lines of the two pieces, and there are as
many lines as line feeds, and one more where the text does not end in one.
-/

namespace Lines

/-- A carriage return is part of the terminator. -/
def stripReturn (line : List Char) : List Char :=
  if line.getLast? = some '\r' then line.dropLast else line

/-- The lines of a text that goes on from `acc`. -/
def linesFrom (acc : List Char) : List Char → List (List Char)
  | [] => if acc = [] then [] else [acc]
  | c :: rest =>
      if c = '\n' then stripReturn acc :: linesFrom [] rest else linesFrom (acc ++ [c]) rest

/-- `str::lines`. -/
def lines (text : List Char) : List (List Char) := linesFrom [] text

theorem linesFrom_append (acc a b : List Char) :
    linesFrom acc (a ++ '\n' :: b) = linesFrom acc (a ++ ['\n']) ++ lines b := by
  induction a generalizing acc with
  | nil => rfl
  | cons c a ih =>
      rw [List.cons_append, List.cons_append, linesFrom, linesFrom]
      split
      · rw [ih, List.cons_append]
      · rw [ih]

theorem lines_append (a b : List Char) :
    lines (a ++ '\n' :: b) = lines (a ++ ['\n']) ++ lines b := linesFrom_append [] a b

theorem linesFrom_line {line : List Char} (h : '\n' ∉ line) (acc rest : List Char) :
    linesFrom acc (line ++ '\n' :: rest) = stripReturn (acc ++ line) :: lines rest := by
  induction line generalizing acc with
  | nil => rw [List.nil_append, linesFrom, if_pos rfl, List.append_nil, lines]
  | cons c line ih =>
      rw [List.mem_cons, not_or] at h
      rw [List.cons_append, linesFrom, if_neg (Ne.symm h.1), ih h.2, List.append_assoc,
        List.singleton_append]

theorem lines_line {line : List Char} (h : '\n' ∉ line) (rest : List Char) :
    lines (line ++ '\n' :: rest) = stripReturn line :: lines rest :=
  linesFrom_line h [] rest

theorem stripReturn_of_notMem {line : List Char} (h : '\r' ∉ line) : stripReturn line = line :=
  if_neg fun hlast => h (List.mem_of_getLast? hlast)

/-- Whether there is something behind the last line feed. -/
def Unfinished (text : List Char) : Prop := text.getLast?.any (· ≠ '\n') = true

instance (text : List Char) : Decidable (Unfinished text) := inferInstanceAs (Decidable (_ = _))

theorem unfinished_concat (front : List Char) (c : Char) :
    Unfinished (front ++ [c]) ↔ c ≠ '\n' := by
  rw [Unfinished, List.getLast?_concat, Option.any_some, decide_eq_true_iff]

theorem unfinished_cons (c : Char) (rest : List Char) :
    Unfinished (c :: rest) ↔ rest = [] ∧ c ≠ '\n' ∨ Unfinished rest := by
  cases rest with
  | nil => simp [Unfinished]
  | cons d rest => simp [Unfinished]

theorem length_linesFrom (acc text : List Char) :
    (linesFrom acc text).length = text.count '\n' +
      if text = [] ∧ acc ≠ [] ∨ Unfinished text then 1 else 0 := by
  induction text generalizing acc with
  | nil =>
      rw [linesFrom]
      by_cases hacc : acc = [] <;> simp [hacc, Unfinished]
  | cons c rest ih =>
      rw [linesFrom, List.count_cons]
      by_cases hc : c = '\n'
      · rw [if_pos hc, List.length_cons, ih]
        simp [unfinished_cons, hc, Nat.add_right_comm]
      · rw [if_neg hc, ih]
        simp [unfinished_cons, hc]

theorem length_lines (text : List Char) :
    (lines text).length = text.count '\n' + if Unfinished text then 1 else 0 := by
  rw [lines, length_linesFrom]
  simp

end Lines
