import Morsh.Lib.Lines
import Morsh.Lib.Utf8

/-!
# Reading lines

Bytes are cut behind each line feed, and a line is what stands in front of it.
A line that is not UTF-8 is an error, which is `none` here. Whole lines in front
of others leave those as they are.

The cut of whole lines in front of others is the induction; what a program prints
is whole lines, and ASCII, so it is read back as it was printed (`lines_println`)
whatever is behind it.
-/

namespace BufRead

open Utf8 (Partial)

/-- Whether a byte goes on with a character, or begins one. -/
def accepts : Option Partial → Nat → Bool
  | none, b => b < 0x80 || (Utf8.lead b).isSome
  | some p, b => p.low ≤ b && b ≤ p.high

/-- Whether the bytes are UTF-8 from a state on. -/
def validFrom : Option Partial → List UInt8 → Bool
  | p, [] => p = none
  | p, b :: rest => accepts p b.toNat && validFrom (Utf8.step p b.toNat).2 rest

/-- `String::from_utf8`. -/
def fromUtf8 (bytes : List UInt8) : Option (List Char) :=
  if validFrom none bytes then some (Utf8.lossy bytes) else none

/-- `read_until` a line feed, again and again, behind what was read already. -/
def cutFrom (acc : List UInt8) : List UInt8 → List (List UInt8)
  | [] => if acc = [] then [] else [acc]
  | b :: rest => if b = 10 then (acc ++ [b]) :: cutFrom [] rest else cutFrom (acc ++ [b]) rest

/-- A line without its terminator. -/
def chomp (line : List Char) : List Char :=
  if line.getLast? = some '\n' then Lines.stripReturn line.dropLast else line

/-- `BufRead::lines`. -/
def lines (bytes : List UInt8) : List (Option (List Char)) :=
  (cutFrom [] bytes).map fun line => (fromUtf8 line).map chomp

variable {a b acc rest : List UInt8}

/-- Nothing, or whole lines. -/
def Whole (bytes : List UInt8) : Prop := bytes.getLast?.all (· == 10) = true

instance (bytes : List UInt8) : Decidable (Whole bytes) := inferInstanceAs (Decidable (_ = _))

theorem cutFrom_append (acc a b : List UInt8) :
    cutFrom acc (a ++ 10 :: b) = cutFrom acc (a ++ [10]) ++ cutFrom [] b := by
  induction a generalizing acc with
  | nil => rfl
  | cons c a ih =>
      rw [List.cons_append, List.cons_append, cutFrom, cutFrom]
      split
      · rw [ih, List.cons_append]
      · rw [ih]

theorem lines_append (h : Whole a) (b : List UInt8) : lines (a ++ b) = lines a ++ lines b := by
  rcases List.eq_nil_or_concat a with rfl | ⟨front, c, rfl⟩
  · rfl
  · rw [List.concat_eq_append] at h ⊢
    rw [Whole, List.getLast?_concat, Option.all_some, beq_iff_eq] at h
    rw [h, lines, List.append_assoc, List.singleton_append, cutFrom_append, List.map_append]
    rfl

theorem cutFrom_line (h : 10 ∉ a) (acc b : List UInt8) :
    cutFrom acc (a ++ 10 :: b) = (acc ++ a ++ [10]) :: cutFrom [] b := by
  induction a generalizing acc with
  | nil => rw [List.nil_append, cutFrom, if_pos rfl, List.append_nil]
  | cons c a ih =>
      rw [List.mem_cons, not_or] at h
      rw [List.cons_append, cutFrom, if_neg (Ne.symm h.1), ih h.2]
      simp

/-! ## ASCII -/

/-- The bytes of an ASCII text. -/
def ascii (text : List Char) : List UInt8 := text.map fun c => .ofNat c.toNat

def IsAscii (text : List Char) : Prop := ∀ c ∈ text, c.toNat < 0x80

variable {text : List Char}

theorem toNat_ascii {c : Char} (h : c.toNat < 0x80) : (UInt8.ofNat c.toNat).toNat = c.toNat := by
  rw [UInt8.toNat_ofNat']
  omega

theorem step_ascii {c : Char} (h : c.toNat < 0x80) :
    Utf8.step none (UInt8.ofNat c.toNat).toNat = ([c], none) := by
  rw [toNat_ascii h, Utf8.step, Utf8.start, if_pos h, Char.ofNat_toNat]

theorem lossy_ascii (h : IsAscii text) : Utf8.lossy (ascii text) = text := by
  unfold Utf8.lossy
  induction text with
  | nil => rfl
  | cons c text ih =>
      obtain ⟨hc, htext⟩ := List.forall_mem_cons.mp h
      rw [ascii, List.map_cons, Utf8.decode_cons, step_ascii hc]
      exact congrArg (c :: ·) (ih htext)

theorem validFrom_ascii (h : IsAscii text) : validFrom none (ascii text) = true := by
  induction text with
  | nil => rfl
  | cons c text ih =>
      obtain ⟨hc, htext⟩ := List.forall_mem_cons.mp h
      rw [ascii, List.map_cons, validFrom, step_ascii hc, accepts, toNat_ascii hc,
        decide_eq_true hc, Bool.true_or, Bool.true_and]
      exact ih htext

theorem fromUtf8_ascii (h : IsAscii text) : fromUtf8 (ascii text) = some text := by
  rw [fromUtf8, if_pos (validFrom_ascii h), lossy_ascii h]

theorem lineFeed_ascii (h : IsAscii text) (hline : '\n' ∉ text) : 10 ∉ ascii text := by
  intro hmem
  obtain ⟨c, hc, hten⟩ := List.mem_map.mp hmem
  have hnat := toNat_ascii (h c hc)
  rw [hten] at hnat
  have hfeed : c = '\n' := Char.toNat_inj.mp hnat.symm
  exact hline (hfeed ▸ hc)

/-- A line that is printed is read. -/
theorem lines_println (h : IsAscii text) (hline : '\n' ∉ text) (hreturn : '\r' ∉ text)
    (rest : List UInt8) :
    lines (ascii (text ++ ['\n']) ++ rest) = some text :: lines rest := by
  have hfeed : IsAscii (text ++ ['\n']) := by
    intro c hc
    rcases List.mem_append.mp hc with hc | hc
    · exact h c hc
    · rw [List.mem_singleton.mp hc]
      decide
  have hbytes : ascii (text ++ ['\n']) = ascii text ++ [10] := List.map_append
  have hchomp : chomp (text ++ ['\n']) = text := by
    rw [chomp, List.getLast?_concat, if_pos rfl, List.dropLast_concat,
      Lines.stripReturn_of_notMem hreturn]
  rw [lines, hbytes, List.append_assoc, List.singleton_append,
    cutFrom_line (lineFeed_ascii h hline), List.nil_append, ← hbytes, List.map_cons,
    fromUtf8_ascii hfeed, Option.map_some, hchomp]
  rfl

end BufRead
