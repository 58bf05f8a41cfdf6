import Mathlib.Data.List.Basic

/-!
# Decoding UTF-8 with replacement

A machine that reads a byte at a time. Each maximal part of a character that
cannot be continued becomes one replacement character, and the byte that did not
fit is read again from the start. An ASCII byte always ends a character, so the
decoding of a text cut behind one is the decoding of the two pieces.

Of the machine two facts are used. A byte gives at least one character or is kept
as part of one (`step_some`), so decoding is an induction on the bytes; and only a
line feed gives a line feed, and ends what stands in front of it, whatever the
state. Counting line feeds before or after decoding is then the same.
-/

namespace Utf8

/-- Inside a character: its value so far, the range of the next byte, and how
many bytes follow that. -/
structure Partial where
  value : Nat
  low : Nat
  high : Nat
  more : Nat
  continuation : 0x80 ≤ low
  /-- No character is written longer than it need be. -/
  long : 2 ≤ value * 64 + (low - 0x80) ∧ (more = 0 → 2 ≤ value)
  deriving DecidableEq

/-- The first byte of a character of more than one. -/
def lead (b : Nat) : Option Partial :=
  if h : 0xc2 ≤ b ∧ b ≤ 0xdf then some ⟨b - 0xc0, 0x80, 0xbf, 0, by omega, by omega⟩
  else if b = 0xe0 then some ⟨0, 0xa0, 0xbf, 1, by omega, by omega⟩
  else if b = 0xed then some ⟨13, 0x80, 0x9f, 1, by omega, by omega⟩
  else if h : 0xe1 ≤ b ∧ b ≤ 0xef then some ⟨b - 0xe0, 0x80, 0xbf, 1, by omega, by omega⟩
  else if b = 0xf0 then some ⟨0, 0x90, 0xbf, 2, by omega, by omega⟩
  else if b = 0xf4 then some ⟨4, 0x80, 0x8f, 2, by omega, by omega⟩
  else if h : 0xf1 ≤ b ∧ b ≤ 0xf3 then some ⟨b - 0xf0, 0x80, 0xbf, 2, by omega, by omega⟩
  else none

def replacement : Char := '\ufffd'

/-- A byte between characters. -/
def start (b : Nat) : List Char × Option Partial :=
  if b < 0x80 then ([Char.ofNat b], none)
  else
    match lead b with
    | some p => ([], some p)
    | none => ([replacement], none)

/-- A byte inside a character. -/
def Partial.step (p : Partial) (b : Nat) : List Char × Option Partial :=
  if h : p.low ≤ b ∧ b ≤ p.high then
    match p.more with
    | 0 => ([Char.ofNat (p.value * 64 + (b - 0x80))], none)
    | more + 1 =>
        ([], some ⟨p.value * 64 + (b - 0x80), 0x80, 0xbf, more, by omega,
          by have hlong := p.long; omega⟩)
  else (replacement :: (start b).1, (start b).2)

def step : Option Partial → Nat → List Char × Option Partial
  | none, b => start b
  | some p, b => p.step b

/-- The decoding from a state; a character that is cut off is replaced. -/
def decode : Option Partial → List UInt8 → List Char
  | none, [] => []
  | some _, [] => [replacement]
  | p, b :: rest => (step p b.toNat).1 ++ decode (step p b.toNat).2 rest

/-- `String::from_utf8_lossy`. -/
def lossy (bytes : List UInt8) : List Char := decode none bytes

variable {p : Option Partial} {b : Nat}

/-! ## Line feeds -/

theorem ofNat_ne_lineFeed {n : Nat} (h : n ≠ 10) : Char.ofNat n ≠ '\n' := by
  intro heq
  by_cases hvalid : n.isValidChar
  · rw [Char.ofNat, dif_pos hvalid] at heq
    exact h (congrArg Char.toNat heq)
  · rw [Char.ofNat, dif_neg hvalid] at heq
    cases heq

theorem start_ne (h : b ≠ 10) : '\n' ∉ (start b).1 := by
  unfold start
  split
  · rw [List.mem_singleton]
    exact (ofNat_ne_lineFeed h).symm
  · split
    · exact List.not_mem_nil
    · decide

theorem step_lineFeed (p : Option Partial) :
    ∃ out, step p 10 = (out ++ ['\n'], none) ∧ '\n' ∉ out := by
  cases p with
  | none => exact ⟨[], rfl, List.not_mem_nil⟩
  | some p =>
      refine ⟨[replacement], ?_, by decide⟩
      have hout : ¬(p.low ≤ 10 ∧ 10 ≤ p.high) := by
        have hlow := p.continuation
        omega
      rw [step, Partial.step, dif_neg hout]
      rfl

/-- No other byte gives one. -/
theorem step_ne (h : b ≠ 10) : '\n' ∉ (step p b).1 := by
  cases p with
  | none => exact start_ne h
  | some p =>
      rw [step, Partial.step]
      split
      · next hin =>
          split
          · next hmore =>
              rw [List.mem_singleton]
              have hlong := p.long.2 hmore
              exact (ofNat_ne_lineFeed (by omega)).symm
          · exact List.not_mem_nil
      · rw [List.mem_cons, not_or]
        exact ⟨by decide, start_ne h⟩

/-- A byte gives something, or stands in a character. -/
theorem step_some (p : Option Partial) (b : Nat) :
    (step p b).1 ≠ [] ∨ (step p b).2 ≠ none := by
  have hstart : (start b).1 ≠ [] ∨ (start b).2 ≠ none := by
    unfold start
    split
    · exact .inl (List.cons_ne_nil _ _)
    · split
      · exact .inr (Option.some_ne_none _)
      · exact .inl (List.cons_ne_nil _ _)
  cases p with
  | none => exact hstart
  | some p =>
      rw [step, Partial.step]
      split
      · split
        · exact .inl (List.cons_ne_nil _ _)
        · exact .inr (Option.some_ne_none _)
      · exact .inl (List.cons_ne_nil _ _)

theorem decode_cons (p : Option Partial) (b : UInt8) (rest : List UInt8) :
    decode p (b :: rest) = (step p b.toNat).1 ++ decode (step p b.toNat).2 rest := by
  cases p <;> rfl

theorem decode_nil (p : Option Partial) : '\n' ∉ decode p [] := by
  cases p with
  | none => exact List.not_mem_nil
  | some p => exact show '\n' ∉ [replacement] by decide

theorem decode_append_lineFeed (p : Option Partial) (bytes rest : List UInt8) :
    decode p (bytes ++ 10 :: rest) = decode p (bytes ++ [10]) ++ lossy rest := by
  induction bytes generalizing p with
  | nil =>
      obtain ⟨out, hstep, -⟩ := step_lineFeed p
      have hstep' : step p (10 : UInt8).toNat = (out ++ ['\n'], none) := hstep
      rw [List.nil_append, List.nil_append, decode_cons, decode_cons, hstep']
      simp [decode, lossy]
  | cons b bytes ih =>
      rw [List.cons_append, List.cons_append, decode_cons, decode_cons, ih, List.append_assoc]

theorem lossy_append_lineFeed (bytes rest : List UInt8) :
    lossy (bytes ++ 10 :: rest) = lossy (bytes ++ [10]) ++ lossy rest :=
  decode_append_lineFeed none bytes rest

theorem ne_lineFeed {b : UInt8} (h : b ≠ 10) : b.toNat ≠ 10 := by
  intro heq
  exact h (UInt8.toNat_inj.mp heq)

theorem count_decode (p : Option Partial) (bytes : List UInt8) :
    (decode p bytes).count '\n' = bytes.count 10 := by
  induction bytes generalizing p with
  | nil => rw [List.count_eq_zero.mpr (decode_nil p), List.count_nil]
  | cons b bytes ih =>
      rw [decode_cons, List.count_append, ih, List.count_cons]
      by_cases hb : b = 10
      · subst hb
        obtain ⟨out, hstep, hout⟩ := step_lineFeed p
        have hstep' : step p (10 : UInt8).toNat = (out ++ ['\n'], none) := hstep
        rw [hstep', List.count_append, List.count_eq_zero.mpr hout]
        simp [Nat.add_comm]
      · rw [List.count_eq_zero.mpr (step_ne (ne_lineFeed hb))]
        simp [hb]

/-- The decoding ends in a line feed where the bytes do, and only there. -/
theorem decode_concat (p : Option Partial) (bytes : List UInt8) (b : UInt8) :
    ∃ front c, decode p (bytes ++ [b]) = front ++ [c] ∧ (c = '\n' ↔ b = 10) := by
  induction bytes generalizing p with
  | nil =>
      rw [List.nil_append, decode_cons]
      by_cases hb : b = 10
      · subst hb
        obtain ⟨out, hstep, -⟩ := step_lineFeed p
        have hstep' : step p (10 : UInt8).toNat = (out ++ ['\n'], none) := hstep
        exact ⟨out, '\n', by rw [hstep', decode, List.append_nil], by simp⟩
      · have hnone : '\n' ∉ (step p b.toNat).1 ++ decode (step p b.toNat).2 [] := by
          rw [List.mem_append, not_or]
          exact ⟨step_ne (ne_lineFeed hb), decode_nil _⟩
        have hsome : (step p b.toNat).1 ++ decode (step p b.toNat).2 [] ≠ [] := by
          rcases step_some p b.toNat with hout | hinside
          · exact List.append_ne_nil_of_left_ne_nil hout _
          · obtain ⟨q, hq⟩ := Option.ne_none_iff_exists'.mp hinside
            rw [hq]
            exact List.append_ne_nil_of_right_ne_nil _ (List.cons_ne_nil _ _)
        have hlast := List.dropLast_append_getLast hsome
        refine ⟨_, _, hlast.symm, ?_⟩
        have hne : List.getLast _ hsome ≠ '\n' := fun heq => hnone (heq ▸ List.getLast_mem hsome)
        exact ⟨fun heq => absurd heq hne, fun heq => absurd heq hb⟩
  | cons b' bytes ih =>
      obtain ⟨front, c, hfront, hc⟩ := ih (step p b'.toNat).2
      exact ⟨_, c, by rw [List.cons_append, decode_cons, hfront, ← List.append_assoc], hc⟩

end Utf8
