import Morsh.Client.Console
import Morsh.Lib.Run

/-!
# Console input does not depend on where the reads end

What a `push` adds to the output is the decoding of the surrogate held back and
of its own unit, unless that is held back in turn. No pair is cut that way, so
the pieces put together are the decoding of all the units.

The invariant is `Settled`: the units pushed are the ones that have become bytes
and at most one high surrogate, which is the one the converter holds back. A
`push` keeps it, since what it decodes is the surrogate held back in front of its
own unit, and `take` moves bytes only, so it cannot matter where a read ends. A
`push` calls itself after it has given up the surrogate it held, so the second
call makes no third.
-/

namespace Morsh

/-- The UTF-8 of the lossy decoding. -/
def utf8Lossy (units : List UInt16) : Bytes := (Utf16.lossy units).flatMap String.utf8EncodeChar

theorem utf8Lossy_append {front back : List UInt16} (h : ¬Utf16.SplitsPair front back) :
    utf8Lossy (front ++ back) = utf8Lossy front ++ utf8Lossy back := by
  rw [utf8Lossy, Utf16.lossy_append h, List.flatMap_append, utf8Lossy, utf8Lossy]

namespace Utf16ToUtf8

variable {c : Utf16ToUtf8} {unit : UInt16}

theorem encode_eq (c : Utf16ToUtf8) (units : List UInt16) :
    c.encode units = { c with out := c.out ++ utf8Lossy units } := by
  unfold encode utf8Lossy Utf16.lossy
  generalize Utf16.decode units = decoded
  induction decoded generalizing c with
  | nil => simp
  | cons ch decoded ih =>
      rw [List.foldl_cons, ih, List.map_cons, List.flatMap_cons, List.append_assoc]

/-- Of a unit that is pushed, what is held back. -/
def held (unit : UInt16) : Option UInt16 := if Utf16.isHigh unit then some unit else none

/-- And what is not. -/
def passed (unit : UInt16) : List UInt16 := if Utf16.isHigh unit then [] else [unit]

theorem push_none (calls : Nat) (hpending : c.pendingHigh = none) :
    c.push (calls + 1) unit = some ⟨held unit, c.out ++ utf8Lossy (passed unit)⟩ := by
  simp only [push, hpending, held, passed]
  split
  · simp [utf8Lossy, Utf16.lossy]
  · rw [encode_eq]

/-- A `push` returns, and calls itself once at most. With no surrogate held back
the unit is decoded or held back; with one, a pair is decoded whole, and a lone
surrogate is given up before the second call, which finds none. -/
theorem push_eq (calls : Nat) (c : Utf16ToUtf8) (unit : UInt16) :
    c.push (calls + 2) unit =
      some ⟨held unit, c.out ++ utf8Lossy (c.pendingHigh.toList ++ passed unit)⟩ := by
  cases hpending : c.pendingHigh with
  | none => exact push_none (calls + 1) hpending
  | some high =>
      rw [push]
      simp only [hpending]
      split
      · next hlow =>
          have hhigh := Utf16.not_isHigh_of_isLow hlow
          simp [encode_eq, held, passed, hhigh]
      · next hlow =>
          -- the high surrogate is alone, whatever the unit is
          have hcut : ¬Utf16.SplitsPair [high] (passed unit) := by
            rintro ⟨-, low, hmem, hlow'⟩
            unfold passed at hmem
            split at hmem
            · cases hmem
            · obtain rfl := Option.some.inj hmem
              exact hlow hlow'
          rw [push_none calls (by rw [encode_eq]), encode_eq, Option.toList_some,
            utf8Lossy_append hcut, List.append_assoc]

end Utf16ToUtf8

namespace ConsoleRun

open Utf16ToUtf8

variable {r r' : ConsoleRun} {ops : List ConsoleOp}

/-- The surrogate held back is the last unit, and the rest has become bytes. -/
structure Settled (r : ConsoleRun) : Prop where
  pending : r.converter.pendingHigh = r.pushed.getLast?.filter Utf16.isHigh
  bytes : r.bytes = utf8Lossy r.settled

theorem Settled.pushed (h : Settled r) :
    r.settled ++ r.converter.pendingHigh.toList = r.pushed := by
  unfold settled
  cases hpending : r.converter.pendingHigh with
  | none => simp
  | some high =>
      have hlast := h.pending
      rw [hpending] at hlast
      obtain ⟨hlast, -⟩ := Option.filter_eq_some_iff.mp hlast.symm
      exact List.dropLast_append_getLast? high hlast

/-- What is held back is put in front of the next unit: no pair is cut. With
nothing held back the last unit was no high surrogate, and with one held back what
comes next is that one, which is not low. -/
theorem Settled.cut (h : Settled r) (back : List UInt16) :
    ¬Utf16.SplitsPair r.settled (r.converter.pendingHigh.toList ++ back) := by
  rintro ⟨⟨high, hlast, hhigh⟩, low, hfirst, hlow⟩
  have hpending := h.pending
  cases hc : r.converter.pendingHigh with
  | none =>
      rw [settled, hc] at hlast
      rw [hc, Option.mem_def.mp hlast] at hpending
      exact absurd hpending.symm (by simp [hhigh])
  | some pending =>
      rw [hc] at hpending hfirst
      obtain rfl := Option.some.inj hfirst
      have hboth := (Option.filter_eq_some_iff.mp hpending.symm).2
      rw [Utf16.not_isHigh_of_isLow hlow] at hboth
      cases hboth

theorem Settled.push (h : Settled r) (calls : Nat) (unit : UInt16) :
    ∃ r', step (calls + 2) r (.push unit) = some r' ∧ r'.pushed = r.pushed ++ [unit] ∧
      Settled r' := by
  refine ⟨_, by rw [step, push_eq]; rfl, rfl, ?_, ?_⟩
  · rw [List.getLast?_concat, Option.filter_some]
    rfl
  · have hsettled : settled ⟨⟨held unit, r.converter.out ++
        utf8Lossy (r.converter.pendingHigh.toList ++ passed unit)⟩, r.pushed ++ [unit], r.taken⟩
        = r.settled ++ (r.converter.pendingHigh.toList ++ passed unit) := by
      rw [← List.append_assoc, h.pushed, settled, held, passed]
      by_cases hhigh : Utf16.isHigh unit <;> simp [hhigh]
    rw [hsettled, utf8Lossy_append (h.cut _), ← h.bytes, ConsoleRun.bytes, ConsoleRun.bytes,
      List.append_assoc]

theorem Settled.take (h : Settled r) (calls : Nat) :
    ∃ r', step calls r .take = some r' ∧ r'.pushed = r.pushed ∧ Settled r' := by
  refine ⟨_, rfl, rfl, h.pending, ?_⟩
  have hbytes := h.bytes
  simp only [ConsoleRun.bytes, Utf16ToUtf8.take, List.flatten_append, List.flatten_singleton,
    List.append_nil] at hbytes ⊢
  exact hbytes

theorem Settled.run (h : Settled r) (calls : Nat) (ops : List ConsoleOp) :
    ∃ r', Run.run (step (calls + 2)) r ops = some r' ∧
      r'.pushed = r.pushed ++ ConsoleOp.units ops ∧ Settled r' := by
  induction ops generalizing r with
  | nil => exact ⟨r, rfl, (List.append_nil _).symm, h⟩
  | cons op ops ih =>
      cases op with
      | push unit =>
          obtain ⟨r₁, hstep, hpushed, h₁⟩ := h.push calls unit
          obtain ⟨r', hrun, hrest, h'⟩ := ih h₁
          refine ⟨r', Run.run_cons.mpr ⟨r₁, hstep, hrun⟩, ?_, h'⟩
          rw [hrest, hpushed, List.append_assoc]
          rfl
      | take =>
          obtain ⟨r₁, hstep, hpushed, h₁⟩ := h.take (calls + 2)
          obtain ⟨r', hrun, hrest, h'⟩ := ih h₁
          exact ⟨r', Run.run_cons.mpr ⟨r₁, hstep, hrun⟩, by rw [hrest, hpushed]; rfl, h'⟩

theorem settled_start : Settled start := ⟨rfl, rfl⟩

/-- Wherever the reads end, every `push` returns, and what has been taken with
what is buffered is the UTF-8 of the lossy decoding of the units pushed, but for
a high surrogate at the end, which is pending. -/
theorem reads_are_joined (calls : Nat) (ops : List ConsoleOp) :
    ∃ r, Run.run (step (calls + 2)) start ops = some r ∧ r.pushed = ConsoleOp.units ops ∧
      r.converter.pendingHigh = r.pushed.getLast?.filter Utf16.isHigh ∧
      r.bytes = (Utf16.lossy r.settled).flatMap String.utf8EncodeChar := by
  obtain ⟨r, hrun, hpushed, hsettled⟩ := settled_start.run calls ops
  exact ⟨r, hrun, hpushed, hsettled.pending, hsettled.bytes⟩

-- a pair cut by a read, then two high surrogates with no low one
example : (Run.run (step 2) start [.push 0xd83d, .take, .push 0xde00, .take, .push 0xd800,
    .push 0xd801, .push 122]).map (·.bytes)
      = some ([Char.ofNat 0x1f600, '\ufffd', '\ufffd', 'z'].flatMap String.utf8EncodeChar) := by
  decide +kernel

/-- The units of a text come out as its bytes, and none is held back. -/
theorem text_reads (calls : Nat) (text : List Char) (ops : List ConsoleOp)
    (hunits : ConsoleOp.units ops = Utf16.encode text) :
    ∃ r, Run.run (step (calls + 2)) start ops = some r ∧ r.converter.pendingHigh = none ∧
      r.bytes = text.flatMap String.utf8EncodeChar := by
  obtain ⟨r, hrun, hpushed, hsettled⟩ := settled_start.run calls ops
  have hpushed : r.pushed = Utf16.encode text := hpushed.trans hunits
  have hnone : r.converter.pendingHigh = none := by
    rw [hsettled.pending, hpushed, Option.filter_eq_none_iff]
    intro unit hunit
    simp [Utf16.encode_last text unit hunit]
  refine ⟨r, hrun, hnone, ?_⟩
  rw [hsettled.bytes, utf8Lossy, settled, hnone, hpushed, Utf16.lossy_encode]

/-- A character outside the first plane, cut in two by a read. -/
theorem text_reads_cut :
    ∃ r, Run.run (step 2) start [.push 0xd83d, .take, .push 0xde00, .push 122] = some r ∧
      r.converter.pendingHigh = none ∧
      r.bytes = [Char.ofNat 0x1f600, 'z'].flatMap String.utf8EncodeChar :=
  text_reads 0 [Char.ofNat 0x1f600, 'z'] [.push 0xd83d, .take, .push 0xde00, .push 122]
    (by decide +kernel)

end ConsoleRun

end Morsh
