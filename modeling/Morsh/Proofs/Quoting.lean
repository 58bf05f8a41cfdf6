import Morsh.Lib.Shells
import Morsh.Wrapper.Quote
import Mathlib.Algebra.BigOperators.Ring.List
import Mathlib.Tactic.Common

/-!
# What the remote shell makes of a quoted argument

`shell_quote` owes the POSIX grammar one word for every string, and so a line of
them is split into the strings. The other two are right only about some strings,
and the ones they are wrong about are found by counting: a grammar gives back no
more quotes, or no more characters, than the line has paid for.

The positive halves run the grammar over a quoted word: inside the quotes every
character is put into the word, and the quoting of a quote leads back into them.
The negative halves would have to say how an arbitrary line goes wrong, and
counting spares that. A grammar is given a price for each word it returns, and a
step may add one unit to the price for each character it reads (`pwshTaken_step`,
`msvcTaken_step`); where a quoting writes fewer characters than the word costs,
the word cannot be among those returned.

`cmd.exe` does not split a line, it expands names and stops at operators. The
condition on a line is therefore about positions: what stands outside double
quotes holds no operator and no pair of percent signs with a name between them,
and a name may begin in one word and end in another. `Inert` follows the words
from left to right with what is open behind each of them.
-/

namespace Morsh

open Words

/-- A way of quoting strings, on their characters. -/
def onChars (quote : String → String) (text : List Char) : List Char :=
  (quote (.ofList text)).toList

theorem toList_joined (quote : String → String) (parts : List String) :
    (" ".intercalate (parts.map quote)).toList
      = [' '].intercalate ((parts.map String.toList).map (onChars quote)) := by
  rw [String.toList_intercalate, List.map_map, List.map_map]
  refine congrArg _ (List.map_congr_left fun part _ => ?_)
  rw [Function.comp_apply, Function.comp_apply, onChars, String.ofList_toList]

theorem toList_replaceChar {old : Char} {new : String} {text : List Char} :
    (replaceChar old new (.ofList text)).toList
      = text.flatMap fun c => if c = old then new.toList else [c] := by
  rw [replaceChar, String.toList_ofList, String.toList_ofList]

/-! ## POSIX -/

theorem posix_isBlank_of_isBare {c : Char} (h : isBare c = true) : isBlank c = false := by
  by_contra hblank
  rw [Bool.not_eq_false, isBlank, Bool.or_eq_true, beq_iff_eq, beq_iff_eq] at hblank
  rcases hblank with rfl | rfl <;> exact absurd h (by decide)

theorem posix_read_bare {c : Char} (h : isBare c = true) :
    posix.read .plain c = some (.put c .plain) := by
  have hquote : c ≠ '\'' := by rintro rfl; exact absurd h (by decide)
  have hescape : c ≠ '\\' := by rintro rfl; exact absurd h (by decide)
  have hfree : posixFree c = true := h
  simp only [posix, posix_isBlank_of_isBare h, Bool.false_eq_true, if_false, if_neg hquote,
    if_neg hescape, hfree, if_true]

/-- Inside single quotes a character is literal, and a quote is closed, escaped
and opened again. -/
theorem posix_run_quoted (c : Char) (done : List (List Char)) (word : List Char) :
    Run.run posix.step ⟨done, some word, .quoted⟩ (if c = '\'' then "'\\''".toList else [c])
      = some ⟨done, some (word ++ [c]), .quoted⟩ := by
  by_cases hquote : c = '\''
  · subst hquote
    rfl
  · rw [if_neg hquote]
    refine Run.run_cons.mpr ⟨_, Grammar.step_of_read (a := .put c .quoted) ?_, rfl⟩
    simp only [posix, if_neg hquote]

theorem posix_quotes (text : List Char) : posix.Quotes (onChars shellQuote) text := by
  by_cases hbare : String.ofList text ≠ "" ∧ text.all isBare = true
  · have hne : text ≠ [] := by
      rintro rfl
      exact hbare.1 rfl
    refine Grammar.Quotes.bare hne ?_ (fun c hc => ?_) rfl rfl
    · rw [onChars, shellQuote, String.toList_ofList, if_pos hbare, String.toList_ofList]
    · exact posix_read_bare (List.all_eq_true.mp hbare.2 c hc)
  · refine ⟨.plain, rfl, rfl, fun done => ?_⟩
    have htext : onChars shellQuote text
        = '\'' :: ((text.flatMap fun c => if c = '\'' then "'\\''".toList else [c]) ++ ['\'']) := by
      rw [onChars, shellQuote, String.toList_ofList, if_neg hbare, String.toList_append,
        String.toList_append, toList_replaceChar]
      rfl
    rw [htext]
    refine Run.run_cons.mpr ⟨⟨done, some [], .quoted⟩, rfl, Run.run_append.mpr ⟨_,
      Grammar.run_flatMap (fun c _ => posix_run_quoted c) [], ?_⟩⟩
    rfl

/-- Split by the shell, the quoted strings are the strings. That is true of any
grammar whose quoting of one string is read back as that string. -/
theorem posix_quoting_faithful (parts : List String) :
    posix.split (shellQuoteAll parts).toList = some (parts.map String.toList) := by
  rw [shellQuoteAll, toList_joined]
  exact Grammar.split_quoted rfl fun text _ => posix_quotes text

/-! ## PowerShell -/

/-- The apostrophe is the only quote in it. -/
def Straight (part : String) : Prop := ∀ c ∈ part.toList, isPwshQuote c = true → c = '\''

theorem onChars_pwshQuote (text : List Char) :
    onChars pwshQuote text
      = '\'' :: ((text.flatMap fun c => if c = '\'' then "''".toList else [c]) ++ ['\'']) := by
  rw [onChars, pwshQuote, String.toList_append, String.toList_append, toList_replaceChar]
  rfl

theorem pwsh_quotes {text : List Char} (h : ∀ c ∈ text, isPwshQuote c = true → c = '\'') :
    pwsh.Quotes (onChars pwshQuote) text := by
  refine ⟨.closing, rfl, rfl, fun done => ?_⟩
  have hliteral : ∀ c ∈ text, ∀ done word,
      Run.run pwsh.step ⟨done, some word, .string⟩ (if c = '\'' then "''".toList else [c])
        = some ⟨done, some (word ++ [c]), .string⟩ := by
    intro c hc done word
    by_cases hquote : c = '\''
    · subst hquote
      rfl
    · rw [if_neg hquote]
      refine Run.run_cons.mpr ⟨_, Grammar.step_of_read (a := .put c .string) ?_, rfl⟩
      simp only [pwsh, if_neg fun hq => hquote (h c hc hq)]
  rw [onChars_pwshQuote]
  refine Run.run_cons.mpr ⟨⟨done, some [], .string⟩, rfl, Run.run_append.mpr ⟨_,
    Grammar.run_flatMap hliteral [], ?_⟩⟩
  rfl

/-- A quote pays one. -/
def pwshPay (c : Char) : Nat := if isPwshQuote c then 1 else 0

/-- A string takes two quotes, and two for each in it. -/
def pwshCost (word : List Char) : Nat := 2 + 2 * (word.map pwshPay).sum

/-- What a scan has taken: an open string has not been closed. -/
def pwshTaken (s : Scan PwshMode) : Nat :=
  (s.done.map pwshCost).sum +
    match s.mode with
    | .plain => (s.word.map pwshCost).getD 0
    | .string => pwshCost (s.word.getD []) - 1
    | .closing => pwshCost (s.word.getD [])

theorem pwshTaken_step (s : Scan PwshMode) (c : Char) (s' : Scan PwshMode)
    (h : pwsh.step s c = some s') : pwshTaken s' ≤ pwshTaken s + pwshPay c := by
  obtain ⟨done, word, mode⟩ := s
  rw [Grammar.step] at h
  obtain ⟨a, ha, rfl⟩ := Option.map_eq_some_iff.mp h
  have hput : pwshCost (word.getD [] ++ [c]) = pwshCost (word.getD []) + 2 * pwshPay c := by
    simp [pwshCost]
    omega
  have hend : ((done ++ word.toList).map pwshCost).sum
      = (done.map pwshCost).sum + (word.map pwshCost).getD 0 := by
    cases word <;> simp
  have hword : (word.map pwshCost).getD 0 ≤ pwshCost (word.getD []) := by
    cases word <;> simp
  have hpos : 2 ≤ pwshCost (word.getD []) := Nat.le_add_right 2 _
  cases mode with
  | plain =>
      simp only [pwsh] at ha
      split at ha
      · next hquote =>
          obtain rfl := Option.some.inj ha
          have hpay : pwshPay c = 1 := if_pos hquote
          have hsame : pwshCost (word.getD []) ≤ (word.map pwshCost).getD 0 + 2 := by
            cases word <;> simp [pwshCost]
          simp only [pwshTaken, Grammar.act, Option.getD_some]
          omega
      · split at ha
        · obtain rfl := Option.some.inj ha
          simp only [pwshTaken, Grammar.act, pwsh, hend, Option.map_none, Option.getD_none]
          omega
        · cases ha
  | string =>
      simp only [pwsh] at ha
      obtain rfl := Option.some.inj ha
      split
      · next hquote =>
          have hpay : pwshPay c = 1 := if_pos hquote
          simp only [pwshTaken, Grammar.act]
          omega
      · next hother =>
          have hpay : pwshPay c = 0 := if_neg hother
          simp only [pwshTaken, Grammar.act, Option.getD_some, hput]
          omega
  | closing =>
      simp only [pwsh] at ha
      split at ha
      · next hquote =>
          obtain rfl := Option.some.inj ha
          have hpay : pwshPay c = 1 := if_pos hquote
          simp only [pwshTaken, Grammar.act, Option.getD_some, hput]
          omega
      · split at ha
        · obtain rfl := Option.some.inj ha
          simp only [pwshTaken, Grammar.act, pwsh, hend, Option.map_none, Option.getD_none]
          omega
        · cases ha

/-- What `pwsh_quote` pays for a string: a curly quote is written once. -/
theorem pay_pwshQuote (text : List Char) :
    ((onChars pwshQuote text).map pwshPay).sum
      = 2 + (text.map fun c => if c = '\'' then 2 else pwshPay c).sum := by
  have hchar : ∀ c, (((if c = '\'' then "''".toList else [c]).map pwshPay).sum)
      = if c = '\'' then 2 else pwshPay c := by
    intro c
    split
    · rfl
    · simp
  rw [onChars_pwshQuote, List.map_cons, List.map_append, List.sum_cons, List.sum_append,
    List.map_flatMap, List.flatMap, List.sum_flatten, List.map_map]
  simp only [Function.comp_def, hchar]
  have hquote : pwshPay '\'' = 1 := rfl
  simp only [hquote, List.map_singleton, List.sum_singleton]
  omega

theorem pay_pwshQuote_le (text : List Char) :
    ((onChars pwshQuote text).map pwshPay).sum ≤ pwshCost text ∧
      ((∃ c ∈ text, isPwshQuote c = true ∧ c ≠ '\'') →
        ((onChars pwshQuote text).map pwshPay).sum < pwshCost text) := by
  have hdouble : 2 * (text.map pwshPay).sum = (text.map fun c => 2 * pwshPay c).sum :=
    (List.sum_map_mul_left ..).symm
  have hle : ∀ c ∈ text, (if c = '\'' then 2 else pwshPay c) ≤ 2 * pwshPay c := by
    intro c _
    split
    · next hquote =>
        subst hquote
        exact Nat.le_refl 2
    · omega
  rw [pay_pwshQuote, pwshCost, hdouble]
  refine ⟨Nat.add_le_add_left (List.sum_le_sum hle) 2, fun hcurly => ?_⟩
  refine Nat.add_lt_add_left (List.sum_lt_sum _ _ hle ?_) 2
  obtain ⟨c, hc, hquote, hne⟩ := hcurly
  have hpay : pwshPay c = 1 := if_pos hquote
  exact ⟨c, hc, by rw [if_neg hne, hpay]; decide⟩

/-- Tokenised by PowerShell, the quoted strings are the strings if and only if
none of them holds a typographic quote. -/
theorem pwsh_quoting_faithful_iff (parts : List String) :
    pwsh.split (pwshQuoteAll parts).toList = some (parts.map String.toList) ↔
      ∀ part ∈ parts, Straight part := by
  rw [pwshQuoteAll, toList_joined]
  constructor
  · intro hsplit part hpart
    by_contra hcurly
    unfold Straight at hcurly
    push Not at hcurly
    have hblank : pwshPay ' ' = 0 := rfl
    refine @Grammar.split_quoted_ne _ pwsh _ pwshTaken pwshPay pwshCost 0 _ rfl pwshTaken_step
      (fun s hs => ?_) (fun text _ => ?_) _ (List.mem_map_of_mem hpart) ?_ hsplit
    · obtain ⟨done, word, mode⟩ := s
      cases mode with
      | string => cases hs
      | plain => cases word <;> simp [pwshTaken]
      | closing => cases word <;> simp [pwshTaken]
    · rw [hblank, Nat.add_zero]
      exact (pay_pwshQuote_le text).1
    · rw [Nat.add_zero]
      exact (pay_pwshQuote_le part.toList).2 hcurly
  · intro hstraight
    refine Grammar.split_quoted rfl fun text htext => pwsh_quotes ?_
    obtain ⟨part, hpart, rfl⟩ := List.mem_map.mp htext
    exact hstraight part hpart

/-- The string ends at a curly quote. -/
theorem pwsh_quoting_curly :
    ¬∀ parts : List String, (∀ part ∈ parts, '\x00' ∉ part.toList) →
      pwsh.split (pwshQuoteAll parts).toList = some (parts.map String.toList) := by
  intro h
  have hsplit := h ["\u2019; reboot #"] (by decide)
  revert hsplit
  decide

/-! ## cmd.exe and the C runtime -/

def hasBlank (text : List Char) : Bool := text.any isBlank

theorem onChars_cmdQuote (text : List Char) :
    onChars cmdQuote text = if hasBlank text then
        '"' :: ((text.flatMap fun c => if c = '"' then "\"\"".toList else [c]) ++ ['"'])
      else text := by
  have hblank : (text.contains ' ' || text.contains '\t') = hasBlank text := by
    rw [Bool.eq_iff_iff]
    simp only [hasBlank, isBlank, Bool.or_eq_true, List.contains_iff_mem, List.any_eq_true,
      beq_iff_eq]
    constructor
    · rintro (h | h)
      · exact ⟨_, h, .inl rfl⟩
      · exact ⟨_, h, .inr rfl⟩
    · rintro ⟨c, hc, rfl | rfl⟩
      · exact .inl hc
      · exact .inr hc
  rw [onChars, cmdQuote, String.toList_ofList, hblank]
  split
  · rw [String.toList_append, String.toList_append, toList_replaceChar]
    rfl
  · exact String.toList_ofList

/-- What `cmd_quote` makes of it is one word of the C runtime: it is not empty,
and a quote in it comes with a blank. -/
def Regroups (text : List Char) : Prop := text ≠ [] ∧ (hasBlank text = false → '"' ∉ text)

instance (text : List Char) : Decidable (Regroups text) :=
  inferInstanceAs (Decidable (_ ∧ (_ → _)))

theorem isBlank_of_hasBlank {text : List Char} (h : hasBlank text = false) {c : Char}
    (hc : c ∈ text) : isBlank c = false := by
  unfold hasBlank at h
  rw [List.any_eq_false] at h
  simpa using h c hc

theorem msvc_quotes {text : List Char} (h : Regroups text) :
    msvc.Quotes (onChars cmdQuote) text := by
  by_cases hblank : hasBlank text = true
  · refine ⟨.closing, rfl, rfl, fun done => ?_⟩
    have hliteral : ∀ c ∈ text, ∀ done word,
        Run.run msvc.step ⟨done, some word, .group⟩ (if c = '"' then "\"\"".toList else [c])
          = some ⟨done, some (word ++ [c]), .group⟩ := by
      intro c _ done word
      by_cases hquote : c = '"'
      · subst hquote
        rfl
      · rw [if_neg hquote]
        refine Run.run_cons.mpr ⟨_, Grammar.step_of_read (a := .put c .group) ?_, rfl⟩
        simp only [msvc, if_neg hquote]
    rw [onChars_cmdQuote, if_pos hblank]
    refine Run.run_cons.mpr ⟨⟨done, some [], .group⟩, rfl, Run.run_append.mpr ⟨_,
      Grammar.run_flatMap hliteral [], ?_⟩⟩
    rfl
  · have hnone : hasBlank text = false := by simpa using hblank
    refine Grammar.Quotes.bare h.1 ?_ (fun c hc => ?_) rfl rfl
    · rw [onChars_cmdQuote, if_neg hblank]
    · have hquote : c ≠ '"' := by
        rintro rfl
        exact h.2 hnone hc
      simp only [msvc, isBlank_of_hasBlank hnone hc, Bool.false_eq_true, if_false, if_neg hquote]

/-- A word that needs no double quotes around it. -/
def Unquoted (text : List Char) : Prop := text ≠ [] ∧ hasBlank text = false ∧ '"' ∉ text

instance (text : List Char) : Decidable (Unquoted text) :=
  inferInstanceAs (Decidable (_ ∧ _ ∧ _))

/-- The characters a word takes: each quote in it is doubled. -/
def msvcTake (text : List Char) : Nat :=
  text.length + text.count '"' + if Unquoted text then 0 else 2

/-- And the blank behind it. -/
def msvcCost (text : List Char) : Nat := msvcTake text + 1

def msvcTaken (s : Scan MsvcMode) : Nat :=
  (s.done.map msvcCost).sum +
    match s.mode with
    | .plain => (s.word.map msvcTake).getD 0
    | .group => (s.word.getD []).length + (s.word.getD []).count '"' + 1
    | .closing => (s.word.getD []).length + (s.word.getD []).count '"' + 2

theorem unquoted_append {text : List Char} {c : Char} (h : text = [] ∨ Unquoted text)
    (hblank : isBlank c = false) (hquote : c ≠ '"') : Unquoted (text ++ [c]) := by
  have hnone : hasBlank text = false := by
    rcases h with rfl | h
    · rfl
    · exact h.2.1
  have hno : '"' ∉ text := by
    rcases h with rfl | h
    · exact List.not_mem_nil
    · exact h.2.2
  refine ⟨by simp, ?_, ?_⟩
  · unfold hasBlank at *
    rw [List.any_append, hnone]
    simpa using hblank
  · rw [List.mem_append, not_or, List.mem_singleton]
    exact ⟨hno, hquote.symm⟩

theorem msvcTake_le (text : List Char) :
    msvcTake text ≤ text.length + text.count '"' + 2 ∧
      text.length + text.count '"' ≤ msvcTake text := by
  unfold msvcTake
  split <;> omega

theorem msvcTake_word (word : Option (List Char)) :
    (word.getD []).length + (word.getD []).count '"' ≤ (word.map msvcTake).getD 0 ∧
      (word.map msvcTake).getD 0 ≤ (word.getD []).length + (word.getD []).count '"' + 2 := by
  cases word with
  | none => simp
  | some text => exact (msvcTake_le text).symm

theorem sum_msvcCost_end (done : List (List Char)) (word : Option (List Char)) :
    ((done ++ word.toList).map msvcCost).sum
      ≤ (done.map msvcCost).sum + (word.map msvcTake).getD 0 + 1 := by
  cases word with
  | none => simp
  | some text => simp [msvcCost, Nat.add_assoc]

theorem count_put (text : List Char) {c : Char} (hquote : c ≠ '"') :
    (text ++ [c]).count '"' = text.count '"' := by
  simp [List.count_append, hquote]

/-- A character outside quotes costs one: a word it leaves unquoted was so
before. -/
theorem msvcTake_put (word : Option (List Char)) {c : Char} (hblank : isBlank c = false)
    (hquote : c ≠ '"') :
    msvcTake (word.getD [] ++ [c]) ≤ (word.map msvcTake).getD 0 + 1 := by
  have hplain := count_put (word.getD []) hquote
  have hlength : (word.getD [] ++ [c]).length = (word.getD []).length + 1 := by simp
  have hnext := msvcTake_le (word.getD [] ++ [c])
  by_cases hunquoted : word.getD [] = [] ∨ Unquoted (word.getD [])
  · have happend : Unquoted (word.getD [] ++ [c]) := unquoted_append hunquoted hblank hquote
    have hword := (msvcTake_word word).1
    simp only [msvcTake, if_pos happend]
    omega
  · cases word with
    | none => exact absurd (.inl rfl) hunquoted
    | some text =>
        rw [Option.getD_some, not_or] at hunquoted
        have htext : msvcTake text = text.length + text.count '"' + 2 := by
          rw [msvcTake, if_neg hunquoted.2]
        simp only [Option.getD_some, Option.map_some] at hplain hlength hnext ⊢
        omega

section

variable {done : List (List Char)} {word : Option (List Char)} {c : Char} {s' : Scan MsvcMode}

theorem msvcTaken_plain (h : msvc.step ⟨done, word, .plain⟩ c = some s') :
    msvcTaken s' ≤ msvcTaken ⟨done, word, .plain⟩ + 1 := by
  obtain ⟨a, ha, rfl⟩ := Option.map_eq_some_iff.mp h
  have hword := msvcTake_word word
  simp only [msvc, Option.some.injEq] at ha
  split at ha
  · subst ha
    have hend := sum_msvcCost_end done word
    simp only [msvcTaken, Grammar.act, msvc, Option.map_none, Option.getD_none]
    omega
  · next hblank =>
      split at ha
      · subst ha
        simp only [msvcTaken, Grammar.act, Option.getD_some]
        omega
      · next hquote =>
          subst ha
          have hput := msvcTake_put word (Bool.not_eq_true _ ▸ hblank) hquote
          simp only [msvcTaken, Grammar.act, Option.map_some, Option.getD_some]
          omega

theorem msvcTaken_group (h : msvc.step ⟨done, word, .group⟩ c = some s') :
    msvcTaken s' ≤ msvcTaken ⟨done, word, .group⟩ + 1 := by
  obtain ⟨a, ha, rfl⟩ := Option.map_eq_some_iff.mp h
  simp only [msvc, Option.some.injEq] at ha
  split at ha
  · subst ha
    simp only [msvcTaken, Grammar.act]
    omega
  · next hquote =>
      subst ha
      have hplain := count_put (word.getD []) hquote
      have hlength : (word.getD [] ++ [c]).length = (word.getD []).length + 1 := by simp
      simp only [msvcTaken, Grammar.act, Option.getD_some]
      omega

theorem msvcTaken_closing (h : msvc.step ⟨done, word, .closing⟩ c = some s') :
    msvcTaken s' ≤ msvcTaken ⟨done, word, .closing⟩ + 1 := by
  obtain ⟨a, ha, rfl⟩ := Option.map_eq_some_iff.mp h
  have hlength : (word.getD [] ++ [c]).length = (word.getD []).length + 1 := by simp
  simp only [msvc, Option.some.injEq] at ha
  split at ha
  · next hquote =>
      subst ha hquote
      have hcount : (word.getD [] ++ ['"']).count '"' = (word.getD []).count '"' + 1 := by simp
      simp only [msvcTaken, Grammar.act, Option.getD_some]
      omega
  · next hquote =>
      have hplain := count_put (word.getD []) hquote
      split at ha
      · subst ha
        have hend := sum_msvcCost_end done word
        have hword := (msvcTake_word word).2
        simp only [msvcTaken, Grammar.act, msvc, Option.map_none, Option.getD_none]
        omega
      · subst ha
        have hnext := msvcTake_le (word.getD [] ++ [c])
        simp only [msvcTaken, Grammar.act, Option.map_some, Option.getD_some]
        omega

end

theorem msvcTaken_step (s : Scan MsvcMode) (c : Char) (s' : Scan MsvcMode)
    (h : msvc.step s c = some s') : msvcTaken s' ≤ msvcTaken s + 1 := by
  obtain ⟨done, word, mode⟩ := s
  cases mode with
  | plain => exact msvcTaken_plain h
  | group => exact msvcTaken_group h
  | closing => exact msvcTaken_closing h

theorem length_cmdQuote (text : List Char) :
    (onChars cmdQuote text).length
      = if hasBlank text then text.length + text.count '"' + 2 else text.length := by
  have hdouble : (text.flatMap fun c => if c = '"' then "\"\"".toList else [c]).length
      = text.length + text.count '"' := by
    induction text with
    | nil => rfl
    | cons c text ih =>
        rw [List.flatMap_cons, List.length_append, ih, List.length_cons, List.count_cons]
        by_cases hquote : c = '"'
        · subst hquote
          simp
          omega
        · simp [hquote]
          omega
  rw [onChars_cmdQuote]
  split
  · rw [List.length_cons, List.length_append, hdouble]
    rfl
  · rfl

/-- What the C runtime makes of a quoted argument. Where one does not regroup, its
quotation pays for fewer characters than reading it back would take, so something
else is read. -/
theorem msvc_split_iff (words : List (List Char)) :
    msvc.split ([' '].intercalate (words.map (onChars cmdQuote))) = some words ↔
      ∀ text ∈ words, Regroups text := by
  constructor
  · intro hsplit text htext
    by_contra hbad
    have hpaid : ∀ l : List Char, (l.map fun _ => 1).sum = l.length := by simp
    refine @Grammar.split_quoted_ne _ msvc _ msvcTaken (fun _ => 1) msvcCost 2 _ rfl
      msvcTaken_step (fun s _ => ?_) (fun text _ => ?_) _ htext ?_ hsplit
    · obtain ⟨done, word, mode⟩ := s
      cases word with
      | none =>
          simp [msvcTaken]
          omega
      | some text =>
          have hbound := msvcTake_le text
          cases mode <;> simp [msvcTaken, msvcCost] <;> omega
    · have hbound := msvcTake_le text
      rw [hpaid, length_cmdQuote, msvcCost]
      split
      · next hblank =>
          have hquoted : ¬Unquoted text := fun h => by simp [h.2.1] at hblank
          rw [msvcTake, if_neg hquoted]
      · omega
    · rw [hpaid, length_cmdQuote, msvcCost, msvcTake]
      by_cases hempty : text = []
      · subst hempty
        decide
      · have hquoted : hasBlank text = false ∧ '"' ∈ text := by
          by_contra hnot
          exact hbad ⟨hempty, fun hblank hmem => hnot ⟨hblank, hmem⟩⟩
        have hpos : 0 < text.count '"' := List.count_pos_iff.mpr hquoted.2
        rw [if_neg (by simp [hquoted.1]), if_neg fun h => h.2.2 hquoted.2]
        omega
  · exact fun h => Grammar.split_quoted rfl fun text htext => msvc_quotes (h text htext)

/-- `%NAME%` stands in it. -/
def Expands (text : List Char) : Prop :=
  ∃ before name after, text = before ++ '%' :: (name ++ '%' :: after) ∧ name ≠ [] ∧ '%' ∉ name

theorem Expands.mem {text : List Char} (h : Expands text) : '%' ∈ text := by
  obtain ⟨before, name, after, rfl, -, -⟩ := h
  simp

theorem expands_cons {c : Char} {text : List Char} (hc : c ≠ '%') :
    Expands (c :: text) ↔ Expands text := by
  constructor
  · rintro ⟨before, name, after, htext, hne, hname⟩
    cases before with
    | nil => exact absurd (List.cons.inj htext).1 hc
    | cons d before => exact ⟨before, name, after, (List.cons.inj htext).2, hne, hname⟩
  · rintro ⟨before, name, after, rfl, hne, hname⟩
    exact ⟨c :: before, name, after, rfl, hne, hname⟩

theorem expands_percent_cons {c : Char} {text : List Char} :
    Expands ('%' :: c :: text) ↔ if c = '%' then Expands ('%' :: text) else '%' ∈ text := by
  constructor
  · rintro ⟨before, name, after, htext, hne, hname⟩
    split
    · next hc =>
        subst hc
        cases before with
        | nil =>
            obtain ⟨d, name, rfl⟩ := List.exists_cons_of_ne_nil hne
            rw [List.nil_append, List.cons.injEq, List.cons_append, List.cons.injEq] at htext
            exact absurd (htext.2.1 ▸ List.mem_cons_self) hname
        | cons d before => exact ⟨before, name, after, (List.cons.inj htext).2, hne, hname⟩
    · next hc =>
        cases before with
        | nil =>
            obtain ⟨d, name, rfl⟩ := List.exists_cons_of_ne_nil hne
            rw [List.nil_append, List.cons.injEq, List.cons_append, List.cons.injEq] at htext
            simp [htext.2.2]
        | cons d before =>
            rw [List.cons_append, List.cons.injEq] at htext
            have hmem : '%' ∈ c :: text := by
              rw [htext.2]
              simp
            exact (List.mem_cons.mp hmem).resolve_left (Ne.symm hc)
  · intro h
    split at h
    · next hc =>
        subst hc
        obtain ⟨before, name, after, htext, hne, hname⟩ := h
        exact ⟨'%' :: before, name, after, by rw [htext, List.cons_append], hne, hname⟩
    · next hc =>
        obtain ⟨name, after, htext, hname⟩ := List.eq_append_cons_of_mem h
        exact ⟨[], c :: name, after, by rw [htext, List.nil_append, List.cons_append],
          List.cons_ne_nil _ _, by simp [hname, Ne.symm hc]⟩

/-- What keeps `cmd.exe` from passing a bare word on, in each mode it may be in. -/
def Clear : CmdMode → List Char → Prop
  | .plain, text => ¬Expands text
  | .percent, text => ¬Expands ('%' :: text)
  | .name, text => '%' ∉ text
  | .quoted, _ => False

theorem cmdStep_bare {mode : CmdMode} {c : Char} (hmode : mode ≠ .quoted) (hquote : c ≠ '"')
    (hoperator : isCmdOperator c = false) :
    cmdStep mode c = if c = '%' then (if mode = .name then none else some .percent)
      else some (if mode = .plain then .plain else .name) := by
  cases mode with
  | quoted => exact absurd rfl hmode
  | _ =>
      simp only [cmdStep, if_neg hquote, hoperator, Bool.false_eq_true, if_false]

theorem cmdRun_bare {text : List Char} (hquote : '"' ∉ text) {mode : CmdMode}
    (hmode : mode ≠ .quoted) :
    (∃ m, Run.run cmdStep mode text = some m ∧ m ≠ .quoted ∧
        (m = .plain ↔ mode = .plain ∧ '%' ∉ text)) ∧
        (∀ c ∈ text, isCmdOperator c = false) ∧ Clear mode text ∨
      Run.run cmdStep mode text = none ∧
        ¬((∀ c ∈ text, isCmdOperator c = false) ∧ Clear mode text) := by
  induction text generalizing mode with
  | nil =>
      refine .inl ⟨⟨mode, rfl, hmode, by simp⟩, fun _ hc => absurd hc List.not_mem_nil, ?_⟩
      cases mode with
      | plain => exact fun h => absurd h.mem List.not_mem_nil
      | percent =>
          rintro ⟨before, name, after, htext, hne, -⟩
          have hlength := congrArg List.length htext
          simp only [List.length_append, List.length_cons, List.length_nil] at hlength
          omega
      | name => exact List.not_mem_nil
      | quoted => exact absurd rfl hmode
  | cons c text ih =>
      rw [List.mem_cons, not_or] at hquote
      by_cases hoperator : isCmdOperator c = true
      · refine .inr ⟨?_, fun h => ?_⟩
        · have hstep : cmdStep mode c = none := by
            cases mode with
            | quoted => exact absurd rfl hmode
            | _ => simp only [cmdStep, if_neg (Ne.symm hquote.1), hoperator, if_true]
          rw [Run.run, hstep, Option.bind_none]
        · rw [h.1 c List.mem_cons_self] at hoperator
          cases hoperator
      · have hnone : isCmdOperator c = false := by simpa using hoperator
        have hstep := cmdStep_bare hmode (Ne.symm hquote.1) hnone
        have hothers : (∀ d ∈ c :: text, isCmdOperator d = false) ↔
            ∀ d ∈ text, isCmdOperator d = false := by
          rw [List.forall_mem_cons]
          exact and_iff_right hnone
        rw [hothers, Run.run, hstep]
        by_cases hpercent : c = '%'
        · subst hpercent
          rw [if_pos rfl]
          by_cases hname : mode = .name
          · subst hname
            exact .inr ⟨rfl, fun h => h.2 List.mem_cons_self⟩
          · rw [if_neg hname, Option.bind_some]
            have hclear : Clear mode ('%' :: text) ↔ Clear .percent text := by
              cases mode with
              | plain => rfl
              | percent => simp only [Clear, expands_percent_cons, if_true]
              | name => exact absurd rfl hname
              | quoted => exact absurd rfl hmode
            rw [hclear]
            rcases ih hquote.2 (show CmdMode.percent ≠ .quoted by decide) with
              ⟨⟨m, hm, hne, hplain⟩, h⟩ | h
            · refine .inl ⟨⟨m, hm, hne, ?_⟩, h⟩
              rw [hplain]
              simp
            · exact .inr h
        · rw [if_neg hpercent, Option.bind_some]
          by_cases hplain : mode = .plain
          · subst hplain
            have hclear : Clear .plain (c :: text) ↔ Clear .plain text :=
              not_congr (expands_cons hpercent)
            rw [if_pos rfl, hclear, List.mem_cons, not_or]
            simpa [Ne.symm hpercent] using ih hquote.2 (show CmdMode.plain ≠ .quoted by decide)
          · have hclear : Clear mode (c :: text) ↔ Clear .name text := by
              cases mode with
              | plain => exact absurd rfl hplain
              | percent => simp only [Clear, expands_percent_cons, if_neg hpercent]
              | name =>
                  rw [Clear, List.mem_cons, not_or, Clear]
                  exact and_iff_right (Ne.symm hpercent)
              | quoted => exact absurd rfl hmode
            rw [if_neg hplain, hclear]
            simpa [hplain] using ih hquote.2 (show CmdMode.name ≠ .quoted by decide)

/-- Inside double quotes everything is literal, and a doubled quote leaves them
and enters them again. -/
theorem cmdRun_blanked {text : List Char} (hblank : hasBlank text = true) {mode : CmdMode}
    (hmode : mode ≠ .quoted) :
    Run.run cmdStep mode (onChars cmdQuote text) = some .plain := by
  have hinside : ∀ t : List Char, Run.run cmdStep .quoted
      (t.flatMap fun c => if c = '"' then "\"\"".toList else [c]) = some .quoted := by
    intro t
    induction t with
    | nil => rfl
    | cons c t ih =>
        rw [List.flatMap_cons]
        refine Run.run_append.mpr ⟨.quoted, ?_, ih⟩
        by_cases hquote : c = '"'
        · subst hquote
          rfl
        · rw [if_neg hquote, Run.run, cmdStep, if_neg hquote]
          rfl
  have hopen : cmdStep mode '"' = some .quoted := by
    cases mode with
    | quoted => exact absurd rfl hmode
    | _ => rfl
  rw [onChars_cmdQuote, if_pos hblank]
  exact Run.run_cons.mpr ⟨_, hopen, Run.run_append.mpr ⟨_, hinside text, rfl⟩⟩

/-- What a word must not hold for `cmd.exe` to pass it on; `opened` says that a
percent sign stands before it outside quotes. -/
def InertWord (opened : Bool) (text : List Char) : Prop :=
  hasBlank text = false → (∀ c ∈ text, isCmdOperator c = false) ∧ ¬Expands text ∧
    (opened = true → '%' ∉ text)

/-- Whether one stands before the word after it: quotes hold no name. -/
def opens (opened : Bool) (text : List Char) : Bool :=
  if hasBlank text then false else opened || text.contains '%'

/-- No operator and no `%NAME%` outside the words with blanks, nor from one word
to another with none of those between. -/
def Inert : Bool → List (List Char) → Prop
  | _, [] => True
  | opened, text :: rest => InertWord opened text ∧ Inert (opens opened text) rest

/-- The mode between two words. -/
def spacedMode (opened : Bool) : CmdMode := if opened then .name else .plain

theorem cmdRun_word {text : List Char} (h : Regroups text) (opened : Bool) :
    (∃ m, Run.run cmdStep (spacedMode opened) (onChars cmdQuote text) = some m ∧
        cmdStep m ' ' = some (spacedMode (opens opened text))) ∧ InertWord opened text ∨
      Run.run cmdStep (spacedMode opened) (onChars cmdQuote text) = none ∧
        ¬InertWord opened text := by
  have hmode : spacedMode opened ≠ .quoted := by cases opened <;> decide
  by_cases hblank : hasBlank text = true
  · refine .inl ⟨⟨.plain, cmdRun_blanked hblank hmode, ?_⟩, fun hnone => ?_⟩
    · rw [opens, if_pos hblank]
      rfl
    · rw [hblank] at hnone
      cases hnone
  · have hnone : hasBlank text = false := by simpa using hblank
    have hinert : InertWord opened text ↔
        (∀ c ∈ text, isCmdOperator c = false) ∧ Clear (spacedMode opened) text := by
      cases opened with
      | false => simp [InertWord, hnone, spacedMode, Clear]
      | true =>
          have hexpands : '%' ∉ text → ¬Expands text := fun hmem h => hmem h.mem
          simp only [InertWord, hnone, spacedMode, Clear, if_true, true_implies]
          exact ⟨fun h => ⟨h.1, h.2.2⟩, fun h => ⟨h.1, hexpands h.2, h.2⟩⟩
    rw [hinert, onChars_cmdQuote, if_neg hblank, opens, if_neg hblank]
    rcases cmdRun_bare (h.2 hnone) hmode with ⟨⟨m, hm, hne, hplain⟩, hclear⟩ | hstop
    · refine .inl ⟨⟨m, hm, ?_⟩, hclear⟩
      have hopened : (opened || text.contains '%') = false ↔ m = .plain := by
        rw [hplain, Bool.or_eq_false_iff]
        cases opened <;> simp [spacedMode]
      cases hflag : opened || text.contains '%' with
      | false =>
          rw [hopened.mp hflag]
          rfl
      | true =>
          have hother : m ≠ .plain := fun h => by
            rw [hopened.mpr h] at hflag
            cases hflag
          cases m with
          | plain => exact absurd rfl hother
          | quoted => exact absurd rfl hne
          | _ => rfl
    · exact .inr hstop

theorem cmdRun_line {words : List (List Char)} (h : ∀ text ∈ words, Regroups text)
    (opened : Bool) :
    (Run.run cmdStep (spacedMode opened)
        ([' '].intercalate (words.map (onChars cmdQuote)))).isSome ↔ Inert opened words := by
  induction words generalizing opened with
  | nil => exact iff_of_true rfl trivial
  | cons text words ih =>
      have hword := cmdRun_word (h text List.mem_cons_self) opened
      cases words with
      | nil =>
          rw [List.map_cons, List.map_nil, List.intercalate_singleton, Inert, Inert, and_true]
          rcases hword with ⟨⟨m, hm, -⟩, hinert⟩ | ⟨hnone, hinert⟩
          · exact iff_of_true (by rw [hm]; rfl) hinert
          · exact iff_of_false (by rw [hnone]; decide) hinert
      | cons next words =>
          rw [List.map_cons, List.map_cons, List.intercalate_cons_cons, List.append_assoc,
            ← List.map_cons, Inert]
          rcases hword with ⟨⟨m, hm, hblank⟩, hinert⟩ | ⟨hnone, hinert⟩
          · have hrest := ih (fun w hw => h w (List.mem_cons_of_mem text hw)) (opens opened text)
            rw [and_iff_right hinert, ← hrest, Option.isSome_iff_exists, Option.isSome_iff_exists]
            refine exists_congr fun t => ⟨fun hrun => ?_, fun hrun => ?_⟩
            · obtain ⟨m', hm', hrun⟩ := Run.run_append.mp hrun
              obtain rfl : m = m' := Option.some.inj (hm.symm.trans hm')
              obtain ⟨m'', hblank', hrun⟩ := Run.run_cons.mp hrun
              obtain rfl := Option.some.inj (hblank.symm.trans hblank')
              exact hrun
            · exact Run.run_append.mpr ⟨m, hm, Run.run_cons.mpr ⟨_, hblank, hrun⟩⟩
          · refine iff_of_false (fun hsome => ?_) fun hboth => hinert hboth.1
            obtain ⟨t, hrun⟩ := Option.isSome_iff_exists.mp hsome
            obtain ⟨m, hm, -⟩ := Run.run_append.mp hrun
            rw [hnone] at hm
            cases hm

/-- The line reaches the program as one command and as the strings exactly if
none of them is empty, those without blanks hold no double quote, and nothing
outside the others is special to `cmd.exe`. -/
theorem cmd_quoting_faithful_iff (parts : List String) :
    cmdPasses (cmdQuoteAll parts).toList = true ∧
        msvc.split (cmdQuoteAll parts).toList = some (parts.map String.toList) ↔
      (∀ part ∈ parts, Regroups part.toList) ∧ Inert false (parts.map String.toList) := by
  rw [cmdQuoteAll, toList_joined, msvc_split_iff, List.forall_mem_map, and_comm]
  exact and_congr_right fun h => cmdRun_line (List.forall_mem_map.mpr h) false

/-- An ampersand ends the command. -/
theorem cmd_quoting_operator :
    ¬∀ parts : List String,
      (∀ part ∈ parts, ∀ c ∈ part.toList, c ≠ '\x00' ∧ c ≠ '\n' ∧ c ≠ '\r') →
      cmdPasses (cmdQuoteAll parts).toList = true ∧
        msvc.split (cmdQuoteAll parts).toList = some (parts.map String.toList) := by
  intro h
  have hpasses := (h ["echo", "a&del"] (by simp)).1
  revert hpasses
  decide

end Morsh
