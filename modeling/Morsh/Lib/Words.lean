import Mathlib.Algebra.Order.BigOperators.Group.List
import Mathlib.Algebra.Order.Ring.Nat
import Morsh.Lib.Run

/-!
# Splitting a command line into words

A grammar says what a character does in each mode of the reader: it is put into
the word, it only changes the mode, or it ends the word; or the line is more
than words there, and is refused. `Quotes` is what a way of quoting owes such a
grammar for one word, and then a line of quoted words reads back as the words.

The grammars themselves follow: the POSIX shell, the argument rules of the
Microsoft C runtime, PowerShell's single-quoted strings. `cmd.exe` does not
split the line, it only has to let it through.
-/

namespace Words

/-- What a character does. `begin` starts a word, if there is none yet, and
puts nothing into it. -/
inductive Act (μ : Type) where
  | put (c : Char) (mode : μ)
  | begin (mode : μ)
  | turn (mode : μ)
  | blank

structure Grammar (μ : Type) where
  /-- `none` where a character is not read as part of a word. -/
  read : μ → Char → Option (Act μ)
  /-- The mode between words. -/
  between : μ
  /-- Whether the line may end there. -/
  ends : μ → Bool

/-- The words that are complete and the one that is not. -/
structure Scan (μ : Type) where
  done : List (List Char)
  word : Option (List Char)
  mode : μ

variable {μ : Type}

namespace Grammar

variable (g : Grammar μ)

def act (s : Scan μ) : Act μ → Scan μ
  | .put c mode => ⟨s.done, some (s.word.getD [] ++ [c]), mode⟩
  | .begin mode => ⟨s.done, some (s.word.getD []), mode⟩
  | .turn mode => ⟨s.done, s.word, mode⟩
  | .blank => ⟨s.done ++ s.word.toList, none, g.between⟩

def step (s : Scan μ) (c : Char) : Option (Scan μ) := (g.read s.mode c).map (g.act s)

/-- The words of a line, where it is made of nothing else. -/
def split (line : List Char) : Option (List (List Char)) :=
  (Run.run g.step ⟨[], none, g.between⟩ line).bind fun s =>
    if g.ends s.mode then some (s.done ++ s.word.toList) else none

variable {g} {done : List (List Char)} {mode : μ} {c : Char} {esc : Char → List Char}
  {quote : List Char → List Char}

theorem step_of_read {s : Scan μ} {a : Act μ} (h : g.read s.mode c = some a) :
    g.step s c = some (g.act s a) := by
  rw [step, h, Option.map_some]

/-- Characters that are each written so that the reader puts them into the
word, one after the other. -/
theorem run_flatMap {text : List Char} (hesc : ∀ c ∈ text, ∀ done word,
      Run.run g.step ⟨done, some word, mode⟩ (esc c) = some ⟨done, some (word ++ [c]), mode⟩)
    (word : List Char) :
    Run.run g.step ⟨done, some word, mode⟩ (text.flatMap esc)
      = some ⟨done, some (word ++ text), mode⟩ := by
  induction text generalizing word with
  | nil => rw [List.flatMap_nil, List.append_nil, Run.run_nil]
  | cons c text ih =>
      rw [List.flatMap_cons]
      refine Run.run_append.mpr ⟨_, hesc c List.mem_cons_self done word, ?_⟩
      rw [ih fun d hd => hesc d (List.mem_cons_of_mem c hd), List.append_assoc,
        List.singleton_append]

theorem run_plain {text : List Char} (hread : ∀ c ∈ text, g.read mode c = some (.put c mode))
    (word : List Char) :
    Run.run g.step ⟨done, some word, mode⟩ text = some ⟨done, some (word ++ text), mode⟩ := by
  have hrun : Run.run g.step ⟨done, some word, mode⟩ (text.flatMap fun c => [c])
      = some ⟨done, some (word ++ text), mode⟩ :=
    run_flatMap (fun c hc done word =>
      Run.run_cons.mpr ⟨_, step_of_read (s := ⟨done, some word, mode⟩) (hread c hc), rfl⟩) word
  rwa [List.flatMap_singleton'] at hrun

/-- The quoted word reads as the word, and a blank behind it ends it. -/
structure Quotes (g : Grammar μ) (quote : List Char → List Char) (word : List Char) : Prop where
  reads : ∃ mode, g.ends mode = true ∧ g.read mode ' ' = some .blank ∧
    ∀ done, Run.run g.step ⟨done, none, g.between⟩ (quote word) = some ⟨done, some word, mode⟩

theorem Quotes.bare {word : List Char} (hne : word ≠ []) (hquote : quote word = word)
    (hread : ∀ c ∈ word, g.read g.between c = some (.put c g.between))
    (hends : g.ends g.between = true) (hblank : g.read g.between ' ' = some .blank) :
    g.Quotes quote word := by
  refine ⟨g.between, hends, hblank, fun done => ?_⟩
  obtain ⟨c, text, rfl⟩ := List.exists_cons_of_ne_nil hne
  rw [hquote]
  refine Run.run_cons.mpr ⟨_, step_of_read (hread c List.mem_cons_self), ?_⟩
  exact run_plain (fun d hd => hread d (List.mem_cons_of_mem c hd)) [c]

theorem run_quoted {words : List (List Char)} (hne : words ≠ [])
    (h : ∀ word ∈ words, g.Quotes quote word) (done : List (List Char)) :
    ∃ s, Run.run g.step ⟨done, none, g.between⟩ ([' '].intercalate (words.map quote)) = some s ∧
      g.ends s.mode = true ∧ s.done ++ s.word.toList = done ++ words := by
  induction words generalizing done with
  | nil => exact absurd rfl hne
  | cons word words ih =>
      obtain ⟨mode, hends, hblank, hreads⟩ := h word List.mem_cons_self
      cases words with
      | nil =>
          refine ⟨⟨done, some word, mode⟩, ?_, hends, rfl⟩
          rw [List.map_cons, List.map_nil, List.intercalate_singleton]
          exact hreads done
      | cons next words =>
          obtain ⟨s, hs, hmode, hwords⟩ := ih (List.cons_ne_nil _ _)
            (fun w hw => h w (List.mem_cons_of_mem word hw)) (done ++ [word])
          refine ⟨s, ?_, hmode, by rw [hwords, List.append_assoc, List.singleton_append]⟩
          rw [List.map_cons, List.map_cons, List.intercalate_cons_cons, List.append_assoc]
          refine Run.run_append.mpr ⟨_, hreads done, Run.run_cons.mpr
            ⟨_, step_of_read (s := ⟨done, some word, mode⟩) hblank, ?_⟩⟩
          rw [act, Option.toList_some, ← List.map_cons]
          exact hs

/-- A line of quoted words, a blank between each two, is split into the words. -/
theorem split_quoted (hends : g.ends g.between = true) {words : List (List Char)}
    (h : ∀ word ∈ words, g.Quotes quote word) :
    g.split ([' '].intercalate (words.map quote)) = some words := by
  by_cases hne : words = []
  · rw [hne]
    simp [split, List.intercalate_nil, hends]
  · obtain ⟨s, hs, hmode, hwords⟩ := run_quoted hne h []
    rw [split, hs, Option.bind_some, if_pos hmode, hwords, List.nil_append]

/-! ## Counting -/

/-- A line of words pays for the words and for the blanks between them. -/
theorem pay_intercalate (pay : Char → Nat) {words : List (List Char)} (hne : words ≠ []) :
    (([' '].intercalate words).map pay).sum + pay ' '
      = (words.map fun word => (word.map pay).sum + pay ' ').sum := by
  induction words with
  | nil => exact absurd rfl hne
  | cons word words ih =>
      cases words with
      | nil => simp [List.intercalate_singleton]
      | cons next words =>
          have hrest := ih (List.cons_ne_nil _ _)
          rw [List.intercalate_cons_cons, List.map_append, List.map_append, List.sum_append,
            List.sum_append, List.map_cons (l := next :: words), List.sum_cons, ← hrest,
            List.map_singleton, List.sum_singleton]
          omega

theorem sum_gap {α : Type} {f h : α → Nat} {l : List α} (hle : ∀ a ∈ l, f a ≤ h a) {a : α}
    (ha : a ∈ l) : (l.map f).sum + h a ≤ (l.map h).sum + f a := by
  induction l with
  | nil => exact absurd ha List.not_mem_nil
  | cons b l ih =>
      have hrest : ∀ a ∈ l, f a ≤ h a := fun a ha => hle a (List.mem_cons_of_mem b ha)
      have hb := hle b List.mem_cons_self
      rw [List.map_cons, List.map_cons, List.sum_cons, List.sum_cons]
      rcases List.mem_cons.mp ha with rfl | hmem
      · have hsum : (l.map f).sum ≤ (l.map h).sum := List.sum_le_sum hrest
        omega
      · have hsum := ih hrest hmem
        omega

/-- What each word costs a reader, where a step takes no more than its character
pays and the end `slack` more at most. A word whose quotation pays too little
does not come back. -/
theorem split_quoted_ne {taken : Scan μ → Nat} {pay : Char → Nat} {cost : List Char → Nat}
    {slack : Nat} {words : List (List Char)} (hstart : taken ⟨[], none, g.between⟩ = 0)
    (hstep : ∀ s c s', g.step s c = some s' → taken s' ≤ taken s + pay c)
    (hend : ∀ s, g.ends s.mode = true →
      ((s.done ++ s.word.toList).map cost).sum ≤ taken s + slack)
    (hle : ∀ word ∈ words, ((quote word).map pay).sum + pay ' ' ≤ cost word) {word : List Char}
    (hword : word ∈ words) (hshort : ((quote word).map pay).sum + slack < cost word) :
    g.split ([' '].intercalate (words.map quote)) ≠ some words := by
  intro h
  obtain ⟨s, hs, hwords⟩ := Option.bind_eq_some_iff.mp h
  have htaken := Run.run_cost hstep hs
  rw [hstart, Nat.zero_add] at htaken
  split at hwords
  · next hmode =>
      have hcost := hend s hmode
      rw [Option.some.inj hwords] at hcost
      have hne : words.map quote ≠ [] := List.map_eq_nil_iff.not.mpr (List.ne_nil_of_mem hword)
      have hpaid := pay_intercalate pay hne
      rw [List.map_map] at hpaid
      have hgap := sum_gap hle hword
      simp only [Function.comp_def] at hpaid
      omega
  · cases hwords

end Grammar

end Words
