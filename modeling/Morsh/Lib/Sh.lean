import Mathlib.Data.List.Basic
import Morsh.Lib.Shells

/-!
# The POSIX shell's command language

As much of it as a launch command needs: simple commands with redirections,
subshells, `||` and `;`. A line is cut into tokens, the tokens are parsed, and
the command is run. A word knows how it is spelled and what it stands for, so
that a command can be printed, and what is printed reads back as the command.

The lexer is a run over characters, and `Lexed` says which tokens a line adds to
those before it: there is a lemma for each kind of token, and `Cmd.lexed` is the
induction on the command. The parser is a run over tokens with a stack of open
lists. How tightly a command binds decides where it may stand, so that it is read
back is proved at three levels at once, as a command, in a list with `||` and as
a whole list; `Cmd.Formed.parsed` is that induction. To run a command is to go
through its tree; what the utilities do is not modelled but for the status each
one exits with, which is given.
-/

namespace Sh

open Words (isBlank posixFree)

abbrev Text := List Char

/-! ## Tokens -/

inductive Token where
  /-- A word after quote removal, and whether nothing in it was quoted. -/
  | word (text : Text) (bare : Bool)
  | semi | lparen | rparen | orIf
  /-- `>`, with the digits in front of it. -/
  | redirect (fd : Text)
  deriving DecidableEq, Repr

inductive Mode where
  | plain | quoted | escaped
  /-- Behind one `|`. -/
  | bar
  deriving DecidableEq, Repr

structure Lexer where
  done : List Token
  word : Option (Text × Bool)
  mode : Mode
  deriving DecidableEq, Repr

namespace Lexer

/-- The tokens once the word that is being read ends. -/
def flushed (s : Lexer) : List Token :=
  s.done ++ (s.word.map fun w => Token.word w.1 w.2).toList

/-- An operator ends the word in front of it. -/
def operator (s : Lexer) (t : Token) : Lexer := ⟨s.flushed ++ [t], none, .plain⟩

/-- Digits right in front of a `>` are its number. -/
def redirection (s : Lexer) : Lexer :=
  match s.word with
  | some (fd, true) =>
      if fd.all Char.isDigit then ⟨s.done ++ [.redirect fd], none, .plain⟩
      else s.operator (.redirect [])
  | _ => s.operator (.redirect [])

/-- The word that is being read, or that is about to begin. -/
def current (s : Lexer) : Text × Bool := s.word.getD ([], true)

def put (s : Lexer) (c : Char) (bare : Bool) (mode : Mode) : Lexer :=
  ⟨s.done, some (s.current.1 ++ [c], s.current.2 && bare), mode⟩

/-- A quotation starts a word, if there is none yet. -/
def opening (s : Lexer) (mode : Mode) : Lexer := ⟨s.done, some (s.current.1, false), mode⟩

/-- One character; `none` where it is more than the language here. -/
def step (s : Lexer) (c : Char) : Option Lexer :=
  match s.mode with
  | .plain =>
      if isBlank c then some ⟨s.flushed, none, .plain⟩
      else if c = '\'' then some (s.opening .quoted)
      else if c = '\\' then some { s with mode := .escaped }
      else if c = ';' then some (s.operator .semi)
      else if c = '(' then some (s.operator .lparen)
      else if c = ')' then some (s.operator .rparen)
      else if c = '|' then some ⟨s.flushed, none, .bar⟩
      else if c = '>' then some s.redirection
      else if posixFree c then some (s.put c true .plain)
      else none
  | .quoted => some (if c = '\'' then { s with mode := .plain } else s.put c false .quoted)
  -- a backslash and a line feed are nothing
  | .escaped => some (if c = '\n' then { s with mode := .plain } else s.put c false .plain)
  | .bar => if c = '|' then some ⟨s.done ++ [.orIf], none, .plain⟩ else none

end Lexer

def lex (line : Text) : Option (List Token) :=
  (Run.run Lexer.step ⟨[], none, .plain⟩ line).bind fun s =>
    if s.mode = .plain then some s.flushed else none

/-! ## Commands -/

inductive Cmd (ω : Type) where
  | simple (argv : List ω) (redirects : List (Text × ω))
  | subshell (body : Cmd ω)
  | orElse (first second : Cmd ω)
  | seq (first second : Cmd ω)
  deriving DecidableEq, Repr

namespace Cmd

variable {ω φ : Type}

def map (f : ω → φ) : Cmd ω → Cmd φ
  | simple argv redirects => simple (argv.map f) (redirects.map fun r => (r.1, f r.2))
  | subshell body => subshell (body.map f)
  | orElse first second => orElse (first.map f) (second.map f)
  | seq first second => seq (first.map f) (second.map f)

end Cmd

/-- Words that are not the name of a command. -/
def reserved : List Text :=
  ["!", "\x7b", "\x7d", "case", "do", "done", "elif", "else", "esac", "fi", "for", "if", "in",
    "then", "until", "while"].map String.toList

def isNameStart (c : Char) : Bool := c.isAlpha || c == '_'

/-- `NAME=` at the front of a word. -/
def isAssignment (text : Text) : Bool :=
  text.head?.any isNameStart &&
    (text.dropWhile fun c => isNameStart c || c.isDigit).head? == some '='

/-- Whether a word can be the name of a command. -/
def isCommandWord (text : Text) (bare : Bool) : Bool :=
  !bare || !(reserved.contains text || isAssignment text)

/-- A list of commands, read so far. -/
structure Frame where
  /-- What is in front of the last `;`. -/
  before : Option (Cmd Text)
  /-- What is in front of the last `||`. -/
  left : Option (Cmd Text)
  current : Option (Cmd Text)
  deriving DecidableEq, Repr

namespace Frame

def empty : Frame := ⟨none, none, none⟩

def join (op : Cmd Text → Cmd Text → Cmd Text) (left : Option (Cmd Text)) (c : Cmd Text) :
    Cmd Text :=
  match left with
  | some l => op l c
  | none => c

/-- The whole list, where it may end. -/
def value (f : Frame) : Option (Cmd Text) :=
  match f.current with
  | some c => some (join .seq f.before (join .orElse f.left c))
  | none => if f.left = none then f.before else none

end Frame

/-- The lists that are open, the innermost one first, and the redirection that
waits for its word. -/
structure Parser where
  top : Frame
  stack : List Frame
  redirect : Option Text
  deriving DecidableEq, Repr

namespace Parser

def step (s : Parser) (t : Token) : Option Parser :=
  match s.redirect, t with
  | some fd, .word text _ =>
      match s.top.current with
      | some (.simple argv redirects) =>
          some { s with
            top := { s.top with current := some (.simple argv (redirects ++ [(fd, text)])) }
            redirect := none }
      | _ => none
  | some _, _ => none
  | none, .word text bare =>
      match s.top.current with
      | none =>
          if isCommandWord text bare then
            some { s with top := { s.top with current := some (.simple [text] []) } }
          else none
      | some (.simple argv redirects) =>
          some { s with top := { s.top with current := some (.simple (argv ++ [text]) redirects) } }
      | some _ => none
  | none, .redirect fd =>
      match s.top.current with
      | some (.simple _ _) => some { s with redirect := some fd }
      | _ => none
  | none, .semi =>
      match s.top.current with
      | some c =>
          let before := Frame.join .seq s.top.before (Frame.join .orElse s.top.left c)
          some { s with top := ⟨some before, none, none⟩ }
      | none => none
  | none, .orIf =>
      match s.top.current with
      | some c =>
          some { s with
            top := { s.top with left := some (Frame.join .orElse s.top.left c), current := none } }
      | none => none
  | none, .lparen =>
      match s.top.current with
      | none => some { s with top := .empty, stack := s.top :: s.stack }
      | some _ => none
  | none, .rparen =>
      match s.stack, s.top.value with
      | outer :: stack, some body =>
          some { s with top := { outer with current := some (.subshell body) }, stack := stack }
      | _, _ => none

end Parser

def parseTokens (tokens : List Token) : Option (Cmd Text) :=
  (Run.run Parser.step ⟨.empty, [], none⟩ tokens).bind fun s =>
    if s.stack = [] ∧ s.redirect = none then s.top.value else none

def parse (line : Text) : Option (Cmd Text) := (lex line).bind parseTokens

/-! ## Printing -/

/-- A word as it is spelled, with what the lexer makes of it. -/
structure Spelled where
  text : Text
  spelling : Text
  bare : Bool
  reads : ∀ done, Run.run Lexer.step ⟨done, none, .plain⟩ spelling
    = some ⟨done, some (text, bare), .plain⟩

def Spelled.token (w : Spelled) : Token := .word w.text w.bare

namespace Cmd

/-- How tightly a command binds. -/
def level {ω : Type} : Cmd ω → Nat
  | simple _ _ | subshell _ => 0
  | orElse _ _ => 1
  | seq _ _ => 2

/-- A simple command has a name that is not a word of the language, and the
operands of the operators bind tightly enough. -/
def Formed : Cmd Spelled → Prop
  | simple argv redirects => argv.head?.any (fun w => isCommandWord w.text w.bare) = true ∧
      ∀ r ∈ redirects, r.1.all Char.isDigit = true
  | subshell body => body.Formed
  | orElse first second => first.level ≤ 1 ∧ second.level = 0 ∧ first.Formed ∧ second.Formed
  | seq first second => second.level ≤ 1 ∧ first.Formed ∧ second.Formed

def print : Cmd Spelled → Text
  | simple argv redirects => [' '].intercalate (argv.map (·.spelling)) ++
      redirects.flatMap fun r => ' ' :: (r.1 ++ '>' :: r.2.spelling)
  | subshell body => '(' :: (body.print ++ [')'])
  | orElse first second => first.print ++ " || ".toList ++ second.print
  | seq first second => first.print ++ "; ".toList ++ second.print

def tokens : Cmd Spelled → List Token
  | simple argv redirects => argv.map (·.token) ++
      redirects.flatMap fun r => [.redirect r.1, r.2.token]
  | subshell body => .lparen :: (body.tokens ++ [.rparen])
  | orElse first second => first.tokens ++ .orIf :: second.tokens
  | seq first second => first.tokens ++ .semi :: second.tokens

end Cmd

/-! ## What is printed reads back -/

/-- The lexer makes these tokens of the line. -/
def Lexed (line : Text) (tokens : List Token) : Prop :=
  ∀ done, ∃ s, Run.run Lexer.step ⟨done, none, .plain⟩ line = some s ∧ s.mode = .plain ∧
    s.flushed = done ++ tokens

namespace Lexed

variable {a b : Text} {ta tb : List Token}

theorem nil : Lexed [] [] := fun _ => ⟨_, rfl, rfl, rfl⟩

theorem spelled (w : Spelled) : Lexed w.spelling [w.token] :=
  fun done => ⟨_, w.reads done, rfl, rfl⟩

theorem cut {c : Char} {tokens : List Token} (ha : Lexed a ta) (hb : Lexed b tb)
    (hc : ∀ s : Lexer, s.mode = .plain → s.step c = some ⟨s.flushed ++ tokens, none, .plain⟩) :
    Lexed (a ++ c :: b) (ta ++ (tokens ++ tb)) := by
  intro done
  obtain ⟨s, hs, hmode, hflushed⟩ := ha done
  obtain ⟨t, ht, hmode', hflushed'⟩ := hb (s.flushed ++ tokens)
  refine ⟨t, Run.run_append.mpr ⟨s, hs, Run.run_cons.mpr ⟨_, hc s hmode, ht⟩⟩, hmode', ?_⟩
  rw [hflushed', hflushed]
  simp only [List.append_assoc]

theorem blank (ha : Lexed a ta) (hb : Lexed b tb) : Lexed (a ++ ' ' :: b) (ta ++ tb) := by
  refine @cut _ _ _ _ _ [] ha hb fun s hs => ?_
  rw [List.append_nil]
  simp [Lexer.step, hs, isBlank]

theorem semi (ha : Lexed a ta) (hb : Lexed b tb) : Lexed (a ++ ';' :: b) (ta ++ .semi :: tb) :=
  @cut _ _ _ _ _ [.semi] ha hb fun s hs => by simp [Lexer.step, hs, isBlank, Lexer.operator]

theorem lparen (hb : Lexed b tb) : Lexed ('(' :: b) (.lparen :: tb) :=
  @cut _ _ _ _ _ [.lparen] nil hb fun s hs => by simp [Lexer.step, hs, isBlank, Lexer.operator]

theorem rparen (ha : Lexed a ta) : Lexed (a ++ [')']) (ta ++ [.rparen]) :=
  @cut _ _ _ _ _ [.rparen] ha nil fun s hs => by simp [Lexer.step, hs, isBlank, Lexer.operator]

theorem orIf (ha : Lexed a ta) (hb : Lexed b tb) :
    Lexed (a ++ '|' :: '|' :: b) (ta ++ .orIf :: tb) := by
  intro done
  obtain ⟨s, hs, hmode, hflushed⟩ := ha done
  obtain ⟨t, ht, hmode', hflushed'⟩ := hb (s.flushed ++ [.orIf])
  have hbar : s.step '|' = some ⟨s.flushed, none, .bar⟩ := by simp [Lexer.step, hmode, isBlank]
  refine ⟨t, Run.run_append.mpr ⟨s, hs, Run.run_cons.mpr ⟨_, hbar, Run.run_cons.mpr
    ⟨⟨s.flushed ++ [.orIf], none, .plain⟩, rfl, ht⟩⟩⟩, hmode', ?_⟩
  rw [hflushed', hflushed, List.append_assoc, List.append_assoc]
  rfl

theorem step_free {s : Lexer} (hmode : s.mode = .plain) {c : Char} (h : posixFree c = true) :
    s.step c = some (s.put c true .plain) := by
  have hne : ∀ d : Char, posixFree d = false → c ≠ d := by
    rintro d hd rfl
    cases h.symm.trans hd
  have hblank : isBlank c = false := by
    rw [isBlank, beq_eq_false_iff_ne.mpr (hne ' ' (by decide)),
      beq_eq_false_iff_ne.mpr (hne '\t' (by decide)), Bool.or_false]
  simp only [Lexer.step, hmode, hblank, Bool.false_eq_true, if_false, h, if_true,
    if_neg (hne '\'' (by decide)), if_neg (hne '\\' (by decide)), if_neg (hne ';' (by decide)),
    if_neg (hne '(' (by decide)), if_neg (hne ')' (by decide)), if_neg (hne '|' (by decide)),
    if_neg (hne '>' (by decide))]

theorem run_free {text : Text} (h : text.all posixFree = true) (done : List Token)
    (front : Text) (bare : Bool) :
    Run.run Lexer.step ⟨done, some (front, bare), .plain⟩ text
      = some ⟨done, some (front ++ text, bare), .plain⟩ := by
  induction text generalizing front with
  | nil => rw [List.append_nil, Run.run_nil]
  | cons c text ih =>
      rw [List.all_cons, Bool.and_eq_true] at h
      refine Run.run_cons.mpr ⟨⟨done, some (front ++ [c], bare), .plain⟩, ?_, ?_⟩
      · rw [step_free rfl h.1, Lexer.put, Lexer.current, Option.getD_some, Bool.and_true]
      · have hrest := ih h.2 (front ++ [c])
        rw [List.append_assoc, List.singleton_append] at hrest
        exact hrest

theorem run_free_start {text : Text} (hne : text ≠ []) (h : text.all posixFree = true)
    (done : List Token) :
    Run.run Lexer.step ⟨done, none, .plain⟩ text = some ⟨done, some (text, true), .plain⟩ := by
  obtain ⟨c, text, rfl⟩ := List.exists_cons_of_ne_nil hne
  rw [List.all_cons, Bool.and_eq_true] at h
  exact Run.run_cons.mpr ⟨_, step_free rfl h.1, run_free h.2 done [c] true⟩

theorem digits_free {fd : Text} (h : fd.all Char.isDigit = true) : fd.all posixFree = true := by
  rw [List.all_eq_true] at h ⊢
  intro c hc
  simp [posixFree, Char.isAlphanum, h c hc]

theorem redirect {fd : Text} (hfd : fd.all Char.isDigit = true) (ha : Lexed a ta)
    (w : Spelled) :
    Lexed (a ++ ' ' :: (fd ++ '>' :: w.spelling)) (ta ++ [.redirect fd, w.token]) := by
  refine ha.blank fun done => ⟨⟨done ++ [.redirect fd], some (w.text, w.bare), .plain⟩, ?_, rfl,
    by simp [Lexer.flushed, Spelled.token]⟩
  cases fd with
  | nil => exact Run.run_cons.mpr ⟨⟨done ++ [.redirect []], none, .plain⟩, by
      simp [Lexer.step, Lexer.redirection, Lexer.operator, Lexer.flushed, isBlank], w.reads _⟩
  | cons d fd =>
      refine Run.run_append.mpr ⟨⟨done, some (d :: fd, true), .plain⟩,
        run_free_start (List.cons_ne_nil d fd) (digits_free hfd) done, Run.run_cons.mpr
        ⟨⟨done ++ [.redirect (d :: fd)], none, .plain⟩, ?_, w.reads _⟩⟩
      simp only [Lexer.step, Lexer.redirection, hfd]
      rfl

theorem words {argv : List Spelled} :
    Lexed ([' '].intercalate (argv.map (·.spelling))) (argv.map (·.token)) := by
  induction argv with
  | nil => exact nil
  | cons w argv ih =>
      cases argv with
      | nil =>
        rw [List.map_singleton, List.intercalate_singleton]
        exact .spelled w
      | cons next argv =>
          rw [List.map_cons, List.map_cons, List.intercalate_cons_cons, ← List.map_cons,
            List.append_assoc]
          exact (Lexed.spelled w).blank ih

end Lexed

theorem Cmd.lexed {c : Cmd Spelled} (h : c.Formed) : Lexed c.print c.tokens := by
  induction c with
  | simple argv redirects =>
      obtain ⟨-, hdigits⟩ := h
      suffices hall : ∀ line tokens, Lexed line tokens →
          Lexed (line ++ redirects.flatMap fun r => ' ' :: (r.1 ++ '>' :: r.2.spelling))
            (tokens ++ redirects.flatMap fun r => [.redirect r.1, r.2.token]) from
        hall _ _ .words
      induction redirects with
      | nil =>
          intro line tokens hline
          rwa [List.flatMap_nil, List.flatMap_nil, List.append_nil, List.append_nil]
      | cons r redirects ih =>
          intro line tokens hline
          rw [List.flatMap_cons, List.flatMap_cons, ← List.append_assoc, ← List.append_assoc]
          exact ih (fun r' hr => hdigits r' (List.mem_cons_of_mem r hr)) _ _
            (.redirect (hdigits r List.mem_cons_self) hline r.2)
  | subshell body ih => exact .lparen (.rparen (ih h))
  | orElse first second ihf ihs =>
      have := (ihf h.2.2.1).blank (.orIf .nil (.blank .nil (ihs h.2.2.2)))
      simpa [print, tokens] using this
  | seq first second ihf ihs =>
      have := (ihf h.2.1).semi (.blank .nil (ihs h.2.2))
      simpa [print, tokens] using this

/-- What the words stand for. -/
def Cmd.texts (c : Cmd Spelled) : Cmd Text := c.map (·.text)

/-- The tokens are read as one command, wherever one may stand. -/
def AsCommand (c : Cmd Spelled) : Prop :=
  ∀ before left stack, Run.run Parser.step ⟨⟨before, left, none⟩, stack, none⟩ c.tokens
    = some ⟨⟨before, left, some c.texts⟩, stack, none⟩

/-- The tokens are read as a list of commands with `||` between them. -/
def AsOrList (c : Cmd Spelled) : Prop :=
  ∀ before stack, ∃ left r, Run.run Parser.step ⟨⟨before, none, none⟩, stack, none⟩ c.tokens
    = some ⟨⟨before, left, some r⟩, stack, none⟩ ∧ Frame.join .orElse left r = c.texts

/-- The tokens are read as a whole list. -/
def AsList (c : Cmd Spelled) : Prop :=
  ∀ stack, ∃ before left r, Run.run Parser.step ⟨.empty, stack, none⟩ c.tokens
    = some ⟨⟨before, left, some r⟩, stack, none⟩ ∧
      Frame.join .seq before (Frame.join .orElse left r) = c.texts

section Parsed

variable {c first second : Cmd Spelled}

theorem AsCommand.orList (h : AsCommand c) : AsOrList c :=
  fun before stack => ⟨none, c.texts, h before none stack, rfl⟩

theorem AsOrList.list (h : AsOrList c) : AsList c := fun stack =>
  let ⟨left, r, hrun, hjoin⟩ := h none stack
  ⟨none, left, r, hrun, hjoin⟩

theorem parse_words (before left : Option (Cmd Text)) (stack : List Frame) (argv : List Spelled)
    (front : List Text) :
    Run.run Parser.step ⟨⟨before, left, some (.simple front [])⟩, stack, none⟩
        (argv.map (·.token))
      = some ⟨⟨before, left, some (.simple (front ++ argv.map (·.text)) [])⟩, stack, none⟩ := by
  induction argv generalizing front with
  | nil => simp
  | cons w argv ih =>
      refine Run.run_cons.mpr ⟨⟨⟨before, left, some (.simple (front ++ [w.text]) [])⟩, stack, none⟩,
        rfl, ?_⟩
      have hrest := ih (front ++ [w.text])
      rw [List.append_assoc] at hrest
      exact hrest

theorem parse_redirects (before left : Option (Cmd Text)) (stack : List Frame) (argv : List Text)
    (redirects : List (Text × Spelled)) (front : List (Text × Text)) :
    Run.run Parser.step ⟨⟨before, left, some (.simple argv front)⟩, stack, none⟩
        (redirects.flatMap fun r => [.redirect r.1, r.2.token])
      = some ⟨⟨before, left, some (.simple argv
          (front ++ redirects.map fun r => (r.1, r.2.text)))⟩, stack, none⟩ := by
  induction redirects generalizing front with
  | nil => simp
  | cons r redirects ih =>
      have hrest := ih (front ++ [(r.1, r.2.text)])
      rw [List.append_assoc] at hrest
      rw [List.flatMap_cons]
      exact Run.run_append.mpr ⟨⟨⟨before, left, some (.simple argv (front ++ [(r.1, r.2.text)]))⟩,
        stack, none⟩, rfl, hrest⟩

theorem AsCommand.simple {argv : List Spelled} {redirects : List (Text × Spelled)}
    (h : (Cmd.simple argv redirects).Formed) : AsCommand (.simple argv redirects) := by
  intro before left stack
  obtain ⟨hhead, -⟩ := h
  cases argv with
  | nil => cases hhead
  | cons w argv =>
      have hword : isCommandWord w.text w.bare = true := hhead
      refine Run.run_append.mpr
        ⟨⟨⟨before, left, some (.simple (w.text :: argv.map Spelled.text) [])⟩, stack, none⟩,
          Run.run_cons.mpr ⟨⟨⟨before, left, some (.simple [w.text] [])⟩, stack, none⟩, ?_,
            parse_words before left stack argv [w.text]⟩,
          parse_redirects before left stack _ redirects []⟩
      simp only [Parser.step, Spelled.token, hword, if_true]

theorem AsCommand.subshell (h : AsList c) : AsCommand (.subshell c) := by
  intro before left stack
  obtain ⟨before', left', r, hrun, hjoin⟩ := h (⟨before, left, none⟩ :: stack)
  refine Run.run_cons.mpr ⟨⟨.empty, ⟨before, left, none⟩ :: stack, none⟩, rfl,
    Run.run_concat.mpr ⟨_, hrun, ?_⟩⟩
  simp only [Parser.step, Frame.value, hjoin]
  rfl

theorem AsOrList.orElse (hf : AsOrList first) (hs : AsCommand second) :
    AsOrList (.orElse first second) := by
  intro before stack
  obtain ⟨left, r, hrun, hjoin⟩ := hf before stack
  refine ⟨some first.texts, second.texts, Run.run_append.mpr ⟨_, hrun, Run.run_cons.mpr
    ⟨⟨⟨before, some first.texts, none⟩, stack, none⟩, ?_, hs before (some first.texts) stack⟩⟩, rfl⟩
  simp only [Parser.step, hjoin]

theorem AsList.seq (hf : AsList first) (hs : AsOrList second) : AsList (.seq first second) := by
  intro stack
  obtain ⟨before, left, r, hrun, hjoin⟩ := hf stack
  obtain ⟨left', r', hrun', hjoin'⟩ := hs (some first.texts) stack
  refine ⟨some first.texts, left', r', Run.run_append.mpr ⟨_, hrun, Run.run_cons.mpr
    ⟨⟨⟨some first.texts, none, none⟩, stack, none⟩, ?_, hrun'⟩⟩, ?_⟩
  · simp only [Parser.step, hjoin]
  · rw [hjoin']
    rfl

/-- Each command is read at the level it binds at. -/
theorem Cmd.Formed.parsed (h : c.Formed) :
    (c.level = 0 → AsCommand c) ∧ (c.level ≤ 1 → AsOrList c) ∧ AsList c := by
  induction c with
  | simple argv redirects =>
      have hsimple := AsCommand.simple h
      exact ⟨fun _ => hsimple, fun _ => hsimple.orList, hsimple.orList.list⟩
  | subshell body ih =>
      have hsub := AsCommand.subshell (ih h).2.2
      exact ⟨fun _ => hsub, fun _ => hsub.orList, hsub.orList.list⟩
  | orElse first second ihf ihs =>
      obtain ⟨hlevel, hlevel', hfirst, hsecond⟩ := h
      have hor := AsOrList.orElse ((ihf hfirst).2.1 hlevel) ((ihs hsecond).1 hlevel')
      exact ⟨nofun, fun _ => hor, hor.list⟩
  | seq first second ihf ihs =>
      obtain ⟨hlevel, hfirst, hsecond⟩ := h
      exact ⟨nofun, fun hle => absurd hle (Nat.not_succ_le_self 1),
        .seq (ihf hfirst).2.2 ((ihs hsecond).2.1 hlevel)⟩

theorem Lexed.parsed {line : Text} (hline : Lexed line c.tokens) (h : c.Formed) :
    parse line = some c.texts := by
  obtain ⟨s, hs, hmode, hflushed⟩ := hline []
  obtain ⟨before, left, r, hrun, hjoin⟩ := h.parsed.2.2 []
  have hlex : lex line = some c.tokens := by
    rw [lex, hs, Option.bind_some, if_pos hmode, hflushed, List.nil_append]
  rw [parse, hlex, Option.bind_some, parseTokens, hrun, Option.bind_some, if_pos ⟨rfl, rfl⟩]
  exact congrArg some hjoin

end Parsed

/-! ## Running -/

/-- A utility that was started: the variables it was given on top of those the
shell itself was started with, the last one of a name being the one that counts,
and where its output went. -/
structure Invocation where
  argv : List Text
  env : List (Text × Text)
  redirects : List (Text × Text)
  deriving DecidableEq, Repr

structure Shell where
  /-- The variables exported since the shell was started. -/
  env : List (Text × Text)
  ran : List Invocation
  deriving DecidableEq, Repr

/-- `NAME=VALUE`. -/
def assignment (text : Text) : Option (Text × Text) :=
  if isAssignment text then
    some (text.takeWhile (· ≠ '='), (text.dropWhile (· ≠ '=')).drop 1)
  else none

/-- The utilities that are part of the shell itself and change what it does. -/
def special : List Text :=
  [":", ".", "break", "cd", "command", "continue", "eval", "exec", "exit", "readonly", "return",
    "set", "shift", "times", "trap", "unset"].map String.toList

/-- The operands of `env`: the variables, and what is to be started. -/
def envOperands : List Text → List (Text × Text) × List Text
  | [] => ([], [])
  | word :: rest =>
      match assignment word with
      | some a => (a :: (envOperands rest).1, (envOperands rest).2)
      | none => ([], word :: rest)

def Shell.start (status : Invocation → Nat) (s : Shell) (inv : Invocation) :
    Option (Shell × Nat) :=
  some ({ s with ran := s.ran ++ [inv] }, status inv)

/-- A simple command; `none` where it is more than is modelled here. -/
def Shell.simple (status : Invocation → Nat) (s : Shell) (redirects : List (Text × Text)) :
    List Text → Option (Shell × Nat)
  | [] => none
  | name :: args =>
      if name = "export".toList then
        some ({ s with env := s.env ++ args.filterMap assignment }, 0)
      else if special.contains name then none
      else if name = "env".toList then
        match envOperands args with
        | (vars, utility :: operands) =>
            if utility.head? = some '-' then none
            else s.start status ⟨utility :: operands, s.env ++ vars, redirects⟩
        | (_, []) => none
      else s.start status ⟨name :: args, s.env, redirects⟩

/-- Run a command in a shell, with the exit status each invocation will have. -/
def exec (status : Invocation → Nat) : Cmd Text → Shell → Option (Shell × Nat)
  | .simple argv redirects, s => s.simple status redirects argv
  -- what a subshell exports is gone with it
  | .subshell body, s => (exec status body s).map fun p => ({ s with ran := p.1.ran }, p.2)
  | .orElse first second, s =>
      (exec status first s).bind fun p => if p.2 = 0 then some p else exec status second p.1
  | .seq first second, s => (exec status first s).bind fun p => exec status second p.1

/-- The name of a utility the shell looks up and starts, which no utility takes
for an option or a variable. -/
def IsProgram (name : Text) : Prop :=
  '=' ∉ name ∧ name.head? ≠ some '-' ∧
    name ∉ reserved ++ special ++ ["export".toList, "env".toList]

instance (name : Text) : Decidable (IsProgram name) := inferInstanceAs (Decidable (_ ∧ _ ∧ _))

section Programs

variable {status : Invocation → Nat} {s : Shell} {name : Text} {args : List Text}
  {redirects : List (Text × Text)}

theorem isAssignment_mem {text : Text} (h : isAssignment text = true) : '=' ∈ text := by
  rw [isAssignment, Bool.and_eq_true] at h
  have hhead := eq_of_beq h.2
  exact (List.dropWhile_sublist _).mem (List.mem_of_mem_head? hhead)

/-- A name a variable can have. -/
def IsName (name : Text) : Prop :=
  name.head?.any isNameStart = true ∧ name.all (fun c => isNameStart c || c.isDigit) = true

instance (name : Text) : Decidable (IsName name) := inferInstanceAs (Decidable (_ ∧ _))

theorem assignment_of_name (h : IsName name) (value : Text) :
    assignment (name ++ '=' :: value) = some (name, value) := by
  obtain ⟨hstart, hall⟩ := h
  have hne : ∀ c ∈ name, (c ≠ '=') := by
    rintro c hc rfl
    exact absurd (List.all_eq_true.mp hall _ hc) (by decide)
  have htake : (name ++ '=' :: value).takeWhile (· ≠ '=') = name := by
    rw [List.takeWhile_append_of_pos (by simpa using hne)]
    simp
  have hdrop : (name ++ '=' :: value).dropWhile (· ≠ '=') = '=' :: value := by
    rw [List.dropWhile_append_of_pos (by simpa using hne)]
    simp
  have hassign : isAssignment (name ++ '=' :: value) = true := by
    have hhead : (name ++ '=' :: value).head? = name.head? := by
      cases name with
      | nil => cases hstart
      | cons c name => rfl
    rw [isAssignment, hhead, hstart, List.dropWhile_append_of_pos (List.all_eq_true.mp hall)]
    rfl
  rw [assignment, if_pos hassign, htake, hdrop]
  rfl

theorem IsProgram.isCommandWord (h : IsProgram name) (bare : Bool) :
    isCommandWord name bare = true := by
  obtain ⟨hequals, -, hname⟩ := h
  have hassign : isAssignment name = false := by
    by_contra hassign
    exact hequals (isAssignment_mem (Bool.not_eq_false _ ▸ hassign))
  have hreserved : reserved.contains name = false := by
    rw [← Bool.not_eq_true, List.contains_iff_mem]
    exact fun hmem => hname (List.mem_append_left _ (List.mem_append_left _ hmem))
  rw [Sh.isCommandWord, hassign, hreserved]
  simp

theorem IsProgram.simple (h : IsProgram name) :
    s.simple status redirects (name :: args) = s.start status ⟨name :: args, s.env, redirects⟩ := by
  obtain ⟨-, -, hname⟩ := h
  simp only [List.mem_append, List.mem_cons, not_or] at hname
  obtain ⟨⟨-, hspecial⟩, hexport, henv, -⟩ := hname
  rw [Shell.simple, if_neg hexport, if_neg (by simpa using hspecial), if_neg henv]

theorem IsProgram.envOperands (h : IsProgram name) :
    envOperands (name :: args) = ([], name :: args) := by
  have hassign : assignment name = none := by
    rw [assignment, if_neg fun hassign => h.1 (isAssignment_mem hassign)]
  rw [Sh.envOperands, hassign]

theorem IsProgram.throughEnv (h : IsProgram name) {var : Text} {v : Text × Text}
    (hvar : assignment var = some v) :
    s.simple status redirects ("env".toList :: var :: name :: args)
      = s.start status ⟨name :: args, s.env ++ [v], redirects⟩ := by
  have hoperands : Sh.envOperands (var :: name :: args) = ([v], name :: args) := by
    rw [Sh.envOperands, hvar, h.envOperands]
  rw [Shell.simple, if_neg (by decide), if_neg (by decide), if_pos rfl, hoperands]
  simp only [if_neg h.2.1]

end Programs

end Sh
