import Morsh.Lib.Words

/-!
# How command lines are read

The POSIX shell, the argument rules of the Microsoft C runtime and PowerShell's
single-quoted strings as grammars; `cmd.exe`, which reads a line without
splitting it; and ssh, which fills in its tokens first.

Each grammar is a table: for a mode and a character the action and the next mode.
What holds of all of them is proved of grammars, and nothing here but the tables
knows which shell it is.
-/

namespace Words

def isBlank (c : Char) : Bool := c == ' ' || c == '\t'

/-! ## POSIX -/

inductive PosixMode where
  | plain | quoted | escaped
  deriving DecidableEq, Repr

/-- Outside quotes only these characters mean themselves. -/
def posixFree (c : Char) : Bool := c.isAlphanum || "@%+=:,./-_".toList.contains c

def posix : Grammar PosixMode where
  read
    | .plain, c =>
        if isBlank c then some .blank
        else if c = '\'' then some (.begin .quoted)
        else if c = '\\' then some (.turn .escaped)
        -- anything else is an expansion, an operator, a comment
        else if posixFree c then some (.put c .plain)
        else none
    | .quoted, c => some (if c = '\'' then .turn .plain else .put c .quoted)
    -- a backslash and a line feed are nothing
    | .escaped, c => some (if c = '\n' then .turn .plain else .put c .plain)
  between := .plain
  ends mode := mode == .plain

/-! ## The Microsoft C runtime -/

inductive MsvcMode where
  | plain
  /-- Inside double quotes. -/
  | group
  /-- Behind a quote that ends the group unless another follows. -/
  | closing
  deriving DecidableEq, Repr

def msvc : Grammar MsvcMode where
  read
    | .plain, c =>
        some (if isBlank c then .blank else if c = '"' then .begin .group else .put c .plain)
    | .group, c => some (if c = '"' then .turn .closing else .put c .group)
    | .closing, c =>
        some (if c = '"' then .put '"' .group else if isBlank c then .blank else .put c .plain)
  between := .plain
  -- a group may be left open
  ends _ := true

/-! ## PowerShell -/

inductive PwshMode where
  | plain | string | closing
  deriving DecidableEq, Repr

/-- Each of them opens a string, and each of them closes it. -/
def pwshQuotes : List Char := ['\'', '\u2018', '\u2019', '\u201a', '\u201b']

def isPwshQuote (c : Char) : Bool := pwshQuotes.contains c

def pwsh : Grammar PwshMode where
  read
    | .plain, c =>
        -- outside strings is code
        if isPwshQuote c then some (.begin .string) else if isBlank c then some .blank else none
    | .string, c => some (if isPwshQuote c then .turn .closing else .put c .string)
    | .closing, c =>
        if isPwshQuote c then some (.put c .string) else if isBlank c then some .blank else none
  between := .plain
  ends mode := mode != .string

/-! ## cmd.exe -/

inductive CmdMode where
  | plain
  /-- Behind a percent sign. -/
  | percent
  /-- Behind a percent sign and at least one character of a name. -/
  | name
  | quoted
  deriving DecidableEq, Repr

def isCmdOperator (c : Char) : Bool := "&|<>^()".toList.contains c

/-- One character; `none` where it is an operator, or the end of `%NAME%`. -/
def cmdStep : CmdMode → Char → Option CmdMode
  | .quoted, c => some (if c = '"' then .plain else .quoted)
  | mode, c =>
      if c = '"' then some .quoted
      else if isCmdOperator c then none
      else if c = '%' then (if mode = .name then none else some .percent)
      else some (if mode = .plain then .plain else .name)

/-- Whether `cmd.exe` passes the line on as it is, as one command. -/
def cmdPasses (line : List Char) : Bool := (Run.run cmdStep .plain line).isSome

/-! ## ssh -/

/-- Fill in the tokens of a line; `none` where there is no such token. -/
def expand (token : Char → Option (List Char)) : List Char → Option (List Char)
  | [] => some []
  | ['%'] => none
  | '%' :: c :: rest =>
      (if c = '%' then some ['%'] else token c).bind fun value =>
        (expand token rest).map (value ++ ·)
  | c :: rest => (expand token rest).map (c :: ·)

/-- A percent sign that is doubled is one. -/
theorem expand_doubled (token : Char → Option (List Char)) (text rest : List Char) :
    expand token ((text.flatMap fun c => if c = '%' then ['%', '%'] else [c]) ++ rest)
      = (expand token rest).map (text ++ ·) := by
  induction text with
  | nil => simp
  | cons c text ih =>
      rw [List.flatMap_cons, List.append_assoc]
      by_cases hc : c = '%'
      · subst hc
        rw [if_pos rfl, List.cons_append, List.cons_append, List.nil_append, expand, ih, if_pos rfl,
          Option.bind_some, Option.map_map]
        rfl
      · rw [if_neg hc, List.singleton_append, expand, ih, Option.map_map]
        · rfl
        · rintro rfl
          exact fun _ => hc rfl
        · rintro _ _ rfl
          exact fun _ => hc rfl

end Words
