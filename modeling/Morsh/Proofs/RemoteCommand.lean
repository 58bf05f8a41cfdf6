import Morsh.Lib.Sh
import Morsh.Proofs.CommandLine
import Morsh.Proofs.Quoting
import Morsh.Wrapper.Launch

/-!
# What the launch command does

Read by the POSIX shell, the command the wrapper builds is the one it meant: it
exports the locale, starts the first server, and the second one where the first
fails, each with the arguments the wrapper had for it.

A string the wrapper quotes is one piece of a word to the shell, and an argument
that needs no quoting is a word as it stands, so the command line is the print of
a syntax tree, the tree `runSpelled`, behind the operands of `export`. The shell's
lexer and parser, run on a print, give the tree back; that is a fact about the
language, proved in its library for any tree. Running the tree is evaluation by
its clauses: exporting the variables, then the attempts, each an invocation with
its arguments, its variables and where its output goes.

What the arguments mean to the server is the theorem about its parser, from which
come the conditions on what may be given: a port range that parses, and no
address and no log file that starts with a dash.
-/

namespace Morsh

open Sh

/-! ## Words -/

/-- Whether `shell_quote` leaves it alone. -/
def isBareWord (text : String) : Bool := decide (text ≠ "" ∧ text.toList.all isBare = true)

/-- Inside single quotes every character is put into the word. A quote is spliced
in: it ends the quotes, is escaped, and opens them again, so the lexer is where it
was. -/
theorem run_spliced (done : List Token) (text front : Sh.Text) :
    Run.run Lexer.step ⟨done, some (front, false), .quoted⟩
        (text.flatMap fun c => if c = '\'' then "'\\''".toList else [c])
      = some ⟨done, some (front ++ text, false), .quoted⟩ := by
  induction text generalizing front with
  | nil => rw [List.append_nil, List.flatMap_nil, Run.run_nil]
  | cons c text ih =>
      have hrest := ih (front ++ [c])
      rw [List.append_assoc, List.singleton_append] at hrest
      rw [List.flatMap_cons]
      refine Run.run_append.mpr ⟨⟨done, some (front ++ [c], false), .quoted⟩, ?_, hrest⟩
      by_cases hquote : c = '\''
      · subst hquote
        rfl
      · rw [if_neg hquote]
        refine Run.run_cons.mpr ⟨_, ?_, rfl⟩
        simp [Lexer.step, hquote, Lexer.put, Lexer.current]

/-- A quoted string is put into the word as it is. -/
theorem run_shellQuote (text : String) (done : List Token) (word : Option (Sh.Text × Bool)) :
    Run.run Lexer.step ⟨done, word, .plain⟩ (shellQuote text).toList
      = some ⟨done, some ((word.getD ([], true)).1 ++ text.toList,
          (word.getD ([], true)).2 && isBareWord text), .plain⟩ := by
  by_cases hbare : text ≠ "" ∧ text.toList.all isBare = true
  · obtain ⟨c, rest, htext⟩ := List.exists_cons_of_ne_nil
      (show text.toList ≠ [] by simpa using hbare.1)
    have hfree : (c :: rest).all Words.posixFree = true := htext ▸ hbare.2
    rw [List.all_cons, Bool.and_eq_true] at hfree
    rw [shellQuote, if_pos hbare, isBareWord, decide_eq_true hbare, Bool.and_true, htext]
    refine Run.run_cons.mpr ⟨_, Lexed.step_free rfl hfree.1, ?_⟩
    have hrest := Lexed.run_free hfree.2 done ((word.getD ([], true)).1 ++ [c])
      (word.getD ([], true)).2
    rw [List.append_assoc, List.singleton_append] at hrest
    rw [← hrest, Lexer.put, Lexer.current, Bool.and_true]
  · have htext : (shellQuote text).toList
        = '\'' :: ((text.toList.flatMap fun c => if c = '\'' then "'\\''".toList else [c])
          ++ ['\'']) := by
      simp only [shellQuote, if_neg hbare, String.toList_append, replaceChar, String.toList_ofList]
      rfl
    rw [htext, isBareWord, decide_eq_false hbare, Bool.and_false]
    refine Run.run_cons.mpr ⟨⟨done, some ((word.getD ([], true)).1, false), .quoted⟩, rfl,
      Run.run_append.mpr ⟨_, run_spliced done text.toList (word.getD ([], true)).1, rfl⟩⟩

/-- A quoted argument. -/
def quoted (text : String) : Spelled where
  text := text.toList
  spelling := (shellQuote text).toList
  bare := isBareWord text
  reads done := run_shellQuote text done none

/-- An assignment whose value is quoted. -/
def assigned (name value : String) (hname : name.toList.all isBare = true) : Spelled where
  text := name.toList ++ '=' :: value.toList
  spelling := name.toList ++ '=' :: (shellQuote value).toList
  bare := isBareWord value
  reads done := by
    have hfree : (name.toList ++ ['=']).all Words.posixFree = true := by
      rw [List.all_append, Bool.and_eq_true]
      exact ⟨hname, rfl⟩
    have hquote := run_shellQuote value done (some (name.toList ++ ['='], true))
    rw [Option.getD_some, Bool.true_and, List.append_assoc, List.singleton_append] at hquote
    rw [List.append_cons]
    exact Run.run_append.mpr ⟨_, Lexed.run_free_start (by simp) hfree done, hquote⟩

/-! ## The command -/

variable {first second : List String} {rustLog : Option String}
  {localeVars : List (String × String)}

/-- The variables that are exported. -/
def exported (localeVars : List (String × String)) : List (String × String) :=
  if localeVars = [] then [("LC_ALL", "C.UTF-8")] else localeVars.filter (·.2 ≠ "")

/-- What the wrapper has to say on a POSIX remote. -/
def launchCmd (first : List String) (second : Option (List String)) (rustLog : Option String)
    (localeVars : List (String × String)) : Cmd Sh.Text :=
  .seq (.simple ("export".toList :: (exported localeVars).map fun v =>
      v.1.toList ++ '=' :: v.2.toList) []) <|
    let run := (rustLog.elim [] fun v => ["env".toList, "RUST_LOG=".toList ++ v.toList])
      ++ first.map String.toList
    match second with
    | some second =>
        .orElse (.subshell (.simple run [(['2'], "/dev/null".toList)]))
          (.simple (second.map String.toList) [])
    | none => .simple run []

/-- The first server, through `env` where there is a log setting to pass on. -/
def firstLine (first : List String) (rustLog : Option String) : String :=
  match rustLog with
  | some v => "env RUST_LOG=" ++ shellQuote v ++ " " ++ shellQuoteAll first
  | none => shellQuoteAll first

def firstSpelled (first : List String) (rustLog : Option String) : List Spelled :=
  (rustLog.elim [] fun v => [quoted "env", assigned "RUST_LOG" v (by decide)]) ++ first.map quoted

/-- What it runs, as it is spelled. -/
def runSpelled (first : List String) (second : Option (List String)) (rustLog : Option String) :
    Cmd Spelled :=
  match second with
  | some second =>
      .orElse (.subshell (.simple (firstSpelled first rustLog) [(['2'], quoted "/dev/null")]))
        (.simple (second.map quoted) [])
  | none => .simple (firstSpelled first rustLog) []

theorem spelling_quoted (parts : List String) :
    [' '].intercalate ((parts.map quoted).map (·.spelling)) = (shellQuoteAll parts).toList := by
  rw [shellQuoteAll, String.toList_intercalate, List.map_map, List.map_map]
  rfl

theorem spelling_first (hfirst : first ≠ []) (rustLog : Option String) :
    [' '].intercalate ((firstSpelled first rustLog).map (·.spelling))
      = (firstLine first rustLog).toList := by
  cases rustLog with
  | none => exact spelling_quoted first
  | some v =>
      obtain ⟨path, args, rfl⟩ := List.exists_cons_of_ne_nil hfirst
      have hrest := spelling_quoted (path :: args)
      simp only [firstSpelled, Option.elim_some, List.cons_append, List.nil_append, List.map_cons,
        List.intercalate_cons_cons, firstLine, String.toList_append] at hrest ⊢
      rw [hrest]
      simp only [quoted, assigned, List.append_assoc]
      rfl

theorem print_runSpelled (hfirst : first ≠ []) (second : Option (List String))
    (rustLog : Option String) :
    (runSpelled first second rustLog).print
      = (match second with
        | some second => "(" ++ firstLine first rustLog ++ " 2>/dev/null) || "
            ++ shellQuoteAll second
        | none => firstLine first rustLog).toList := by
  have hrun := spelling_first hfirst rustLog
  cases second with
  | none =>
      simp only [runSpelled, Cmd.print, List.flatMap_nil, List.append_nil]
      exact hrun
  | some second =>
      have hsecond := spelling_quoted second
      simp only [runSpelled, Cmd.print, List.flatMap_cons, List.flatMap_nil, List.append_nil,
        String.toList_append, ← hrun, ← hsecond, firstSpelled]
      simp [quoted]
      rfl

/-- A server can be started by its path. -/
def Startable (argv : List String) : Prop :=
  ∃ path args, argv = path :: args ∧ IsProgram path.toList

theorem formed_first (hfirst : Startable first) (rustLog : Option String)
    {redirects : List (Sh.Text × Spelled)} (hfd : ∀ r ∈ redirects, r.1.all Char.isDigit = true) :
    (Cmd.simple (firstSpelled first rustLog) redirects).Formed := by
  obtain ⟨path, args, rfl, hpath⟩ := hfirst
  refine ⟨?_, hfd⟩
  cases rustLog with
  | none => exact hpath.isCommandWord _
  | some v => rfl

theorem formed_runSpelled (hfirst : Startable first) {second : Option (List String)}
    (hsecond : ∀ argv, second = some argv → Startable argv) (rustLog : Option String) :
    (runSpelled first second rustLog).Formed ∧ (runSpelled first second rustLog).level ≤ 1 := by
  cases second with
  | none => exact ⟨formed_first hfirst rustLog (by simp), Nat.zero_le _⟩
  | some argv =>
      obtain ⟨path, args, rfl, hpath⟩ := hsecond _ rfl
      exact ⟨⟨Nat.zero_le _, rfl, formed_first hfirst rustLog (by simp),
        hpath.isCommandWord _, by simp⟩, Nat.le_refl _⟩

theorem texts_quoted (parts : List String) :
    (parts.map quoted).map (·.text) = parts.map String.toList := by
  rw [List.map_map]
  rfl

/-- The operands of `export`, as they are spelled. -/
def exportSpelled (vars : List (String × String))
    (h : ∀ v ∈ vars, v.1.toList.all isBare = true) : List Spelled :=
  vars.pmap (fun v hv => assigned v.1 v.2 hv) h

theorem texts_exportSpelled {vars : List (String × String)}
    (h : ∀ v ∈ vars, v.1.toList.all isBare = true) :
    (exportSpelled vars h).map (·.text) = vars.map fun v => v.1.toList ++ '=' :: v.2.toList := by
  rw [exportSpelled, List.map_pmap]
  exact List.pmap_eq_map ..

theorem spelling_exportSpelled {vars : List (String × String)}
    (h : ∀ v ∈ vars, v.1.toList.all isBare = true) :
    [' '].intercalate ((exportSpelled vars h).map (·.spelling))
      = (" ".intercalate (vars.map fun v => v.1 ++ "=" ++ shellQuote v.2)).toList := by
  have hspelling : (exportSpelled vars h).map (·.spelling)
      = vars.map fun v => v.1.toList ++ '=' :: (shellQuote v.2).toList := by
    rw [exportSpelled, List.map_pmap]
    exact List.pmap_eq_map ..
  rw [hspelling, String.toList_intercalate, List.map_map]
  refine congrArg _ (List.map_congr_left fun v _ => ?_)
  simp

theorem exported_bare (hnames : ∀ v ∈ localeVars, v.1.toList.all isBare = true) :
    ∀ v ∈ exported localeVars, v.1.toList.all isBare = true := by
  unfold exported
  split
  · exact List.forall_mem_singleton.mpr (by decide)
  · exact fun v hv => hnames v (List.mem_of_mem_filter hv)

/-- The launch command: `export` and its operands, and what is run. -/
theorem toList_renderRemoteCommand (hfirst : first ≠ []) (second : Option (List String))
    (rustLog : Option String)
    (hbare : ∀ v ∈ exported localeVars, v.1.toList.all isBare = true) :
    (renderRemoteCommand .posix first second rustLog localeVars).toList
      = ((quoted "export").spelling ++ ' ' ::
          [' '].intercalate ((exportSpelled (exported localeVars) hbare).map (·.spelling)))
        ++ ';' :: ([] ++ ' ' :: (runSpelled first second rustLog).print) := by
  have hrender : renderRemoteCommand .posix first second rustLog localeVars
      = (if localeVars = [] then "export LC_ALL=C.UTF-8"
        else "export " ++ " ".intercalate ((localeVars.filter (·.2 ≠ "")).map fun v =>
          v.1 ++ "=" ++ shellQuote v.2)) ++ "; " ++
        match second with
        | some second => "(" ++ firstLine first rustLog ++ " 2>/dev/null) || "
            ++ shellQuoteAll second
        | none => firstLine first rustLog := rfl
  have hexport : (if localeVars = [] then "export LC_ALL=C.UTF-8"
      else "export " ++ " ".intercalate ((localeVars.filter (·.2 ≠ "")).map fun v =>
        v.1 ++ "=" ++ shellQuote v.2))
      = "export " ++ " ".intercalate ((exported localeVars).map fun v =>
        v.1 ++ "=" ++ shellQuote v.2) := by
    unfold exported
    split <;> rfl
  have hspelling : (quoted "export").spelling = "export".toList := by decide
  have hblank : "export ".toList = "export".toList ++ [' '] := by decide
  have hsemi : "; ".toList = [';', ' '] := by decide
  rw [hrender, hexport, print_runSpelled hfirst, spelling_exportSpelled, String.toList_append,
    String.toList_append, String.toList_append, hspelling, hblank, hsemi, List.append_assoc,
    List.append_assoc, List.append_assoc]
  rfl

theorem texts_first (first : List String) (rustLog : Option String) :
    (firstSpelled first rustLog).map (·.text)
      = (rustLog.elim [] fun v => ["env".toList, "RUST_LOG=".toList ++ v.toList])
        ++ first.map String.toList := by
  rw [firstSpelled, List.map_append, texts_quoted]
  cases rustLog with
  | none => rfl
  | some v => rfl

/-- The launch command is read as it is meant. Its text is the spelling of a
command tree, and the parser reads the spelling of a well-formed tree back as the
tree. -/
theorem parse_launch (hfirst : Startable first) {second : Option (List String)}
    (hsecond : ∀ argv, second = some argv → Startable argv) (rustLog : Option String)
    (hnames : ∀ v ∈ localeVars, v.1.toList.all isBare = true) :
    Sh.parse (renderRemoteCommand .posix first second rustLog localeVars).toList
      = some (launchCmd first second rustLog localeVars) := by
  have hbare := exported_bare hnames
  have hne : first ≠ [] := by
    obtain ⟨path, args, rfl, -⟩ := hfirst
    exact List.cons_ne_nil _ _
  obtain ⟨hformed, hlevel⟩ := formed_runSpelled hfirst hsecond rustLog
  have hcmd : (Cmd.seq (.simple (quoted "export" :: exportSpelled (exported localeVars) hbare) [])
      (runSpelled first second rustLog)).Formed := ⟨hlevel, ⟨rfl, by simp⟩, hformed⟩
  have hline := ((Lexed.spelled (quoted "export")).blank
    (@Lexed.words (exportSpelled (exported localeVars) hbare))).semi
    (.blank .nil ((runSpelled first second rustLog).lexed hformed))
  rw [← toList_renderRemoteCommand hne second rustLog hbare] at hline
  have htokens : (Cmd.seq (.simple (quoted "export" ::
      exportSpelled (exported localeVars) hbare) []) (runSpelled first second rustLog)).tokens
      = ([(quoted "export").token] ++ (exportSpelled (exported localeVars) hbare).map (·.token))
        ++ .semi :: ([] ++ (runSpelled first second rustLog).tokens) := by
    rw [Cmd.tokens, Cmd.tokens, List.flatMap_nil, List.append_nil]
    rfl
  rw [← htokens] at hline
  rw [hline.parsed hcmd]
  refine congrArg some ?_
  have hexports := texts_exportSpelled hbare
  have hrun := texts_first first rustLog
  cases second with
  | none =>
      simp only [Cmd.texts, Cmd.map, runSpelled, launchCmd, List.map_cons, hexports, hrun,
        List.map_nil]
      rfl
  | some second =>
      simp only [Cmd.texts, Cmd.map, runSpelled, launchCmd, List.map_cons, hexports, hrun,
        List.map_nil, texts_quoted]
      rfl

/-! ## What it does -/

def toTexts (vars : List (String × String)) : List (Sh.Text × Sh.Text) :=
  vars.map fun v => (v.1.toList, v.2.toList)

/-- A server as the launch command starts it. -/
def launched (argv : List String) (rustLog : Option String) (localeVars : List (String × String))
    (redirects : List (Sh.Text × Sh.Text)) : Invocation where
  argv := argv.map String.toList
  env := toTexts (exported localeVars ++ (rustLog.map fun v => ("RUST_LOG", v)).toList)
  redirects := redirects

theorem filterMap_assignment {vars : List (String × String)}
    (h : ∀ v ∈ vars, IsName v.1.toList) :
    (vars.map fun v => v.1.toList ++ '=' :: v.2.toList).filterMap assignment = toTexts vars := by
  rw [List.filterMap_map, toTexts, ← List.filterMap_eq_map]
  refine List.filterMap_congr fun v hv => ?_
  exact assignment_of_name (h v hv) v.2.toList

/-- Starting the first server, through `env` or not. Either way the same utility
is started with the same arguments; `env` only adds `RUST_LOG` to its environment.
-/
theorem start_first (hfirst : Startable first) (rustLog : Option String)
    (status : Invocation → Nat) (ran : List Invocation) (redirects : List (Sh.Text × Sh.Text)) :
    (⟨toTexts (exported localeVars), ran⟩ : Shell).simple status redirects
        ((rustLog.elim [] fun v => ["env".toList, "RUST_LOG=".toList ++ v.toList])
          ++ first.map String.toList)
      = some (⟨toTexts (exported localeVars), ran ++ [launched first rustLog localeVars redirects]⟩,
          status (launched first rustLog localeVars redirects)) := by
  obtain ⟨path, args, rfl, hpath⟩ := hfirst
  cases rustLog with
  | none =>
      have henv : (launched (path :: args) none localeVars redirects).env
          = toTexts (exported localeVars) := congrArg toTexts (List.append_nil _)
      have hrun := @IsProgram.simple status ⟨toTexts (exported localeVars), ran⟩ path.toList
        (args.map String.toList) redirects hpath
      rw [← henv] at hrun ⊢
      exact hrun
  | some v =>
      have hvar : assignment ("RUST_LOG=".toList ++ v.toList)
          = some ("RUST_LOG".toList, v.toList) :=
        @assignment_of_name "RUST_LOG".toList (by decide) v.toList
      have henv : (launched (path :: args) (some v) localeVars redirects).env
          = toTexts (exported localeVars) ++ [("RUST_LOG".toList, v.toList)] :=
        List.map_append
      have hrun := @IsProgram.throughEnv status ⟨toTexts (exported localeVars), ran⟩ path.toList
        (args.map String.toList) redirects hpath _ _ hvar
      rw [← henv] at hrun
      exact hrun

/-- The servers that are started: the second one where the first fails, whose
complaint nobody sees. -/
def attempts (status : Invocation → Nat) (first : List String) (second : Option (List String))
    (rustLog : Option String) (localeVars : List (String × String)) : List Invocation :=
  match second with
  | none => [launched first rustLog localeVars []]
  | some second =>
      let attempt := launched first rustLog localeVars [(['2'], "/dev/null".toList)]
      if status attempt = 0 then [attempt] else [attempt, launched second none localeVars []]

/-- The launch command exports the locale and makes the attempts. The subshell
starts from the exported environment, and the second attempt is made if the status
of the first is not 0. -/
theorem exec_launch (hfirst : Startable first) {second : Option (List String)}
    (hsecond : ∀ argv, second = some argv → Startable argv) (rustLog : Option String)
    (hnames : ∀ v ∈ exported localeVars, IsName v.1.toList) (status : Invocation → Nat) :
    (exec status (launchCmd first second rustLog localeVars) ⟨[], []⟩).map (·.1.ran)
      = some (attempts status first second rustLog localeVars) := by
  have hexport : exec status (.simple ("export".toList :: (exported localeVars).map fun v =>
      v.1.toList ++ '=' :: v.2.toList) []) ⟨[], []⟩
      = some (⟨toTexts (exported localeVars), []⟩, 0) := by
    rw [exec, Shell.simple, if_pos rfl, filterMap_assignment hnames]
    rfl
  cases second with
  | none =>
      have hstart := @start_first first localeVars hfirst rustLog status [] []
      rw [launchCmd, exec, hexport]
      exact congrArg (Option.map _) hstart
  | some argv =>
      let attempt := launched first rustLog localeVars [(['2'], "/dev/null".toList)]
      have hstart := @start_first first localeVars hfirst rustLog status []
        [(['2'], "/dev/null".toList)]
      have hsecond' := @start_first argv localeVars (hsecond _ rfl) none status [attempt] []
      rw [launchCmd, exec, hexport, Option.bind_some, exec, exec, exec, hstart, Option.map_some,
        Option.bind_some]
      by_cases hcode : status attempt = 0
      · rw [if_pos hcode, attempts, if_pos hcode]
        rfl
      · rw [if_neg hcode, attempts, if_neg hcode]
        exact congrArg (Option.map _) hsecond'

/-! ## What the wrapper means -/

/-- A server was started: which one, with which settings, variables and output. -/
structure Started (inv : Invocation) (path : String) (opts : CliOptions)
    (env : List (String × String)) (redirects : List (Sh.Text × Sh.Text)) : Prop where
  program : inv.argv.head? = some path.toList
  settings : Cli.parseArgs (inv.argv.tail.map String.ofList) = .run opts
  environment : inv.env = toTexts env
  output : inv.redirects = redirects

namespace WrapperArgs

/-- The settings that the wrapper means the server to have. -/
def meant (args : WrapperArgs) (ports : Nat × Nat) (localeVars : List (String × String)) :
    CliOptions where
  portLow := ports.1
  portHigh := ports.2
  bindAddr := args.bindArg.addr
  useSshConnection := decide (args.bindArg = .sshConnection)
  noDaemonize := args.noDaemonize
  logFile := args.serverLogFile
  localeVars := localeVars
  commandArgs := args.command
  colors := 0
  verbose := 0

variable {args : WrapperArgs} {ports : Nat × Nat} {localeVars : List (String × String)}

/-- The server at `path` as the wrapper invokes it. -/
def invoked (args : WrapperArgs) (path : String) (localeVars : List (String × String)) :
    List String :=
  buildServerArgs path args.bindArg args.portRange args.serverLogFile args.noDaemonize args.command
    localeVars

theorem invoked_startable (localeVars : List (String × String)) {path : String}
    (hpath : IsProgram path.toList) : Startable (args.invoked path localeVars) :=
  ⟨path, _, buildServerArgs_eq .., hpath⟩

/-- An invocation of the server sets it to what is meant. -/
theorem started (path : String) (rustLog : Option String) (redirects : List (Sh.Text × Sh.Text))
    (hports : args.portRange.elim (.ok (0, 0)) Cli.parsePortrange = .ok ports)
    (hnames : ∀ v ∈ localeVars, '=' ∉ v.1.toList)
    (haddr : ∀ ip, args.bindArg = .address ip → ¬Cli.startsWithDash ip)
    (hlog : ∀ file, args.serverLogFile = some file → ¬Cli.startsWithDash file) :
    Started (launched (args.invoked path localeVars) rustLog localeVars redirects) path
      (args.meant ports localeVars)
      (exported localeVars ++ (rustLog.map fun v => ("RUST_LOG", v)).toList) redirects where
  program := by
    rw [launched, invoked, buildServerArgs_eq]
    rfl
  settings := by
    have hargs : (launched (args.invoked path localeVars) rustLog localeVars
        redirects).argv.tail.map String.ofList = (args.invoked path localeVars).tail := by
      rw [launched, ← List.map_tail, List.map_map]
      exact (List.map_congr_left fun arg _ => String.ofList_toList).trans (List.map_id _)
    rw [hargs, invoked, buildServerArgs_eq, List.tail_cons,
      Cli.parseArgs_new args.command (ordinary_optionArgs hports haddr hlog),
      parseOptions_optionArgs args.command hports hnames]
    rfl
  environment := rfl
  output := rfl

end WrapperArgs

theorem mem_collectLocaleVars {env : String → Option String} {v : String × String}
    (h : v ∈ collectLocaleVars env) : v.1 ∈ LOCALE_NAMES := by
  obtain ⟨name, hname, hv⟩ := List.mem_filterMap.mp h
  obtain ⟨val, -, rfl⟩ := Option.map_eq_some_iff.mp hv
  exact hname

theorem exported_isName (env : String → Option String) :
    ∀ v ∈ exported (collectLocaleVars env), IsName v.1.toList := by
  have hlocale : ∀ name ∈ LOCALE_NAMES, IsName name.toList := by decide +kernel
  unfold exported
  split
  · exact List.forall_mem_singleton.mpr (by decide)
  · exact fun v hv => hlocale v.1 (mem_collectLocaleVars (List.mem_of_mem_filter hv))

/-- Run by a POSIX shell, the launch command starts the server the wrapper was
told to, or `mosh-server` where there is no working `morsh-server`, each with the
settings and the variables the wrapper has for it, whatever characters they hold. -/
theorem launch_command_meant (args : WrapperArgs) (rustLog : Option String)
    (env : String → Option String) (status : Invocation → Nat) {ports : Nat × Nat}
    (hpath : IsProgram args.serverPath.toList)
    (hports : args.portRange.elim (.ok (0, 0)) Cli.parsePortrange = .ok ports)
    (haddr : ∀ ip, args.bindArg = .address ip → ¬Cli.startsWithDash ip)
    (hlog : ∀ file, args.serverLogFile = some file → ¬Cli.startsWithDash file) :
    let localeVars := collectLocaleVars env
    let opts := args.meant ports localeVars
    let logged := exported localeVars ++ (rustLog.map fun v => ("RUST_LOG", v)).toList
    ∃ cmd sh code,
      Sh.parse (buildRemoteCmd args args.bindArg .posix rustLog localeVars).toList = some cmd ∧
      exec status cmd ⟨[], []⟩ = some (sh, code) ∧
      (args.serverPath ≠ "morsh-server" →
        ∃ only, Started only args.serverPath opts logged [] ∧ sh.ran = [only]) ∧
      (args.serverPath = "morsh-server" →
        ∃ first second, Started first "morsh-server" opts logged [(['2'], "/dev/null".toList)] ∧
          Started second "mosh-server" opts (exported localeVars) [] ∧
          sh.ran = if status first = 0 then [first] else [first, second]) := by
  intro localeVars opts logged
  have hlocale : ∀ name ∈ LOCALE_NAMES, name.toList.all isBare = true ∧ '=' ∉ name.toList := by
    decide +kernel
  have hbare : ∀ v ∈ localeVars, v.1.toList.all isBare = true :=
    fun v hv => (hlocale v.1 (mem_collectLocaleVars hv)).1
  have hequals : ∀ v ∈ localeVars, '=' ∉ v.1.toList :=
    fun v hv => (hlocale v.1 (mem_collectLocaleVars hv)).2
  have hrun : ∀ {first : List String} {second : Option (List String)}, Startable first →
      (∀ argv, second = some argv → Startable argv) →
      ∃ cmd sh code,
        Sh.parse (renderRemoteCommand .posix first second rustLog localeVars).toList = some cmd ∧
        exec status cmd ⟨[], []⟩ = some (sh, code) ∧
        sh.ran = attempts status first second rustLog localeVars := by
    intro first second hfirst hsecond
    obtain ⟨p, hexec, hran⟩ := Option.map_eq_some_iff.mp
      (exec_launch hfirst hsecond rustLog (exported_isName env) status)
    exact ⟨_, p.1, p.2, parse_launch hfirst hsecond rustLog hbare, hexec, hran⟩
  have hstarted := fun path rustLog redirects =>
    WrapperArgs.started path rustLog redirects hports hequals haddr hlog
  by_cases hdefault : args.serverPath = "morsh-server"
  · obtain ⟨cmd, sh, code, hparse, hexec, hran⟩ := @hrun (args.invoked "morsh-server" localeVars)
      (some (args.invoked "mosh-server" localeVars))
      (WrapperArgs.invoked_startable localeVars (by decide +kernel))
      (by
        rintro argv ⟨⟩
        exact WrapperArgs.invoked_startable localeVars (by decide +kernel))
    refine ⟨cmd, sh, code, ?_, hexec, fun hother => absurd hdefault hother, fun _ =>
      ⟨_, _, hstarted "morsh-server" rustLog _, ?_, hran⟩⟩
    · rw [buildRemoteCmd, if_pos hdefault]
      exact hparse
    · have hsecond := hstarted "mosh-server" none []
      rw [Option.map_none, Option.toList_none, List.append_nil] at hsecond
      exact hsecond
  · obtain ⟨cmd, sh, code, hparse, hexec, hran⟩ := @hrun (args.invoked args.serverPath localeVars)
      none (WrapperArgs.invoked_startable localeVars hpath) nofun
    refine ⟨cmd, sh, code, ?_, hexec, fun _ => ⟨_, hstarted args.serverPath rustLog [], hran⟩,
      fun hsame => absurd hsame hdefault⟩
    rw [buildRemoteCmd, if_neg hdefault]
    exact hparse

theorem launch_command_meant_fallback :
    let args : WrapperArgs := ⟨some "60000:60010", "10.0.0.5", some "/tmp/it's.log", false,
      "morsh-server", ["sh", "-c", "echo $HOME; exit"]⟩
    let env := fun name => if name = "LANG" then some "a; b" else none
    ∃ cmd sh code,
      Sh.parse (buildRemoteCmd args args.bindArg .posix (some "debug, all")
        (collectLocaleVars env)).toList = some cmd ∧
      exec (fun _ => 127) cmd ⟨[], []⟩ = some (sh, code) ∧
      sh.ran.map (·.argv.head?) = [some "morsh-server".toList, some "mosh-server".toList] := by
  intro args env
  obtain ⟨cmd, sh, code, hparse, hexec, -, hran⟩ := @launch_command_meant args (some "debug, all")
    env (fun _ => 127) (60000, 60010) (by decide +kernel) (by decide +kernel)
    (by rintro ip h; cases h; decide) (by rintro file h; cases h; decide)
  obtain ⟨first, second, hfirst, hsecond, hran⟩ := hran rfl
  refine ⟨cmd, sh, code, hparse, hexec, ?_⟩
  rw [hran, if_neg (by decide), List.map_cons, List.map_cons, hfirst.program, hsecond.program]
  rfl

end Morsh
