import Mathlib.Data.List.Basic
import Morsh.Server.Cli
import Morsh.Wrapper.ServerArgs

/-!
# The server reads what the wrapper writes

The wrapper writes `new`, then flags, each with its value in an argument of its
own, then the command after the first `--`. No argument before that one is a
word the parser stops at, so its scan and its split both find the wrapper's
`--`; and a flag takes the argument after it whatever that is.

Three parts of the parser look at the line. The scan for `--help` and the like
sees every argument ahead of `--`, and the split takes what is behind it for the
command; for these two it is enough that no argument ahead is one of the words
they stop at (`Ordinary`). Flags are not, being what they are, and values are not
by how they look: a port range is digits and a colon, an address and a log file
do not start with a dash, and an assignment holds an equals sign. The options in
between are read flag by flag: `parseOptions` takes a flag with its value and
sets one field, so the settings are read off `optionArgs` from left to right.
-/

namespace Morsh

namespace Cli

variable {opts opts' : CliOptions} {rest : List String} {arg value : String}

/-! ## Splitting -/

theorem splitFirst_append {α : Type} [DecidableEq α] {a : α} {before : List α} (after : List α)
    (h : a ∉ before) : splitFirst a (before ++ a :: after) = some (before, after) := by
  induction before with
  | nil => rw [List.nil_append, splitFirst, if_pos rfl]
  | cons x before ih =>
      rw [List.mem_cons, not_or] at h
      rw [List.cons_append, splitFirst, if_neg (Ne.symm h.1), ih h.2, Option.map_some]

theorem splitFirst_eq_none {α : Type} [DecidableEq α] {a : α} {l : List α} (h : a ∉ l) :
    splitFirst a l = none := by
  induction l with
  | nil => rfl
  | cons x l ih =>
      rw [List.mem_cons, not_or] at h
      rw [splitFirst, if_neg (Ne.symm h.1), ih h.2, Option.map_none]

theorem splitOnce_assignment {name : String} (val : String) (h : '=' ∉ name.toList) :
    splitOnce '=' s!"{name}={val}" = some (name, val) := by
  have hchars : s!"{name}={val}".toList = name.toList ++ '=' :: val.toList := by
    simp [ToString.toString]
  rw [splitOnce, hchars, splitFirst_append _ h, Option.map_some, String.ofList_toList,
    String.ofList_toList]

/-! ## One option after another -/

theorem parseOptions_cons (opts : CliOptions) (arg : String) (rest : List String) :
    parseOptions opts (arg :: rest) =
      match oneOption rest.head? opts arg with
      | .error e => .error e
      | .ok (opts, true) => parseOptions opts rest.tail
      | .ok (opts, false) => parseOptions opts rest := by
  cases rest with
  | nil =>
      rw [parseOptions, List.head?_nil]
      rcases oneOption none opts arg with e | ⟨opts, _ | _⟩ <;> rfl
  | cons next rest =>
      rw [parseOptions, List.head?_cons]
      rfl

theorem parseOptions_flag (h : ∀ next, oneOption next opts arg = .ok (opts', false)) :
    parseOptions opts (arg :: rest) = parseOptions opts' rest := by
  rw [parseOptions_cons, h]

theorem parseOptions_value (h : oneOption (some value) opts arg = .ok (opts', true)) :
    parseOptions opts (arg :: value :: rest) = parseOptions opts' rest := by
  rw [parseOptions_cons, List.head?_cons, h]
  rfl

theorem parseOptions_ssh :
    parseOptions opts ("-s" :: rest)
      = parseOptions { opts with useSshConnection := true, bindAddr := none } rest :=
  parseOptions_flag fun _ => rfl

theorem parseOptions_daemon :
    parseOptions opts ("-D" :: rest) = parseOptions { opts with noDaemonize := true } rest :=
  parseOptions_flag fun _ => rfl

theorem parseOptions_bind :
    parseOptions opts ("-i" :: value :: rest)
      = parseOptions { opts with bindAddr := some value, useSshConnection := false } rest :=
  parseOptions_value rfl

theorem parseOptions_log :
    parseOptions opts ("--log-file" :: value :: rest)
      = parseOptions { opts with logFile := some value } rest :=
  parseOptions_value rfl

theorem parseOptions_ports {low high : Nat} (h : parsePortrange value = .ok (low, high)) :
    parseOptions opts ("-p" :: value :: rest)
      = parseOptions { opts with portLow := low, portHigh := high } rest := by
  have hshort : oneOption (some value) opts "-p"
      = (applyShort opts 'p' (some value)).map fun opts => (opts, true) := rfl
  have happly : applyShort opts 'p' (some value)
      = .ok { opts with portLow := low, portHigh := high } := by
    unfold applyShort
    simp only [Option.getD_some, h]
  exact parseOptions_value (by rw [hshort, happly]; rfl)

theorem parseOptions_locale (vars : List (String × String))
    (h : ∀ v ∈ vars, '=' ∉ v.1.toList) :
    parseOptions opts (vars.flatMap (fun v => ["-l", s!"{v.1}={v.2}"]) ++ rest)
      = parseOptions { opts with localeVars := opts.localeVars ++ vars } rest := by
  induction vars generalizing opts with
  | nil => rw [List.append_nil]; rfl
  | cons v vars ih =>
      have hshort : oneOption (some s!"{v.1}={v.2}") opts "-l"
          = (applyShort opts 'l' (some s!"{v.1}={v.2}")).map fun opts => (opts, true) := rfl
      have hone : oneOption (some s!"{v.1}={v.2}") opts "-l"
          = .ok ({ opts with localeVars := opts.localeVars ++ [v] }, true) := by
        have happly : applyShort opts 'l' (some s!"{v.1}={v.2}")
            = .ok { opts with localeVars := opts.localeVars ++ [v] } := by
          unfold applyShort
          simp only [Option.getD_some, splitOnce_assignment v.2 (h v List.mem_cons_self)]
        rw [hshort, happly]
        rfl
      rw [List.flatMap_cons, List.append_assoc, List.cons_append, List.cons_append,
        List.nil_append, parseOptions_value hone, ih fun u hu => h u (List.mem_cons_of_mem _ hu),
        List.append_assoc, List.singleton_append]

/-! ## The words the parser stops at -/

/-- None of the words that end the scan or the options. -/
def Ordinary (arg : String) : Prop := arg ∉ ["-h", "--help", "--version", "--"]

instance (arg : String) : Decidable (Ordinary arg) := inferInstanceAs (Decidable (_ ∉ _))

theorem ordinary_of_not_dash (h : ¬startsWithDash arg) : Ordinary arg := by
  intro hmem
  have hall : ∀ w ∈ ["-h", "--help", "--version", "--"], startsWithDash w := by decide
  exact h (hall arg hmem)

theorem ordinary_of_equals (h : '=' ∈ arg.toList) : Ordinary arg := by
  intro hmem
  have hall : ∀ w ∈ ["-h", "--help", "--version", "--"], '=' ∉ w.toList := by decide
  exact hall arg hmem h

theorem ordinary_of_ports {ports : Nat × Nat} (h : parsePortrange arg = .ok ports) :
    Ordinary arg := by
  intro hmem
  have hall : ∀ w ∈ ["-h", "--help", "--version", "--"],
      (parsePortrange w).toOption = none := by decide
  have hnone := hall arg hmem
  rw [h] at hnone
  cases hnone

theorem prescan_append {head tail : List String} (h : ∀ a ∈ head, Ordinary a) :
    prescan (head ++ tail) = prescan tail := by
  induction head with
  | nil => rfl
  | cons a head ih =>
      obtain ⟨ha, hrest⟩ := List.forall_mem_cons.mp h
      simp only [Ordinary, List.mem_cons, not_or] at ha
      obtain ⟨hh, hhelp, hversion, hdashes, -⟩ := ha
      rw [List.cons_append, prescan, if_neg (by simp [hh, hhelp]), if_neg hversion,
        if_neg hdashes, ih hrest]

/-- Ordinary arguments after `new`, then the command. None of them ends the first
scan or is the two dashes, so they are read as options and the command is split
off whole. -/
theorem parseArgs_new {head : List String} (command : List String)
    (h : ∀ a ∈ head, Ordinary a) :
    parseArgs ("new" :: head ++ if command.isEmpty then [] else "--" :: command)
      = parseOptions { (default : CliOptions) with commandArgs := command } head := by
  have hnew : ∀ a ∈ "new" :: head, Ordinary a :=
    List.forall_mem_cons.mpr ⟨by decide, h⟩
  have hdashes : "--" ∉ "new" :: head := fun hmem => hnew "--" hmem (by decide)
  cases command with
  | nil =>
      rw [List.isEmpty_nil, if_pos rfl, List.append_nil, parseArgs]
      have hscan : prescan ("new" :: head) = none := by
        rw [← List.append_nil ("new" :: head), prescan_append hnew, prescan]
      rw [hscan, splitFirst_eq_none hdashes]
      rfl
  | cons c command =>
      have hscan : prescan ("--" :: c :: command) = none := rfl
      rw [List.isEmpty_cons, if_neg Bool.false_ne_true, parseArgs, prescan_append hnew, hscan,
        splitFirst_append _ hdashes]
      rfl

end Cli

open Cli

/-! ## The wrapper's arguments -/

/-- The address it names. -/
def BindServer.addr : BindServer → Option String
  | .address ip => some ip
  | _ => none

def BindServer.args : BindServer → List String
  | .sshConnection => ["-s"]
  | .address ip => ["-i", ip]
  | .any => []

/-- All that stands between `new` and the command. -/
def optionArgs (bind : BindServer) (portRange serverLogFile : Option String)
    (noDaemonize : Bool) (localeVars : List (String × String)) : List String :=
  bind.args ++ ((portRange.elim [] fun range => ["-p", range])
  ++ (localeVars.flatMap (fun v => ["-l", s!"{v.1}={v.2}"])
  ++ ((serverLogFile.elim [] fun path => ["--log-file", path])
  ++ if noDaemonize then ["-D"] else [])))

variable {bind : BindServer} {portRange serverLogFile : Option String} {noDaemonize : Bool}
  {localeVars : List (String × String)} {low high : Nat}

theorem buildServerArgs_eq (serverPath : String) (bind : BindServer)
    (portRange serverLogFile : Option String) (noDaemonize : Bool) (command : List String)
    (localeVars : List (String × String)) :
    buildServerArgs serverPath bind portRange serverLogFile noDaemonize command localeVars
      = serverPath :: ("new" :: optionArgs bind portRange serverLogFile noDaemonize localeVars
          ++ if command.isEmpty then [] else "--" :: command) := by
  unfold buildServerArgs optionArgs
  cases bind <;> cases portRange <;> cases serverLogFile <;>
    simp only [BindServer.args, Option.elim, List.append_assoc, List.cons_append, List.nil_append]

theorem ordinary_optionArgs
    (hports : portRange.elim (.ok (0, 0)) parsePortrange = .ok (low, high))
    (haddr : ∀ ip, bind = .address ip → ¬startsWithDash ip)
    (hlog : ∀ path, serverLogFile = some path → ¬startsWithDash path) :
    ∀ a ∈ optionArgs bind portRange serverLogFile noDaemonize localeVars, Ordinary a := by
  have hpair : ∀ {flag value : String}, Ordinary flag → Ordinary value →
      ∀ a ∈ [flag, value], Ordinary a := fun hflag hvalue =>
    List.forall_mem_cons.mpr ⟨hflag, List.forall_mem_singleton.mpr hvalue⟩
  simp only [optionArgs, List.forall_mem_append]
  refine ⟨?_, ?_, ?_, ?_, ?_⟩
  · cases bind with
    | sshConnection => exact List.forall_mem_singleton.mpr (by decide)
    | any => exact List.forall_mem_nil _
    | address ip => exact hpair (by decide) (ordinary_of_not_dash (haddr ip rfl))
  · cases portRange with
    | none => exact List.forall_mem_nil _
    | some range => exact hpair (by decide) (ordinary_of_ports hports)
  · intro a ha
    obtain ⟨v, -, ha⟩ := List.mem_flatMap.mp ha
    exact hpair (by decide) (ordinary_of_equals (by simp [ToString.toString])) a ha
  · cases serverLogFile with
    | none => exact List.forall_mem_nil _
    | some path => exact hpair (by decide) (ordinary_of_not_dash (hlog path rfl))
  · cases noDaemonize with
    | false => exact List.forall_mem_nil _
    | true => exact List.forall_mem_singleton.mpr (by decide)

theorem parseOptions_bindArgs (haddr : opts.bindAddr = none)
    (hssh : opts.useSshConnection = false) :
    parseOptions opts (bind.args ++ rest)
      = parseOptions { opts with
          bindAddr := bind.addr
          useSshConnection := decide (bind = .sshConnection) } rest := by
  cases bind with
  | sshConnection => exact parseOptions_ssh
  | any =>
      have hsame : opts = { opts with bindAddr := none, useSshConnection := false } := by
        rw [← haddr, ← hssh]
      exact congrArg (parseOptions · rest) hsame
  | address ip => exact parseOptions_bind

theorem parseOptions_portArgs
    (hports : portRange.elim (.ok (0, 0)) parsePortrange = .ok (low, high))
    (hlow : opts.portLow = 0) (hhigh : opts.portHigh = 0) :
    parseOptions opts ((portRange.elim [] fun range => ["-p", range]) ++ rest)
      = parseOptions { opts with portLow := low, portHigh := high } rest := by
  cases portRange with
  | none =>
      cases hports
      have hsame : opts = { opts with portLow := 0, portHigh := 0 } := by
        cases opts; cases hlow; cases hhigh; rfl
      exact congrArg (parseOptions · rest) hsame
  | some range => exact parseOptions_ports hports

theorem parseOptions_logArgs (hlog : opts.logFile = none) :
    parseOptions opts ((serverLogFile.elim [] fun path => ["--log-file", path]) ++ rest)
      = parseOptions { opts with logFile := serverLogFile } rest := by
  cases serverLogFile with
  | none =>
      have hsame : opts = { opts with logFile := none } := by rw [← hlog]
      exact congrArg (parseOptions · rest) hsame
  | some path => exact parseOptions_log

theorem parseOptions_daemonArgs (hdaemon : opts.noDaemonize = false) :
    parseOptions opts (if noDaemonize then ["-D"] else [])
      = .run { opts with noDaemonize := noDaemonize } := by
  cases noDaemonize with
  | false =>
      have hsame : opts = { opts with noDaemonize := false } := by rw [← hdaemon]
      exact congrArg ParseOutcome.run hsame
  | true => exact parseOptions_daemon

/-- The options of the server, flag by flag. There is a lemma for each group of
arguments: it sets its own fields and goes on with the rest, in the order the
wrapper writes them. -/
theorem parseOptions_optionArgs (command : List String)
    (hports : portRange.elim (.ok (0, 0)) parsePortrange = .ok (low, high))
    (hnames : ∀ v ∈ localeVars, '=' ∉ v.1.toList) :
    parseOptions { (default : CliOptions) with commandArgs := command }
        (optionArgs bind portRange serverLogFile noDaemonize localeVars)
      = .run {
          portLow := low
          portHigh := high
          bindAddr := bind.addr
          useSshConnection := decide (bind = .sshConnection)
          noDaemonize := noDaemonize
          logFile := serverLogFile
          localeVars := localeVars
          commandArgs := command
          colors := 0
          verbose := 0 } := by
  unfold optionArgs
  rw [parseOptions_bindArgs rfl rfl, parseOptions_portArgs hports rfl rfl,
    parseOptions_locale localeVars hnames, parseOptions_logArgs rfl, parseOptions_daemonArgs rfl]
  rfl

/-- What the wrapper asks for is what the server is set to. -/
theorem parseArgs_buildServerArgs (serverPath : String) (bind : BindServer)
    (portRange serverLogFile : Option String) (noDaemonize : Bool) (command : List String)
    (localeVars : List (String × String)) {low high : Nat}
    (hports : portRange.elim (.ok (0, 0)) parsePortrange = .ok (low, high))
    (hnames : ∀ v ∈ localeVars, '=' ∉ v.1.toList)
    (haddr : ∀ ip, bind = .address ip → ¬startsWithDash ip)
    (hlog : ∀ path, serverLogFile = some path → ¬startsWithDash path) :
    parseArgs (buildServerArgs serverPath bind portRange serverLogFile noDaemonize command
        localeVars).tail
      = .run {
          portLow := low
          portHigh := high
          bindAddr := bind.addr
          useSshConnection := decide (bind = .sshConnection)
          noDaemonize := noDaemonize
          logFile := serverLogFile
          localeVars := localeVars
          commandArgs := command
          colors := 0
          verbose := 0 } := by
  rw [buildServerArgs_eq, List.tail_cons,
    parseArgs_new command (ordinary_optionArgs hports haddr hlog),
    parseOptions_optionArgs command hports hnames]

theorem parseArgs_buildServerArgs_full :
    parseArgs (buildServerArgs "morsh-server" (.address "10.0.0.5") (some "60000:60010")
        (some "/tmp/x.log") true ["sh", "--", "-h"] [("LANG", "a=b"), ("", "--")]).tail
      = .run ⟨60000, 60010, some "10.0.0.5", false, true, some "/tmp/x.log",
          [("LANG", "a=b"), ("", "--")], ["sh", "--", "-h"], 0, 0⟩ :=
  parseArgs_buildServerArgs "morsh-server" (.address "10.0.0.5") (some "60000:60010")
    (some "/tmp/x.log") true ["sh", "--", "-h"] [("LANG", "a=b"), ("", "--")]
    (by decide +kernel) (by decide) (by rintro ip h; cases h; decide)
    (by rintro path h; cases h; decide)

end Morsh
