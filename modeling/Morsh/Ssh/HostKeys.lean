import Morsh.Ssh.Exec

/-!
# Host keys

`HostKeyPolicy::verify`. The lookup of a key in a file is russh's and a
parameter; what is read from the terminal is an input. The messages on stderr
are left out, and so is the result of the recording, which only selects one of
them.
-/

namespace Morsh

/-- What to do with a host whose key is not recorded yet. -/
inductive StrictHostKeyChecking where
  /-- Refuse it. -/
  | yes
  /-- Record it without asking. -/
  | acceptNew
  /-- Show the fingerprint and ask. -/
  | ask
  deriving DecidableEq, Repr

def asciiLowercase (c : Char) : Char :=
  if 'A' ≤ c ∧ c ≤ 'Z' then .ofNat (c.toNat + 32) else c

def toAsciiLowercase (text : Text) : Text := text.map asciiLowercase

/-- `str::trim`. -/
def trim (text : Text) : Text :=
  ((text.dropWhile isWhitespace).reverse.dropWhile isWhitespace).reverse

/-- Parse a value as `ssh -G` prints it. -/
def StrictHostKeyChecking.fromSsh (value : Text) : StrictHostKeyChecking :=
  let value := toAsciiLowercase value
  if value ∈ ["yes".toList, "true".toList] then .yes
  else if value ∈ ["accept-new".toList, "no".toList, "false".toList, "off".toList] then .acceptNew
  else .ask

/-- Why russh cannot vouch for a key. -/
inductive KeyError where
  | keyChanged (line : Nat)
  | other (message : Text)
  deriving DecidableEq, Repr

/-- `check_known_hosts_path` on one file. -/
abbrev Lookup := Except KeyError Bool

/-- Whether stdin is a terminal, and the lines read from it, an empty one where
`read_line` reads nothing. -/
structure Stdin where
  isTerminal : Bool
  answers : List Text
  deriving DecidableEq, Repr

def answer (line : Text) : Option Bool :=
  let word := toAsciiLowercase (trim line)
  if word = "yes".toList then some true else if word = "no".toList then some false else none

def askLoop : List Text → Bool
  | [] => false
  | line :: rest =>
      if line = [] then false
      else
        match answer line with
        | some accept => accept
        | none => askLoop rest

/-- ssh's first-connection question. -/
def ask (stdin : Stdin) : Bool :=
  if !stdin.isTerminal then false else askLoop stdin.answers

/-- How to verify one server's host key. -/
structure HostKeyPolicy (Path : Type) where
  host : Text
  port : Nat
  /-- Files to look the key up in, in order. -/
  knownHosts : List Path
  /-- Where a newly accepted key is recorded. -/
  learnInto : Path
  strict : StrictHostKeyChecking
  deriving DecidableEq, Repr

/-- Whether the key is trusted, and the file it is recorded in, if it is. -/
structure Verdict (Path : Type) where
  trusted : Bool
  learned : Option Path
  deriving DecidableEq, Repr

namespace HostKeyPolicy

variable {Path : Type}

/-- The policy for a key no file has decided on. -/
def unknownHost (policy : HostKeyPolicy Path) (stdin : Stdin) : Verdict Path :=
  have accept := match policy.strict with
    | .yes => false
    | .acceptNew => true
    | .ask => ask stdin
  ⟨accept, if accept then some policy.learnInto else none⟩

/-- The loop over the files. -/
def verifyIn (policy : HostKeyPolicy Path) (stdin : Stdin) (check : Path → Lookup) :
    List Path → Verdict Path
  | [] => policy.unknownHost stdin
  | path :: rest =>
      match check path with
      | .ok true => ⟨true, none⟩
      | .ok false => policy.verifyIn stdin check rest
      | .error (.keyChanged _) => ⟨false, none⟩
      | .error (.other _) => policy.verifyIn stdin check rest

/-- Decide whether to trust `key`. May prompt. -/
def verify {Key : Type} (policy : HostKeyPolicy Path) (stdin : Stdin)
    (checkKnownHostsPath : Text → Nat → Key → Path → Lookup) (key : Key) : Verdict Path :=
  policy.verifyIn stdin (checkKnownHostsPath policy.host policy.port key) policy.knownHosts

end HostKeyPolicy

end Morsh
