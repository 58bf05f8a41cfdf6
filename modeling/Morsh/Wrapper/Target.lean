import Morsh.Ssh.HostKeys
import Morsh.Wrapper.Connect

/-!
# Which host is meant

What `ssh -G` says about the host argument, and what the wrapper takes from it
and from the argument itself: the name, the port, and how the built-in client is
to verify the host's key. Where the known_hosts files lie depends on the
environment and is an input.
-/

namespace Morsh

/-- The parts of `ssh -G` output that morsh cares about. -/
structure SshConfig where
  hostname : Option Text
  user : Option Text
  port : Option Nat
  /-- In the order ssh would try them. -/
  identityFiles : List Text
  /-- The host is only reachable through another hop. -/
  usesProxy : Bool
  strictHostKeyChecking : Option Text
  hostKeyAlias : Option Text
  deriving DecidableEq, Repr

namespace SshConfig

def default : SshConfig := ⟨none, none, none, [], false, none, none⟩

/-- `line.trim().split_once(' ')`. -/
def splitLine (line : Text) : Option (Text × Text) :=
  let line := trim line
  if ' ' ∈ line then some (line.takeWhile (· ≠ ' '), (line.dropWhile (· ≠ ' ')).drop 1) else none

def onPair (config : SshConfig) (key value : Text) : SshConfig :=
  let value := trim value
  if key = "hostname".toList then { config with hostname := some value }
  else if key = "user".toList then { config with user := some value }
  else if key = "port".toList then { config with port := parseU16 value }
  else if key = "identityfile".toList then
    { config with identityFiles := config.identityFiles ++ [value] }
  else if key = "stricthostkeychecking".toList then
    { config with strictHostKeyChecking := some value }
  else if key = "hostkeyalias".toList then { config with hostKeyAlias := some value }
  else if (key = "proxycommand".toList ∨ key = "proxyjump".toList) ∧
      toAsciiLowercase value ≠ "none".toList then
    { config with usesProxy := true }
  else config

/-- Parse `ssh -G` output: one lowercase `key value` pair per line. -/
def parse (output : Text) : SshConfig :=
  (Lines.lines output).foldl (fun config line =>
    match splitLine line with
    | some (key, value) => config.onPair key value
    | none => config) default

end SshConfig

/-- The part behind the last `@`. -/
def hostPart (host : Text) : Text := (host.reverse.takeWhile (· ≠ '@')).reverse

/-- What ssh says of `host`, unless the argument uses morsh's own `host:port`
form; `query` is what `ssh -G` prints, if it succeeds. -/
def querySshConfig (query : Text → Option Text) (host : Text) : Option SshConfig :=
  if ':' ∈ hostPart host then none else (query host).map SshConfig.parse

/-- The real host name behind the argument. -/
def targetHostname (host : Text) (cfg : Option SshConfig) : Text :=
  match cfg.bind (·.hostname) with
  | some hostname => hostname
  | none => (hostPart host).takeWhile (· ≠ ':')

/-- `rsplit_once(':')`, its second half. -/
def explicitPort (host : Text) : Option Nat :=
  let part := hostPart host
  if ':' ∈ part then parseU16 ((part.reverse.takeWhile (· ≠ ':')).reverse) else none

/-- An explicit `:port` in the argument, then ssh config, then 22. -/
def targetPort (host : Text) (cfg : Option SshConfig) : Nat :=
  ((explicitPort host).or (cfg.bind (·.port))).getD 22

/-- Where the known_hosts files are: the user's two and the system's. -/
structure KnownHostsPaths (Path : Type) where
  user : Path
  user2 : Path
  system : List Path
  deriving DecidableEq, Repr

def KnownHostsPaths.all {Path : Type} (paths : KnownHostsPaths Path) : List Path :=
  [paths.user, paths.user2] ++ paths.system

/-- How to verify `hostname`'s key: the same files and settings ssh would use. -/
def hostKeyPolicy {Path : Type} (paths : KnownHostsPaths Path) (hostname : Text) (port : Nat)
    (cfg : Option SshConfig) : HostKeyPolicy Path where
  -- ssh records host names in lower case
  host := (cfg.bind (·.hostKeyAlias)).getD (toAsciiLowercase hostname)
  port := port
  knownHosts := paths.all
  learnInto := paths.user
  strict := ((cfg.bind (·.strictHostKeyChecking)).map StrictHostKeyChecking.fromSsh).getD .ask

end Morsh
