import Morsh.Wrapper.Quote
import Morsh.Wrapper.ServerArgs

/-!
# Launching the server

The command the wrapper has ssh run on the remote host.
-/

namespace Morsh

/-- The settings of the wrapper's command line that reach the server. -/
structure WrapperArgs where
  portRange : Option String
  bindServer : String
  serverLogFile : Option String
  noDaemonize : Bool
  serverPath : String
  command : List String
  deriving DecidableEq, Repr

/-- Where the server should bind. -/
def WrapperArgs.bindArg (args : WrapperArgs) : BindServer :=
  match args.bindServer with
  | "any" => .any
  | "ssh" => .sshConnection
  | ip => .address ip

def LOCALE_NAMES : List String :=
  ["LANG", "LC_CTYPE", "LC_NUMERIC", "LC_TIME", "LC_COLLATE", "LC_MONETARY", "LC_MESSAGES",
    "LC_PAPER", "LC_NAME", "LC_ADDRESS", "LC_TELEPHONE", "LC_MEASUREMENT", "LC_IDENTIFICATION",
    "LC_ALL"]

/-- The locale variables of the local process. -/
def collectLocaleVars (env : String → Option String) : List (String × String) :=
  LOCALE_NAMES.filterMap fun name => (env name).map fun val => (name, val)

def buildRemoteCmd (args : WrapperArgs) (bind : BindServer) (shell : RemoteShell)
    (rustLog : Option String) (localeVars : List (String × String)) : String :=
  let serverArgs (path : String) := buildServerArgs path bind args.portRange args.serverLogFile
    args.noDaemonize args.command localeVars
  if args.serverPath = "morsh-server" then
    renderRemoteCommand shell (serverArgs "morsh-server") (some (serverArgs "mosh-server")) rustLog
      localeVars
  else renderRemoteCommand shell (serverArgs args.serverPath) none rustLog localeVars

end Morsh
