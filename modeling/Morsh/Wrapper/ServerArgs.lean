/-!
# The server invocation the wrapper builds

Before any shell quoting.
-/

namespace Morsh

/-- Where the remote server should bind its UDP socket. -/
inductive BindServer where
  | sshConnection
  | any
  | address (ip : String)
  deriving DecidableEq, Repr

/-- The argument vector of one server invocation. -/
def buildServerArgs (serverPath : String) (bind : BindServer) (portRange : Option String)
    (serverLogFile : Option String) (noDaemonize : Bool) (command : List String)
    (localeVars : List (String × String)) : List String :=
  [serverPath, "new"]
    ++ (match bind with
      | .sshConnection => ["-s"]
      | .address ip => ["-i", ip]
      | .any => [])
    ++ (match portRange with
      | some range => ["-p", range]
      | none => [])
    ++ localeVars.flatMap (fun v => ["-l", s!"{v.1}={v.2}"])
    ++ (match serverLogFile with
      | some path => ["--log-file", path]
      | none => [])
    ++ (if noDaemonize then ["-D"] else [])
    ++ (if command.isEmpty then [] else "--" :: command)

end Morsh
