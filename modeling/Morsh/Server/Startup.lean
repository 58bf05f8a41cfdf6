import Morsh.Crypto.Base64Key
import Morsh.Lib.BufRead
import Morsh.Server.Cli
import Morsh.Ssh.Exec

/-!
# How the server starts

From the process that ssh runs to the one that serves: the port and the key are
picked and announced on stdout, and the server detaches. On Unix the process
forks; on Windows it is started a second time, and hands on what it announced in
its environment.
-/

namespace Morsh

open Crypto

variable [Base64Engine]

/-- `std::env::var`, where it is there and is Unicode. -/
abbrev Env := String → Option String

def Env.set (env : Env) (name value : String) : Env :=
  fun other => if other = name then some value else env other

def PORT_RANGE_LOW : Nat := 60001

def PORT_RANGE_HIGH : Nat := 60999

/-- The address ssh was reached at, as the server sees it. -/
def getSshConnectionIp (env : Env) : Option String :=
  (env "SSH_CONNECTION").bind fun sshConn =>
    match splitWhitespace sshConn.toList with
    | _ :: _ :: serverIp :: _ =>
        -- an IPv4 address that came in through an IPv6 socket
        if "::ffff:".toList.isPrefixOf serverIp then some (String.ofList (serverIp.drop 7))
        else some (String.ofList serverIp)
    | _ => none

/-- How `fork_and_detach` comes out. -/
inductive Detach where
  /-- In the child of a fork; the parent is gone. -/
  | forked
  | forkFailed
  /-- Windows: another process was started, and this one is done. -/
  | respawned
  /-- Windows: it was not, and this one goes on. -/
  | inProcess
  deriving DecidableEq, Repr

/-- What the system the server runs on answers. -/
structure Host where
  windows : Bool
  /-- Whether `parse::<IpAddr>` takes it. -/
  isIp : String → Bool
  /-- `UdpSocket::bind`, and the port of its `local_addr`. -/
  bind : String → Nat → Except String (Except String (Fin (2 ^ 16)))
  /-- What `getrandom` fills in. -/
  random : Base64Key
  forkAndDetach : Detach

/-- The first free port. -/
def firstFree (bind : Nat → Except String (Except String (Fin (2 ^ 16)))) :
    String → List Nat → Except String (Except String (Fin (2 ^ 16)))
  | lastErr, [] => .error lastErr
  | _, port :: rest =>
      match bind port with
      | .ok local_addr => .ok local_addr
      | .error e => firstFree bind e rest

/-- Find a free UDP port on `ip` within the requested range, or the default one
where there is none. -/
def pickPort (host : Host) (ip : String) (low high : Nat) : Except String Nat :=
  let addrFor := if host.isIp ip then ip else "0.0.0.0"
  let (low, high) := if low = 0 then (PORT_RANGE_LOW, PORT_RANGE_HIGH) else (low, high)
  match firstFree (host.bind addrFor) "" (List.range' low (high + 1 - low)) with
  | .ok local_addr => local_addr.map Fin.val
  | .error lastErr => .error s!"Failed to bind to any port in {low}:{high}: {lastErr}"

/-- What `run_server` is called with. -/
structure Serving where
  port : Nat
  desiredIp : Option String
  key : Base64Key
  shell : String
  commandArgs : List String
  localeVars : List (String × String)
  deriving DecidableEq

inductive Next where
  /-- The process is over, with this on stderr. -/
  | exit (message : String)
  /-- Another process goes on, in this environment. -/
  | respawn (env : Env)
  | serve (serving : Serving)

/-- The server's `main` behind its command line: what is on stdout, and what
comes next. -/
def serverMain (host : Host) (env : Env) (opts : CliOptions) : List Text × Next :=
  let isDaemonChild := (env "MORSH_DAEMON_CHILD").isSome
  let key := match env "MORSH_KEY" with
    | some keyStr => Base64Key.fromPrintable keyStr.toList
    | none => .ok host.random
  match key with
  | .error e => ([], .exit s!"morsh-server: Invalid MORSH_KEY: {e}")
  | .ok key =>
      let sshIp :=
        if opts.useSshConnection || opts.bindAddr.isNone then getSshConnectionIp env else none
      let desiredIp := opts.bindAddr.or sshIp
      -- the daemon child inherits the port its parent advertised
      let port := if isDaemonChild then
          .ok (((env "MORSH_DAEMON_PORT").bind fun s => parseU16 s.toList).getD 0)
        else pickPort host (desiredIp.getD "0.0.0.0") opts.portLow opts.portHigh
      match port with
      | .error e => ([], .exit s!"morsh-server: {e}")
      | .ok port =>
          let shell := match opts.commandArgs with
            | [] => (env "SHELL").getD (if host.windows then "cmd.exe" else "/bin/sh")
            | command :: _ => command
          let serving : Serving := ⟨port, desiredIp, key, shell, opts.commandArgs, opts.localeVars⟩
          if isDaemonChild then ([], .serve serving)
          else
            let announced :=
              ["MOSH CONNECT ".toList ++ (toString port).toList ++ ' ' :: key.printableKey,
                "MOSH CONNECTION ID: 1".toList]
            if opts.noDaemonize then (announced, .serve serving)
            else
              let env := ((env.set "MORSH_DAEMON_CHILD" "1").set "MORSH_DAEMON_PORT"
                (toString port)).set "MORSH_KEY" (String.ofList key.printableKey)
              match host.forkAndDetach with
              | .forkFailed => (announced, .exit "morsh-server: fork failed")
              | .respawned => (announced, .respawn env)
              | .forked | .inProcess => (announced, .serve serving)

/-- `println!`. -/
def printed (lines : List Text) : List UInt8 :=
  lines.flatMap fun line => BufRead.ascii (line ++ ['\n'])

/-- The server is launched: what ssh sees of its stdout, and what serves in the
end. A process that is started again has `childArgs`, and a stdout of its own. -/
inductive Launches (host : Host) (env : Env) (opts : CliOptions) :
    List UInt8 → Serving → Prop where
  | serves {out : List Text} {serving : Serving}
      (h : serverMain host env opts = (out, .serve serving)) :
      Launches host env opts (printed out) serving
  | respawns {out : List Text} {childEnv : Env} {childHost : Host} {childArgs : List String}
      {childOpts : CliOptions} {childOut : List Text} {serving : Serving}
      (h : serverMain host env opts = (out, .respawn childEnv))
      (hargs : Cli.parseArgs childArgs = .run childOpts)
      (hchild : serverMain childHost childEnv childOpts = (childOut, .serve serving)) :
      Launches host env opts (printed out) serving

end Morsh
