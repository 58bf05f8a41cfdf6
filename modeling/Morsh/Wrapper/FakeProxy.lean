import Morsh.Wrapper.Connect
import Morsh.Wrapper.Quote

/-!
# The fake proxy

The wrapper has ssh connect through the wrapper's own program, which announces
the address it reached on stderr.
-/

namespace Morsh

/-- The flag that selects the proxy. -/
def FLAG : String := "--fake-proxy"

/-- The `ProxyCommand` on Unix; `exe` is the path of the running program. -/
def proxyCommand (exe : String) : String :=
  let exe := shellQuote exe
  -- `%` would otherwise start an ssh token
  let exe := replaceChar '%' "%%" exe
  exe ++ " " ++ FLAG ++ " -- %h %p"

/-- The front of the wrapper's `main`: the arguments of the proxy, where it is to
be one. -/
def proxyArgs (argv : List String) : Option (List String) :=
  if argv[1]? = some FLAG then some (argv.drop 2) else none

/-- Where the proxy is to connect to. -/
def proxyTarget (args : List String) : Except String (String × Nat) :=
  match args.filter (· ≠ "--") with
  | [host, port] =>
      match parseU16 port.toList with
      | some port => .ok (host, port)
      | none => .error s!"bad port '{port}'"
  | _ => .error "usage: morsh --fake-proxy -- HOST PORT"

/-- An address the name resolves to, as it is displayed. -/
structure Resolved where
  isIpv4 : Bool
  ip : Text
  deriving DecidableEq, Repr

/-- Connect to the first reachable address, sorted by `!is_ipv4()`. -/
def proxyConnect (reachable : Resolved → Bool) (addrs : List Resolved) : Option Resolved :=
  (addrs.mergeSort fun a b => !(!a.isIpv4) || !b.isIpv4).find? reachable

/-- What the proxy writes to stderr once it is connected. -/
def announceIp (addr : Resolved) : List UInt8 :=
  BufRead.ascii ("MOSH IP ".toList ++ addr.ip ++ ['\n'])

end Morsh
