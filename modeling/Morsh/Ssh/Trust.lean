import Morsh.Wrapper.Target
import Mathlib.Logic.Function.Basic

/-!
# Connecting again and again

What becomes of the known_hosts files over many connections of the built-in
client: each offers the key types it has reason to, is shown a key of one of
them, decides whether to trust it, and may record it for the next time. The
format of the files is russh's and a parameter, and so is what the other side
shows, which may be anyone.
-/

namespace Morsh

namespace SshKey

inductive EcdsaCurve where
  | nistP256
  | nistP384
  | nistP521
  deriving DecidableEq, Repr

inductive HashAlg where
  | sha256
  | sha512
  deriving DecidableEq, Repr

/-- `ssh_key::Algorithm`. -/
inductive Algorithm where
  | dsa
  | ecdsa (curve : EcdsaCurve)
  | ed25519
  | rsa (hash : Option HashAlg)
  | skEcdsaSha2NistP256
  | skEd25519
  | other (name : Text)
  deriving DecidableEq, Repr

/-- RSA keys are one type whatever signature hash is negotiated. -/
def sameKeyType (a b : Algorithm) : Bool :=
  match a, b with
  | .rsa _, .rsa _ => true
  | _, _ => a = b

end SshKey

open SshKey

/-- A public key: `PublicKey::algorithm`. -/
class HostKey (Key : Type) where
  algorithm : Key → Algorithm

/-- What russh does with one known_hosts file. -/
class KnownHostsFile (File Key : Type) where
  /-- `known_host_keys_path`: the keys recorded for a host, with their lines. -/
  keys : File → Text → Nat → Except KeyError (List (Nat × Key))
  /-- `check_known_hosts_path`. -/
  check : File → Text → Nat → Key → Lookup
  /-- `learn_known_hosts_path`. -/
  learn : File → Text → Nat → Key → Except KeyError File

/-- A name a line can be found by, and only a line of its own: not a list or a
hash of names, not a name with a port in brackets, not a comment. -/
def PlainHost (host : Text) : Bool :=
  !host.isEmpty && host.all fun c => !isWhitespace c && c ∉ [',', '[', '#', '|']

section

variable {Path File Key : Type} [HostKey Key] [KnownHostsFile File Key]

open HostKey KnownHostsFile

variable (Key) in
/-- russh's default preferences, narrowed to the key types already recorded for
this host. -/
def HostKeyPolicy.preferred (policy : HostKeyPolicy Path) (files : Path → File)
    (preferences : List Algorithm) : List Algorithm :=
  let found : List (Nat × Key) := (policy.knownHosts.filterMap fun p =>
    (keys (files p) policy.host policy.port).toOption).flatten
  let recorded := found.map fun e => algorithm e.2
  let narrowed := preferences.filter fun a => recorded.any fun r => sameKeyType a r
  if narrowed ≠ [] then narrowed else preferences

/-- A connection, as far as the host key goes: the host argument, what `ssh -G`
prints for it, what is typed, and the key that is shown, if it comes to that. -/
structure Attempt (Key : Type) where
  host : Text
  config : Option Text
  stdin : Stdin
  presented : Option Key
  deriving DecidableEq, Repr

/-- The policy the wrapper makes for it. -/
def Attempt.policy (a : Attempt Key) (paths : KnownHostsPaths Path) : HostKeyPolicy Path :=
  let cfg := querySshConfig (fun _ => a.config) a.host
  hostKeyPolicy paths (targetHostname a.host cfg) (targetPort a.host cfg) cfg

/-- A key that was trusted, and whether it was to be recorded but was not. -/
structure Trusted (Key : Type) where
  host : Text
  port : Nat
  key : Key
  lost : Bool
  deriving DecidableEq, Repr

/-- The files, and every key that was trusted, oldest first. -/
structure TrustStore (Path File Key : Type) where
  files : Path → File
  log : List (Trusted Key)

namespace TrustStore

variable [DecidableEq Path]

/-- `check_server_key`: verify, and record what is to be recorded. -/
def checkServerKey (s : TrustStore Path File Key) (policy : HostKeyPolicy Path) (stdin : Stdin)
    (key : Key) : TrustStore Path File Key :=
  let verdict := policy.verify stdin (fun host port key path => check (s.files path) host port key)
    key
  match verdict.learned with
  | none =>
      { s with log := s.log ++
          if verdict.trusted then [⟨policy.host, policy.port, key, false⟩] else [] }
  | some path =>
      match learn (s.files path) policy.host policy.port key with
      | .ok file =>
          ⟨Function.update s.files path file, s.log ++ [⟨policy.host, policy.port, key, false⟩]⟩
      | .error _ => { s with log := s.log ++ [⟨policy.host, policy.port, key, true⟩] }

/-- One connection. `none` where the key shown is of no type that was offered:
then the key exchange has failed before the key gets here. -/
def connect (paths : KnownHostsPaths Path) (preferences : List Algorithm)
    (s : TrustStore Path File Key) (a : Attempt Key) : Option (TrustStore Path File Key) :=
  match a.presented with
  | none => some s
  | some key =>
      let policy := a.policy paths
      if (policy.preferred Key s.files preferences).any (sameKeyType · (algorithm key)) then
        some (s.checkServerKey policy a.stdin key)
      else none

end TrustStore

end

end Morsh
