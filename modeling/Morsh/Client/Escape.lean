import Morsh.Network.State

/-!
# The escape key

`EscapeFilter` finds the two-keystroke escape sequence in the raw input, which
arrives in reads of any size.
-/

namespace Morsh

/-- The escape key and how to type it literally. -/
structure EscapeConfig where
  key : UInt8
  /-- Typed after the escape key, sends one literal escape key. Two spellings so
  a Ctrl-letter escape accepts the letter in either case. -/
  passKey : UInt8
  passKey2 : UInt8
  /-- A printable escape key only counts at the start of a line. -/
  requiresLf : Bool
  deriving DecidableEq, Repr

namespace EscapeConfig

/-- `u8::to_ascii_lowercase`. -/
def toAsciiLowercase (b : UInt8) : UInt8 := if 65 ≤ b ∧ b ≤ 90 then b + 32 else b

def forKey (key : UInt8) : EscapeConfig :=
  let passKey := if key < 32 then key + 64 else key
  { key := key
    passKey := passKey
    passKey2 := toAsciiLowercase passKey
    requiresLf := key ≥ 32 }

end EscapeConfig

/-- What the escape filter made of a chunk of input. -/
structure Filtered where
  /-- Bytes to send to the remote side. -/
  send : Bytes
  /-- Show (true) or take down (false) the escape key help. -/
  help : Option Bool
  /-- The user typed the quit sequence. Input after it is dropped. -/
  quit : Bool
  deriving DecidableEq, Repr

structure EscapeFilter where
  /-- `none` when the escape key is disabled. -/
  config : Option EscapeConfig
  armed : Bool
  /-- The last byte was LF or CR, for a printable escape key. -/
  lfEntered : Bool
  deriving DecidableEq, Repr

namespace EscapeFilter

def new (config : Option EscapeConfig) : EscapeFilter := ⟨config, false, false⟩

/-- The loop of `feed` over the bytes of a chunk, and what is said of the help
after it; a quit returns at once and says nothing. -/
def feedLoop (config : EscapeConfig) :
    EscapeFilter → (wasArmed : Bool) → (send : Bytes) → Bytes → EscapeFilter × Filtered
  | f, wasArmed, send, [] =>
      (f, {
        send := send
        help := if f.armed then some true else if wasArmed then some false else none
        quit := false })
  | f, wasArmed, send, byte :: rest =>
      if f.armed then
        let f := { f with armed := false }
        if byte = '.'.toUInt8 then (f, ⟨send, none, true⟩)
        -- Ctrl-Z is swallowed
        else if byte = 0x1a then feedLoop config f wasArmed send rest
        else if byte = config.passKey ∨ byte = config.passKey2 then
          feedLoop config f wasArmed (send ++ [config.key]) rest
        else feedLoop config f wasArmed (send ++ [config.key, byte]) rest
      else if byte = config.key ∧ (f.lfEntered ∨ ¬config.requiresLf) then
        feedLoop config { f with armed := true, lfEntered := false } true send rest
      else
        feedLoop config { f with lfEntered := byte = '\n'.toUInt8 ∨ byte = '\r'.toUInt8 } wasArmed
          (send ++ [byte]) rest

def feed (f : EscapeFilter) (bytes : Bytes) : EscapeFilter × Filtered :=
  match f.config with
  | none => (f, ⟨bytes, none, false⟩)
  | some config => feedLoop config f f.armed [] bytes

/-! ## Reads -/

/-- The filter after some reads. -/
def after (f : EscapeFilter) : List Bytes → EscapeFilter
  | [] => f
  | chunk :: rest => (f.feed chunk).1.after rest

/-- What is sent until the first quit. -/
def sentUntilQuit (f : EscapeFilter) : List Bytes → Bytes
  | [] => []
  | chunk :: rest =>
      (f.feed chunk).2.send ++
        if (f.feed chunk).2.quit then [] else (f.feed chunk).1.sentUntilQuit rest

/-- The bytes read up to and with the one at which the first quit is
recognised: no shorter part of its read would have quit. -/
def quitByte (f : EscapeFilter) : List Bytes → Option Nat
  | [] => none
  | chunk :: rest =>
      if (f.feed chunk).2.quit then
        (List.range (chunk.length + 1)).find? fun n => (f.feed (chunk.take n)).2.quit
      else ((f.feed chunk).1.quitByte rest).map (chunk.length + ·)

/-- Whether the help is up: as it was last shown or taken down. -/
def helpShown (f : EscapeFilter) (shown : Bool) : List Bytes → Bool
  | [] => shown
  | chunk :: rest => (f.feed chunk).1.helpShown ((f.feed chunk).2.help.getD shown) rest

end EscapeFilter

end Morsh
