import Morsh.Network.State

/-!
# The notification bar

`NotificationEngine`: one message, its expiry, and the countup of a server that
is not heard from. `Instant::now()` is an argument of each call.
-/

namespace Morsh

structure NotificationEngine where
  lastWordFromServer : Nat
  lastAckedState : Nat
  message : String
  messageIsNetworkError : Bool
  messageExpiration : Option Nat
  showQuitKeystroke : Bool
  /-- The escape key description. -/
  escapeKeyString : String
  /-- Shown while the escape key waits for its second key. -/
  escapeKeyHelp : String
  deriving DecidableEq, Repr

namespace NotificationEngine

def new (now : Nat) : NotificationEngine where
  lastWordFromServer := now
  lastAckedState := now
  message := ""
  messageIsNetworkError := false
  messageExpiration := none
  showQuitKeystroke := true
  escapeKeyString := ""
  escapeKeyHelp := ""

def serverHeard (e : NotificationEngine) (time : Nat) : NotificationEngine :=
  { e with lastWordFromServer := time }

def serverAcked (e : NotificationEngine) (time : Nat) : NotificationEngine :=
  { e with lastAckedState := time }

/-- Show a notification message. -/
def setNotification (e : NotificationEngine) (msg : String) (permanent : Bool) (now : Nat) :
    NotificationEngine :=
  { e with
    message := msg
    messageIsNetworkError := false
    showQuitKeystroke := true
    messageExpiration := if permanent then none else some (now + ms 1000) }

/-- Show the escape key help. The quit keystroke is left off, since the help
already says how to quit. -/
def showEscapeHelp (e : NotificationEngine) (now : Nat) : NotificationEngine :=
  { e.setNotification e.escapeKeyHelp true now with showQuitKeystroke := false }

/-- Take down the escape key help, unless something else has replaced it. -/
def hideEscapeHelp (e : NotificationEngine) : NotificationEngine :=
  if !e.messageIsNetworkError && e.message == e.escapeKeyHelp then
    { e with message := "", showQuitKeystroke := true }
  else e

/-- Show a network error message. -/
def setNetworkError (e : NotificationEngine) (msg : String) (now : Nat) : NotificationEngine :=
  { e with
    message := msg
    messageIsNetworkError := true
    showQuitKeystroke := true
    messageExpiration := some (now + ms 3100) }

/-- Clear the network error if one is displayed. -/
def clearNetworkError (e : NotificationEngine) (now : Nat) : NotificationEngine :=
  if e.messageIsNetworkError then
    { e with messageExpiration := some (min (e.messageExpiration.getD now) (now + ms 1000)) }
  else e

/-! ## What is shown -/

/-- `as_secs`. -/
def seconds (n : Nat) : Nat := n / 1000000000

/-- No contact in over 6.5 seconds. -/
def serverLate (e : NotificationEngine) (now : Nat) : Bool :=
  (now - e.lastWordFromServer) / 1000000 > 6500

/-- No ack in over 10 seconds. -/
def replyLate (e : NotificationEngine) (now : Nat) : Bool :=
  (now - e.lastAckedState) / 1000000 > 10000

def needCountup (e : NotificationEngine) (now : Nat) : Bool :=
  e.serverLate now || e.replyLate now

def secondsSinceHeard (e : NotificationEngine) (now : Nat) : Nat :=
  seconds (now - e.lastWordFromServer)

def secondsSinceAcked (e : NotificationEngine) (now : Nat) : Nat :=
  seconds (now - e.lastAckedState)

/-- The countup banner is held back for a while, to avoid flickering between
packets. -/
def hasMessage (e : NotificationEngine) (now : Nat) : Bool :=
  if e.message ≠ "" then true else e.serverLate now && e.secondsSinceHeard now > 10

def keystrokeSuffix (e : NotificationEngine) : String :=
  if e.showQuitKeystroke && e.escapeKeyString ≠ "" then
    " [To quit: " ++ e.escapeKeyString ++ "]"
  else ""

/-- How long who has not been heard from. -/
def elapsed (e : NotificationEngine) (now : Nat) : Nat × String :=
  if e.replyLate now && !e.serverLate now then (e.secondsSinceAcked now, "reply")
  else (e.secondsSinceHeard now, "contact")

/-- The notification text to render. -/
def getText (e : NotificationEngine) (now : Nat) : String :=
  let timeExpired := e.needCountup now
  let (n, explanation) := e.elapsed now
  if e.message = "" ∧ !timeExpired then ""
  else if e.message = "" ∧ timeExpired then
    "morsh: Last " ++ explanation ++ " " ++ toString n ++ " ago." ++ e.keystrokeSuffix
  else if e.message ≠ "" ∧ !timeExpired then "morsh: " ++ e.message ++ e.keystrokeSuffix
  else
    "morsh: " ++ e.message ++ " (" ++ toString n ++ "s without " ++ explanation ++ ".)"
      ++ e.keystrokeSuffix

/-- The notification bar as VT escape sequences: the top row in reverse video,
then the text on it. -/
def render (e : NotificationEngine) (now : Nat) : Option String :=
  if !e.hasMessage now then none
  else
    let width := 80
    some ("\x1b[s\x1b[1;1H\x1b[7m" ++ String.ofList (List.replicate width ' ') ++ "\x1b[1;1H"
      ++ String.ofList ((e.getText now).toList.take (width - 1)) ++ "\x1b[0m\x1b[u")

end NotificationEngine

/-! ## Over time -/

inductive NotificationOp where
  | setNotification (msg : String) (permanent : Bool)
  | setNetworkError (msg : String)
  | clearNetworkError
  | showEscapeHelp
  | hideEscapeHelp
  | serverHeard (time : Nat)
  | serverAcked (time : Nat)
  /-- One of the readers is called. -/
  | look
  deriving DecidableEq, Repr

namespace NotificationEngine

/-- One call, at a time. -/
def step (e : NotificationEngine) : Nat × NotificationOp → Option NotificationEngine
  | (now, .setNotification msg permanent) => some (e.setNotification msg permanent now)
  | (now, .setNetworkError msg) => some (e.setNetworkError msg now)
  | (now, .clearNetworkError) => some (e.clearNetworkError now)
  | (now, .showEscapeHelp) => some (e.showEscapeHelp now)
  | (_, .hideEscapeHelp) => some e.hideEscapeHelp
  | (_, .serverHeard time) => some (e.serverHeard time)
  | (_, .serverAcked time) => some (e.serverAcked time)
  | (_, .look) => some e

end NotificationEngine

end Morsh
