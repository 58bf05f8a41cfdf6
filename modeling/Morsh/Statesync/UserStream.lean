import Morsh.Network.Codec

/-!
# The queue of user input

`UserStream` and the message it is sent as.
-/

namespace Morsh

/-- A keystroke or a resize. -/
inductive UserEvent where
  | userByte (byte : UInt8)
  | resize (width height : Int32)
  deriving DecidableEq, Repr

structure Keystroke where
  keys : Option Bytes
  deriving DecidableEq, Repr

structure ResizeMessage where
  width : Option Int32
  height : Option Int32
  deriving DecidableEq, Repr

structure ClientInstruction where
  keystroke : Option Keystroke
  resize : Option ResizeMessage
  deriving DecidableEq, Repr

structure UserMessage where
  instruction : List ClientInstruction
  deriving DecidableEq, Repr, Inhabited

/-- Queue of user input events. -/
structure UserStream where
  events : List UserEvent
  deriving DecidableEq, Repr

namespace UserStream

def new : UserStream := ⟨[]⟩

/-- `push_key` and `push_resize`. -/
def push (s : UserStream) (e : UserEvent) : UserStream := ⟨s.events ++ [e]⟩

def commonPrefixLen : List UserEvent → List UserEvent → Nat
  | a :: as, b :: bs => if a ≠ b then 0 else commonPrefixLen as bs + 1
  | _, _ => 0

def keystrokeInstruction (keys : Bytes) : ClientInstruction := ⟨some ⟨some keys⟩, none⟩

def resizeInstruction (width height : Int32) : ClientInstruction :=
  ⟨none, some ⟨some width, some height⟩⟩

mutual

/-- The outer loop of `encode_diff_from`. -/
def group : List UserEvent → List ClientInstruction
  | [] => []
  | .userByte byte :: rest => groupKeys [byte] rest
  | .resize width height :: rest => resizeInstruction width height :: group rest

/-- The inner loop: consecutive keystrokes go into one instruction. -/
def groupKeys (keys : Bytes) : List UserEvent → List ClientInstruction
  | [] => [keystrokeInstruction keys]
  | .userByte byte :: rest => groupKeys (keys ++ [byte]) rest
  | .resize width height :: rest =>
      keystrokeInstruction keys :: resizeInstruction width height :: group rest

end

/-- The events one instruction of a received message pushes. -/
def instructionEvents (inst : ClientInstruction) : List UserEvent :=
  (match inst.keystroke with
    | some keystroke => (keystroke.keys.getD []).map .userByte
    | none => []) ++
  match inst.resize with
    | some resize => [.resize (resize.width.getD 80) (resize.height.getD 24)]
    | none => []

variable [ProstMessage UserMessage]

def encodeDiffFrom (s existing : UserStream) : Bytes :=
  ProstMessage.encode (M := UserMessage)
    ⟨group (s.events.drop (commonPrefixLen s.events existing.events))⟩

/-- The diff comes off the network, so a malformed one is an error. -/
def decodeAndApply (s : UserStream) (diff : Bytes) : Except String UserStream :=
  match ProstMessage.decode (M := UserMessage) diff with
  | .error e => .error s!"Malformed UserMessage from peer: {e}"
  | .ok msg => .ok ⟨s.events ++ msg.instruction.flatMap instructionEvents⟩

def subtractPrefix (s known : UserStream) : UserStream :=
  ⟨s.events.drop (commonPrefixLen s.events known.events)⟩

instance : State UserStream where
  hasPrefix := true
  clone s := s
  diffFrom := encodeDiffFrom
  applyString := decodeAndApply
  subtract := subtractPrefix
  stateEqual a b := a.events == b.events
  adoptFrom s source := (s, source)

/-- The events a diff carries, read into a fresh stream. -/
def eventsOf (diff : Bytes) : Except String (List UserEvent) :=
  (new.decodeAndApply diff).map (·.events)

end UserStream

end Morsh
