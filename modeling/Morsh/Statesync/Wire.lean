import Morsh.Lib.Protobuf
import Morsh.Network.Fragment
import Morsh.Statesync.Complete

/-!
# The messages on the wire

The field numbers of `proto/userinput.proto`, `proto/hostinput.proto` and
`proto/transportinstruction.proto`, over the wire format. This is one codec
that meets `ProstMessage`; nothing but the runs exhibited on concrete inputs
depends on it.
-/

namespace Morsh

open Protobuf

instance : Message Keystroke where
  empty := ⟨none⟩
  fields m := (m.keys.map fun keys => ⟨4, .bytes keys⟩).toList
  merge
    | _, ⟨4, .bytes keys⟩ => some ⟨some keys⟩
    | m, _ => some m
  merge_fields m := by
    obtain ⟨keys⟩ := m
    cases keys <;> rfl

instance : Message ResizeMessage where
  empty := ⟨none, none⟩
  fields m := (m.width.map fun w => ⟨5, .varint (int32Varint w)⟩).toList ++
    (m.height.map fun h => ⟨6, .varint (int32Varint h)⟩).toList
  merge
    | m, ⟨5, .varint n⟩ => some { m with width := some (varintInt32 n) }
    | m, ⟨6, .varint n⟩ => some { m with height := some (varintInt32 n) }
    | m, _ => some m
  merge_fields m := by
    obtain ⟨width, height⟩ := m
    cases width <;> cases height <;> simp

instance : Message ClientInstruction where
  empty := ⟨none, none⟩
  fields m := Message.subField 2 m.keystroke ++ Message.subField 3 m.resize
  merge
    | m, ⟨2, .bytes b⟩ =>
        (Message.mergeSub m.keystroke b).map fun k => { m with keystroke := some k }
    | m, ⟨3, .bytes b⟩ =>
        (Message.mergeSub m.resize b).map fun r => { m with resize := some r }
    | m, _ => some m
  merge_fields m := by
    obtain ⟨keystroke, resize⟩ := m
    cases keystroke <;> cases resize <;> simp [Message.subField]

/-- A repeated field appends. -/
def UserMessage.merge (m : UserMessage) : Field → Option UserMessage
  | ⟨1, .bytes b⟩ =>
      (Message.decode (M := ClientInstruction) b).map fun i => ⟨m.instruction ++ [i]⟩
  | _ => some m

instance : Message UserMessage where
  empty := ⟨[]⟩
  fields m := m.instruction.map fun i => ⟨1, .bytes (Message.encode i)⟩
  merge := UserMessage.merge
  merge_fields m := Message.foldlM_repeated UserMessage.mk (fun pre i => by
    rw [UserMessage.merge, Message.decode_encode]
    rfl) m.instruction []

/-- The protocol-buffer encoding of a user message. -/
instance userMessageWire : ProstMessage UserMessage where
  encode := Message.encode
  decode bytes := match Message.decode bytes with
    | some m => .ok m
    | none => .error "failed to decode Protobuf message"
  decode_encode m := by rw [Message.decode_encode]
  encode_default := rfl

instance : Message HostBytes where
  empty := ⟨none⟩
  fields m := (m.hoststring.map fun b => ⟨4, .bytes b⟩).toList
  merge
    | _, ⟨4, .bytes b⟩ => some ⟨some b⟩
    | m, _ => some m
  merge_fields m := by
    obtain ⟨hoststring⟩ := m
    cases hoststring <;> rfl

instance : Message EchoAck where
  empty := ⟨none⟩
  fields m := (m.echoAckNum.map fun n => ⟨8, .varint n⟩).toList
  merge
    | _, ⟨8, .varint n⟩ => some ⟨some n⟩
    | m, _ => some m
  merge_fields m := by
    obtain ⟨echoAckNum⟩ := m
    cases echoAckNum <;> rfl

instance : Message HostInstruction where
  empty := ⟨none, none, none⟩
  fields m := Message.subField 2 m.hostbytes ++ Message.subField 3 m.resize ++
    Message.subField 7 m.echoack
  merge
    | m, ⟨2, .bytes b⟩ =>
        (Message.mergeSub m.hostbytes b).map fun h => { m with hostbytes := some h }
    | m, ⟨3, .bytes b⟩ =>
        (Message.mergeSub m.resize b).map fun r => { m with resize := some r }
    | m, ⟨7, .bytes b⟩ =>
        (Message.mergeSub m.echoack b).map fun e => { m with echoack := some e }
    | m, _ => some m
  merge_fields m := by
    obtain ⟨hostbytes, resize, echoack⟩ := m
    cases hostbytes <;> cases resize <;> cases echoack <;> simp [Message.subField]

def HostMessage.merge (m : HostMessage) : Field → Option HostMessage
  | ⟨1, .bytes b⟩ =>
      (Message.decode (M := HostInstruction) b).map fun i => ⟨m.instruction ++ [i]⟩
  | _ => some m

instance : Message HostMessage where
  empty := ⟨[]⟩
  fields m := m.instruction.map fun i => ⟨1, .bytes (Message.encode i)⟩
  merge := HostMessage.merge
  merge_fields m := Message.foldlM_repeated HostMessage.mk (fun pre i => by
    rw [HostMessage.merge, Message.decode_encode]
    rfl) m.instruction []

/-- The protocol-buffer encoding of a host message. -/
instance hostMessageWire : ProstMessage HostMessage where
  encode := Message.encode
  decode bytes := match Message.decode bytes with
    | some m => .ok m
    | none => .error "failed to decode Protobuf message"
  decode_encode m := by rw [Message.decode_encode]
  encode_default := rfl

/-- The fields of an instruction, by tag. -/
def Instruction.fields (i : Instruction) : List Field :=
  (i.protocolVersion.map fun n => ⟨1, .varint n⟩).toList ++
  (i.oldNum.map fun n => ⟨2, .varint n⟩).toList ++
  (i.newNum.map fun n => ⟨3, .varint n⟩).toList ++
  (i.ackNum.map fun n => ⟨4, .varint n⟩).toList ++
  (i.throwawayNum.map fun n => ⟨5, .varint n⟩).toList ++
  (i.diff.map fun b => ⟨6, .bytes b⟩).toList ++
  (i.chaff.map fun b => ⟨7, .bytes b⟩).toList

def Instruction.merge (i : Instruction) : Field → Option Instruction
  | ⟨1, .varint n⟩ => some { i with protocolVersion := some n }
  | ⟨2, .varint n⟩ => some { i with oldNum := some n }
  | ⟨3, .varint n⟩ => some { i with newNum := some n }
  | ⟨4, .varint n⟩ => some { i with ackNum := some n }
  | ⟨5, .varint n⟩ => some { i with throwawayNum := some n }
  | ⟨6, .bytes b⟩ => some { i with diff := some b }
  | ⟨7, .bytes b⟩ => some { i with chaff := some b }
  | _ => some i

instance : Message Instruction where
  empty := ⟨none, none, none, none, none, none, none⟩
  fields := Instruction.fields
  merge := Instruction.merge
  merge_fields i := by
    obtain ⟨version, oldNum, newNum, ackNum, throwawayNum, diff, chaff⟩ := i
    simp only [Instruction.fields, List.foldlM_append]
    cases version <;> cases oldNum <;> cases newNum <;> cases ackNum <;> cases throwawayNum <;>
      cases diff <;> cases chaff <;> rfl

/-- The protocol-buffer encoding of an instruction. -/
instance instructionWire : ProstMessage Instruction where
  encode := Message.encode
  decode bytes := match Message.decode bytes with
    | some m => .ok m
    | none => .error "failed to decode Protobuf message"
  decode_encode m := by rw [Message.decode_encode]
  encode_default := rfl

end Morsh
