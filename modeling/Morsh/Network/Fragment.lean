import Morsh.Lib.BigEndian
import Morsh.Network.Codec

/-!
# Fragments

An instruction is encoded, compressed and cut into fragments that fit a
datagram; the other end puts them together again. `FragmentAssembly` holds one
instruction at a time, and a fragment of another id abandons it. Where a call
fails after it has changed something, the result stands next to what was
changed.
-/

namespace Morsh

instance : Inhabited Instruction := ⟨⟨none, none, none, none, none, none, none⟩⟩

def FRAG_HEADER_LEN : Nat := 10

/-- A single fragment of a larger instruction. The id is a `u64` and the number
a `u16`. -/
structure Fragment where
  id : Nat
  finalFlag : Bool
  fragmentNum : Nat
  payload : Bytes
  deriving DecidableEq, Repr

namespace Fragment

/-- Bit 15 of the last header word is the final flag. -/
def toBytes (f : Fragment) : Bytes :=
  BigEndian.encode 8 f.id ++
    BigEndian.encode 2 (f.finalFlag.toNat <<< 15 ||| f.fragmentNum &&& 0x7FFF) ++ f.payload

def fromBytes (data : Bytes) : Except String Fragment :=
  if data.length < FRAG_HEADER_LEN then .error "Fragment too short"
  else
    let combined := BigEndian.decode ((data.drop 8).take 2)
    .ok {
      id := BigEndian.decode (data.take 8)
      finalFlag := combined >>> 15 &&& 1 == 1
      fragmentNum := combined &&& 0x7FFF
      payload := data.drop FRAG_HEADER_LEN }

end Fragment

/-- `.chunks(n)`: the pieces of `n` elements, the last one shorter. -/
def chunks {α : Type} (n : Nat) (l : List α) : List (List α) :=
  (List.range ((l.length + n - 1) / n)).map fun i => (l.drop (i * n)).take n

structure Fragmenter where
  nextInstructionId : Nat
  lastInstruction : Option Instruction
  lastMaxPayload : Option Nat
  deriving DecidableEq, Repr

namespace Fragmenter

def new : Fragmenter := ⟨0, none, none⟩

/-- Whether `inst` differs from the last instruction in any field that
identifies the packet: everything but `diff`. -/
def isNewInstruction (f : Fragmenter) (inst : Instruction) (maxPayload : Nat) : Bool :=
  match f.lastInstruction with
  | none => true
  | some last =>
      f.lastMaxPayload ≠ some maxPayload
        || inst.oldNum ≠ last.oldNum
        || inst.newNum ≠ last.newNum
        || inst.ackNum ≠ last.ackNum
        || inst.throwawayNum ≠ last.throwawayNum
        || inst.chaff ≠ last.chaff
        || inst.protocolVersion ≠ last.protocolVersion

def lastAckSent (f : Fragmenter) : Nat := (f.lastInstruction.bind (·.ackNum)).getD 0

/-- The fragments of one compressed instruction. -/
def cut (id maxPayload : Nat) (compressed : Bytes) : List Fragment :=
  let total := max ((compressed.length + maxPayload - 1) / maxPayload) 1
  let fragments := (chunks maxPayload compressed).zipIdx.map fun p =>
    { id := id, finalFlag := p.2 == total - 1, fragmentNum := p.2 % 2 ^ 16, payload := p.1 }
  if fragments.isEmpty then [⟨id, true, 0, []⟩] else fragments

variable [Zlib] [ProstMessage Instruction]

/-- Compress and fragment an instruction. The id is a `u64`; `none` is the panic
of an addition past its range. -/
def makeFragments (f : Fragmenter) (inst : Instruction) (maxPayload : Nat) :
    Option (Fragmenter × Except String (List Fragment)) :=
  if maxPayload = 0 then some (f, .error "max_payload must be positive")
  else
    let id := if f.isNewInstruction inst maxPayload then f.nextInstructionId + 1
      else f.nextInstructionId
    if id ≥ 2 ^ 64 then none
    else some (⟨id, some inst, some maxPayload⟩,
      match compress (ProstMessage.encode inst) with
      | .error e => .error e
      | .ok compressed => .ok (cut id maxPayload compressed))

/-- `make_fragments` call by call, with its results. -/
def makeAll (f : Fragmenter) :
    List (Instruction × Nat) → Option (List (Except String (List Fragment)))
  | [] => some []
  | (inst, maxPayload) :: rest =>
      (f.makeFragments inst maxPayload).bind fun p => (p.1.makeAll rest).map (p.2 :: ·)

/-- The datagrams of the calls that succeeded. -/
def wire (results : List (Except String (List Fragment))) : List Bytes :=
  results.flatMap fun
    | .ok fragments => fragments.map Fragment.toBytes
    | .error _ => []

end Fragmenter

structure FragmentAssembly where
  fragments : List (Option Fragment)
  currentId : Option Nat
  fragmentsArrived : Nat
  fragmentsTotal : Option Nat
  deriving DecidableEq, Repr

namespace FragmentAssembly

def new : FragmentAssembly := ⟨[], none, 0, none⟩

/-- The first half of `add_fragment`: file the fragment. -/
def file (a : FragmentAssembly) (frag : Fragment) : FragmentAssembly :=
  let index := frag.fragmentNum
  if a.currentId ≠ some frag.id then
    -- a new packet: whatever was in progress is abandoned
    { fragments := (List.replicate (index + 1) none).set index (some frag)
      currentId := some frag.id
      fragmentsArrived := 1
      fragmentsTotal := if frag.finalFlag then some (index + 1) else none }
  else
    let total := if frag.finalFlag then some (index + 1) else a.fragmentsTotal
    if (a.fragments[index]?.map (·.isSome)).getD false then
      { a with fragmentsTotal := total }
    else
      { a with
        fragments := (a.fragments ++ List.replicate (index + 1 - a.fragments.length) none).set
          index (some frag)
        fragmentsArrived := a.fragmentsArrived + 1
        fragmentsTotal := total }

/-- The payloads of the first slots, in order. -/
def gather : List (Option Fragment) → Except String Bytes
  | [] => .ok []
  | none :: _ => .error "Missing fragment"
  | some frag :: rest => (gather rest).map (frag.payload ++ ·)

variable [Zlib] [ProstMessage Instruction]

def assemble (a : FragmentAssembly) (total : Nat) :
    FragmentAssembly × Except String Instruction :=
  match gather (a.fragments.take total) with
  | .error e => (a, .error e)
  | .ok data =>
      ({ a with fragments := [], fragmentsArrived := 0, fragmentsTotal := none },
        match decompress data with
        | .error e => .error e
        | .ok decompressed =>
            match ProstMessage.decode (M := Instruction) decompressed with
            | .error e => .error s!"Protobuf decode error: {e}"
            | .ok inst => .ok inst)

/-- Add a fragment, and hand out the instruction it completes. -/
def addFragment (a : FragmentAssembly) (frag : Fragment) :
    FragmentAssembly × Except String (Option Instruction) :=
  let a := a.file frag
  match a.fragmentsTotal with
  | none => (a, .ok none)
  | some total =>
      if a.fragments.length > total then
        (a, .error s!"Fragment {a.fragments.length - 1} arrived after the final fragment {total - 1}")
      else if a.fragmentsArrived = total then
        let (a, result) := a.assemble total
        (a, result.map some)
      else (a, .ok none)

/-- A datagram's payload: parse it and add the fragment. -/
def receive (a : FragmentAssembly) (data : Bytes) :
    FragmentAssembly × Except String (Option Instruction) :=
  match Fragment.fromBytes data with
  | .error e => (a, .error e)
  | .ok frag => a.addFragment frag

/-- A whole delivery, with the result of each call. -/
def receiveAll (a : FragmentAssembly) :
    List Bytes → FragmentAssembly × List (Except String (Option Instruction))
  | [] => (a, [])
  | data :: rest =>
      let (a, result) := a.receive data
      let (a, results) := a.receiveAll rest
      (a, result :: results)

end FragmentAssembly

end Morsh
