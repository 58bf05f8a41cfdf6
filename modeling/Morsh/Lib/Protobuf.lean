import Mathlib.Data.List.Basic
import Mathlib.Data.Int.Bitwise
import Mathlib.Tactic.Common

/-!
# The protocol-buffer wire format

Base-128 varints, keyed fields of the two wire types `varint` and
length-delimited, and messages as what merging their fields in order builds.
`Message` carries the one law a message has to prove, that merging its own
fields into the empty message gives it back; from that law `decode_encode` is
the round trip of the bytes.

Whatever is decoded is taken off the front of the input, so each round trip is
stated with more behind it: a varint by induction on its bytes, a field from its
two varints, the fields of a message by induction on them. A field that comes
twice is merged, which is why the law of a message is about merging.
-/

namespace Protobuf

/-! ## Varints -/

/-- Seven bits a byte, lowest first. `fuel` bounds the bytes after the first. -/
def varintBytes : Nat → Nat → List UInt8
  | 0, n => [UInt8.ofNat n]
  | fuel + 1, n =>
      if n < 128 then [UInt8.ofNat n]
      else UInt8.ofNat (n % 128 + 128) :: varintBytes fuel (n / 128)

def encodeVarint (n : Nat) : List UInt8 := varintBytes (Nat.log2 n) n

def decodeVarint : List UInt8 → Option (Nat × List UInt8)
  | [] => none
  | b :: rest =>
      if b.toNat < 128 then some (b.toNat, rest)
      else (decodeVarint rest).map fun p => (b.toNat - 128 + 128 * p.1, p.2)

theorem decodeVarint_varintBytes {fuel n : Nat} (rest : List UInt8) (h : n < 128 * 2 ^ fuel) :
    decodeVarint (varintBytes fuel n ++ rest) = some (n, rest) := by
  induction fuel generalizing n with
  | zero =>
      rw [varintBytes, List.singleton_append, decodeVarint, UInt8.toNat_ofNat',
        Nat.mod_eq_of_lt (by omega), if_pos (by omega)]
  | succ fuel ih =>
      rw [varintBytes]
      split
      · rw [List.singleton_append, decodeVarint, UInt8.toNat_ofNat',
          Nat.mod_eq_of_lt (by omega), if_pos (by omega)]
      · have hdiv : n / 128 < 128 * 2 ^ fuel := by
          rw [Nat.pow_succ] at h
          omega
        rw [List.cons_append, decodeVarint, UInt8.toNat_ofNat', Nat.mod_eq_of_lt (by omega),
          if_neg (by omega), ih hdiv, Option.map_some, Option.some.injEq, Prod.mk.injEq]
        exact ⟨by omega, rfl⟩

theorem decodeVarint_encodeVarint (n : Nat) (rest : List UInt8) :
    decodeVarint (encodeVarint n ++ rest) = some (n, rest) := by
  refine decodeVarint_varintBytes rest ?_
  have hlog : n < 2 ^ (Nat.log2 n + 1) := Nat.lt_log2_self
  rw [Nat.pow_succ] at hlog
  omega

theorem encodeVarint_ne_nil (n : Nat) : encodeVarint n ≠ [] := by
  unfold encodeVarint
  cases Nat.log2 n with
  | zero => simp [varintBytes]
  | succ fuel =>
      rw [varintBytes]
      split <;> simp

/-! ## Fields -/

inductive Value where
  | varint (n : Nat)
  | bytes (b : List UInt8)
  deriving DecidableEq, Repr

structure Field where
  number : Nat
  value : Value
  deriving DecidableEq, Repr

def encodeField : Field → List UInt8
  | ⟨number, .varint n⟩ => encodeVarint (8 * number) ++ encodeVarint n
  | ⟨number, .bytes b⟩ => encodeVarint (8 * number + 2) ++ (encodeVarint b.length ++ b)

def encodeFields (fields : List Field) : List UInt8 := fields.flatMap encodeField

/-- The first field and what follows it. -/
def decodeField (bytes : List UInt8) : Option (Field × List UInt8) :=
  (decodeVarint bytes).bind fun key =>
    (decodeVarint key.2).bind fun arg =>
      if key.1 % 8 = 0 then some (⟨key.1 / 8, .varint arg.1⟩, arg.2)
      else if key.1 % 8 = 2 ∧ arg.1 ≤ arg.2.length then
        some (⟨key.1 / 8, .bytes (arg.2.take arg.1)⟩, arg.2.drop arg.1)
      else none

/-- A field is at least one byte, so the length of the input is fuel enough. -/
def parseFields : Nat → List UInt8 → Option (List Field)
  | _, [] => some []
  | 0, _ :: _ => none
  | fuel + 1, b :: rest =>
      (decodeField (b :: rest)).bind fun p => (parseFields fuel p.2).map (p.1 :: ·)

def decodeFields (bytes : List UInt8) : Option (List Field) := parseFields bytes.length bytes

theorem decodeField_encodeField (f : Field) (rest : List UInt8) :
    decodeField (encodeField f ++ rest) = some (f, rest) := by
  obtain ⟨number, value⟩ := f
  cases value with
  | varint n =>
      have hkey : 8 * number % 8 = 0 := by omega
      have hnum : 8 * number / 8 = number := by omega
      rw [encodeField, List.append_assoc, decodeField, decodeVarint_encodeVarint,
        Option.bind_some, decodeVarint_encodeVarint, Option.bind_some, if_pos hkey, hnum]
  | bytes b =>
      have hkey : (8 * number + 2) % 8 = 2 := by omega
      have hnum : (8 * number + 2) / 8 = number := by omega
      rw [encodeField, List.append_assoc, decodeField, decodeVarint_encodeVarint,
        Option.bind_some, List.append_assoc, decodeVarint_encodeVarint, Option.bind_some,
        if_neg (by rw [hkey]; decide), if_pos ⟨hkey, by simp⟩, hnum, List.take_left,
        List.drop_left]

theorem encodeField_ne_nil (f : Field) : encodeField f ≠ [] := by
  obtain ⟨number, value⟩ := f
  cases value <;> simp [encodeField, encodeVarint_ne_nil]

theorem length_le_encodeFields (fields : List Field) :
    fields.length ≤ (encodeFields fields).length := by
  induction fields with
  | nil => exact Nat.zero_le _
  | cons f fields ih =>
      have hpos := List.length_pos_iff.mpr (encodeField_ne_nil f)
      rw [encodeFields] at ih ⊢
      rw [List.flatMap_cons, List.length_append, List.length_cons]
      omega

theorem length_bytes_le_encodeFields {fields : List Field} {number : Nat} {b : List UInt8}
    (h : ⟨number, .bytes b⟩ ∈ fields) : b.length ≤ (encodeFields fields).length := by
  obtain ⟨before, after, rfl⟩ := List.append_of_mem h
  simp only [encodeFields, List.flatMap_append, List.flatMap_cons, encodeField,
    List.length_append]
  omega

theorem parseFields_encodeFields {fuel : Nat} {fields : List Field}
    (h : fields.length ≤ fuel) : parseFields fuel (encodeFields fields) = some fields := by
  induction fields generalizing fuel with
  | nil => cases fuel <;> rfl
  | cons f fields ih =>
      cases fuel with
      | zero => cases h
      | succ fuel =>
          have hfield := decodeField_encodeField f (encodeFields fields)
          rw [show encodeFields (f :: fields) = encodeField f ++ encodeFields fields from rfl]
          cases hb : encodeField f ++ encodeFields fields with
          | nil => exact absurd (List.append_eq_nil_iff.mp hb).1 (encodeField_ne_nil f)
          | cons b rest =>
              rw [parseFields, ← hb, hfield, Option.bind_some,
                ih (Nat.le_of_succ_le_succ h), Option.map_some]

theorem decodeFields_encodeFields (fields : List Field) :
    decodeFields (encodeFields fields) = some fields :=
  parseFields_encodeFields (length_le_encodeFields fields)

/-! ## Messages -/

class Message (M : Type) where
  empty : M
  fields : M → List Field
  /-- One received field merged in; unknown ones are skipped. -/
  merge : M → Field → Option M
  merge_fields : ∀ m, (fields m).foldlM merge empty = some m

namespace Message

variable {M : Type} [Message M]

def encode (m : M) : List UInt8 := encodeFields (fields m)

/-- The bytes of `m`'s fields merged into `init`. -/
def decodeInto (init : M) (bytes : List UInt8) : Option M :=
  (decodeFields bytes).bind fun fs => fs.foldlM merge init

def decode (bytes : List UInt8) : Option M := decodeInto empty bytes

theorem decode_encode (m : M) : decode (encode m) = some m := by
  rw [decode, decodeInto, encode, decodeFields_encodeFields, Option.bind_some, merge_fields]

/-- An optional submessage: the field if it is there. -/
def subField (number : Nat) : Option M → List Field
  | none => []
  | some m => [⟨number, .bytes (encode m)⟩]

/-- A submessage received: merged into the one received before, if any. -/
def mergeSub (old : Option M) (bytes : List UInt8) : Option M :=
  decodeInto (old.getD empty) bytes

@[simp] theorem mergeSub_encode (m : M) : mergeSub none (encode m) = some m :=
  decode_encode m

theorem foldlM_repeated {R : Type} {number : Nat} (wrap : List M → R) {merge : R → Field → Option R}
    (hmerge : ∀ pre m, merge (wrap pre) ⟨number, .bytes (encode m)⟩ = some (wrap (pre ++ [m])))
    (ms pre : List M) :
    (ms.map fun m => (⟨number, .bytes (encode m)⟩ : Field)).foldlM merge (wrap pre)
      = some (wrap (pre ++ ms)) := by
  induction ms generalizing pre with
  | nil => simp
  | cons m ms ih =>
      rw [List.map_cons, List.foldlM_cons, hmerge]
      simpa using ih (pre ++ [m])

end Message

/-! ## `int32` -/

/-- Negative values are sent as 64-bit two's complement. -/
def int32Varint (v : Int32) : Nat := (v.toInt % 2 ^ 64).toNat

def varintInt32 (n : Nat) : Int32 := Int32.ofInt n

@[simp] theorem varintInt32_int32Varint (v : Int32) : varintInt32 (int32Varint v) = v := by
  rw [varintInt32, int32Varint, Int.toNat_of_nonneg (Int.emod_nonneg _ (by decide)),
    ← Int32.toInt_inj, Int32.toInt_ofInt]
  have hlo := v.le_toInt
  have hhi := v.toInt_lt
  have hmod : (v.toInt % 2 ^ 64).bmod Int32.size = v.toInt := by
    simp only [Int.bmod_def, Int32.size]
    omega
  exact hmod

end Protobuf
