import Morsh.Lib.Base64
import Morsh.Network.State

/-!
# The key as the user sees it

Sixteen bytes, printed as the 22 characters in front of the padding of their
base64. `Base64Engine` is the encoder outside the repository.
-/

namespace Morsh.Crypto

/-- `base64::engine::general_purpose::STANDARD`. -/
class Base64Engine where
  encode : Bytes → List Char
  /-- An error carries its message. -/
  decode : List Char → Except String Bytes

/-- The standard alphabet with padding. -/
class LawfulBase64Engine [Base64Engine] : Prop where
  decode_encode : ∀ bytes, Base64Engine.decode (Base64Engine.encode bytes) = .ok bytes
  length_encode : ∀ bytes,
    (Base64Engine.encode bytes).length = 4 * ((bytes.length + 2) / 3)
  /-- One byte more than a multiple of three leaves two characters to pad. -/
  padded : ∀ {bytes : Bytes}, bytes.length % 3 = 1 →
    ∃ front, Base64Engine.encode bytes = front ++ ['=', '=']
  symbols : ∀ {bytes : Bytes}, ∀ c ∈ Base64Engine.encode bytes, Base64.isSymbol c = true

instance : Base64Engine where
  encode := Base64.encode
  decode text :=
    match Base64.decode text with
    | some bytes => .ok bytes
    | none => .error "Invalid input."

instance : LawfulBase64Engine where
  decode_encode bytes := by
    simp only [Base64Engine.decode, Base64Engine.encode, Base64.decode_encode]
  length_encode := Base64.length_encode
  padded := Base64.encode_padded
  symbols := fun {bytes} => Base64.encode_symbols bytes

/-- A 128-bit key. -/
structure Base64Key where
  data : Bytes
  length_data : data.length = 16
  deriving DecidableEq

/-- `str::len`, in bytes. -/
def byteLen (text : List Char) : Nat := (text.map Char.utf8Size).sum

namespace Base64Key

section

variable [Base64Engine]

/-- The key as 22 characters, without padding. -/
def printableKey (key : Base64Key) : List Char := (Base64Engine.encode key.data).take 22

/-- Parse a 22-character key. -/
def fromPrintable (printable : List Char) : Except String Base64Key :=
  if byteLen printable ≠ 22 then
    .error s!"Key must be 22 characters, got {byteLen printable}"
  else
    -- add back the padding
    match Base64Engine.decode (printable ++ "==".toList) with
    | .error e => .error s!"Invalid base64: {e}"
    | .ok decoded =>
        if h : decoded.length = 16 then
          let key : Base64Key := ⟨decoded, h⟩
          if key.printableKey ≠ printable then .error "Base64 key was not encoded 128-bit key"
          else .ok key
        else .error s!"Key must represent 16 octets, got {decoded.length}"

variable [LawfulBase64Engine] (key : Base64Key)

theorem encode_data : Base64Engine.encode key.data = key.printableKey ++ ['=', '='] := by
  have hlength : (Base64Engine.encode key.data).length = 24 := by
    rw [LawfulBase64Engine.length_encode, key.length_data]
  obtain ⟨front, hfront⟩ := @LawfulBase64Engine.padded _ _ key.data (by rw [key.length_data])
  have hcut : front.length = 22 := by
    rw [hfront, List.length_append] at hlength
    simpa using hlength
  rw [printableKey, hfront, List.take_append_of_le_length (Nat.le_of_eq hcut.symm), ← hcut,
    List.take_length]

theorem length_printableKey : key.printableKey.length = 22 := by
  have hlength : (Base64Engine.encode key.data).length = 24 := by
    rw [LawfulBase64Engine.length_encode, key.length_data]
  rw [encode_data, List.length_append] at hlength
  simpa using hlength

theorem printableKey_symbols : ∀ c ∈ key.printableKey, Base64.isSymbol c = true :=
  fun _ hc => LawfulBase64Engine.symbols _ (List.mem_of_mem_take hc)

end

end Base64Key

end Morsh.Crypto
