import Morsh.Lib.BigEndian
import Morsh.Network.State

/-!
# The encrypted session

A `Nonce` is four zero bytes and a 64-bit value; a packet is the value's eight
bytes, the ciphertext and the tag. `Ocb3` is the cipher outside the repository.
A panic is a missing result, next to what had been changed when it happened.
-/

namespace Morsh.Crypto

/-- 12-byte nonce for AES-128-OCB3. -/
structure Nonce where
  bytes : Bytes
  length_bytes : bytes.length = 12
  deriving DecidableEq

namespace Nonce

/-- A nonce from a 64-bit value (direction and sequence number). -/
def fromVal (val : Nat) : Nonce :=
  ⟨List.replicate 4 0 ++ BigEndian.encode 8 val, by simp⟩

/-- A nonce from its wire representation. The source's assertion is the second
argument. -/
def fromBytes (sBytes : Bytes) (h : sBytes.length = 8) : Nonce :=
  ⟨List.replicate 4 0 ++ sBytes, by simp [h]⟩

/-- The wire representation: the last eight bytes. -/
def ccStr (n : Nonce) : Bytes := n.bytes.drop 4

def val (n : Nonce) : Nat := BigEndian.decode (n.bytes.drop 4)

@[simp] theorem ccStr_fromVal (val : Nat) : (fromVal val).ccStr = BigEndian.encode 8 val := rfl

@[simp] theorem val_fromVal (v : Nat) : (fromVal v).val = v % 2 ^ 64 :=
  BigEndian.decode_encode 8 v

@[simp] theorem length_ccStr (n : Nonce) : n.ccStr.length = 8 := by
  rw [ccStr, List.length_drop, n.length_bytes]

end Nonce

/-- A nonce and a payload. -/
structure Message where
  nonce : Nonce
  text : Bytes
  deriving DecidableEq

inductive CryptoError where
  | tooShort
  | integrityCheckFailed
  deriving DecidableEq, Repr

instance : ToString CryptoError where
  toString
    | .tooShort => "Ciphertext must contain nonce and tag"
    | .integrityCheckFailed => "Packet failed integrity check"

/-- `ocb3::Ocb3<Aes128, U12, U16>` with no associated data. -/
class Ocb3 (Cipher : Type) where
  new : Bytes → Cipher
  /-- The buffer encrypted in place, and the tag. -/
  encryptInPlaceDetached : Cipher → Nonce → Bytes → Option (Bytes × Bytes)
  decryptInPlaceDetached : Cipher → Nonce → Bytes → Bytes → Option Bytes

/-- Decryption undoes encryption, the ciphertext is as long as the plaintext, and
the tag is `U16`. -/
class LawfulOcb3 (Cipher : Type) [Ocb3 Cipher] : Prop where
  decrypt_encrypt : ∀ {c : Cipher} {nonce : Nonce} {text buffer tag : Bytes},
    Ocb3.encryptInPlaceDetached c nonce text = some (buffer, tag) →
    Ocb3.decryptInPlaceDetached c nonce buffer tag = some text
  length_buffer : ∀ {c : Cipher} {nonce : Nonce} {text buffer tag : Bytes},
    Ocb3.encryptInPlaceDetached c nonce text = some (buffer, tag) → buffer.length = text.length
  length_tag : ∀ {c : Cipher} {nonce : Nonce} {text buffer tag : Bytes},
    Ocb3.encryptInPlaceDetached c nonce text = some (buffer, tag) → tag.length = 16

/-- `ADDED_BYTES` of the session: the OCB tag. -/
def SESSION_ADDED_BYTES : Nat := 16

structure Session (Cipher : Type) where
  cipher : Cipher
  blocksEncrypted : Nat
  deriving DecidableEq, Repr

namespace Session

variable {Cipher : Type} [Ocb3 Cipher]

def new (key : Bytes) : Session Cipher := ⟨Ocb3.new key, 0⟩

/-- Encrypt a message. `none` is a panic: the cipher refused, or the key has
been used for 2^47 blocks. -/
def encrypt (s : Session Cipher) (msg : Message) : Session Cipher × Option Bytes :=
  let ptLen := msg.text.length
  match Ocb3.encryptInPlaceDetached s.cipher msg.nonce msg.text with
  | none => (s, none)
  | some (buffer, tag) =>
      if buffer.length + tag.length ≠ ptLen + SESSION_ADDED_BYTES then (s, none)
      else
        let s := { s with blocksEncrypted := s.blocksEncrypted + (ptLen + 15) / 16 }
        if s.blocksEncrypted >>> 47 ≠ 0 then (s, none)
        else (s, some (msg.nonce.ccStr ++ buffer ++ tag))

def decrypt (s : Session Cipher) (data : Bytes) : Except CryptoError Message :=
  if h : data.length < 8 + SESSION_ADDED_BYTES then .error .tooShort
  else
    let body := data.drop 8
    let ctLen := body.length - SESSION_ADDED_BYTES
    let nonce := Nonce.fromBytes (data.take 8) (by rw [List.length_take]; omega)
    match Ocb3.decryptInPlaceDetached s.cipher nonce (body.take ctLen) (body.drop ctLen) with
    | none => .error .integrityCheckFailed
    | some buffer => .ok ⟨nonce, buffer⟩

/-- A packet that was returned begins with its nonce, and left the session under
its limit with the message's blocks counted. -/
theorem encrypt_some {s t : Session Cipher} {msg : Message} {wire : Bytes}
    (h : s.encrypt msg = (t, some wire)) :
    wire.take 8 = msg.nonce.ccStr ∧ t.cipher = s.cipher ∧
      t.blocksEncrypted = s.blocksEncrypted + (msg.text.length + 15) / 16 ∧
      t.blocksEncrypted < 2 ^ 47 := by
  rw [encrypt] at h
  split at h
  · cases h
  · next buffer tag hocb =>
      split at h
      · cases h
      · dsimp only at h
        split at h
        · cases h
        · next hblocks =>
            cases h
            refine ⟨?_, rfl, rfl, ?_⟩
            · rw [List.append_assoc, List.take_append_of_le_length (by simp),
                List.take_of_length_le (by simp)]
            · rwa [not_not, Nat.shiftRight_eq_div_pow,
                Nat.div_eq_zero_iff_lt (by decide)] at hblocks

end Session

end Morsh.Crypto
