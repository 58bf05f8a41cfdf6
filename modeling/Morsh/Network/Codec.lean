import Morsh.Network.State

/-!
# The codecs outside the repository

`prost` and `flate2`, as far as the code relies on them: decoding inverts
encoding, a message with nothing in it is no bytes, and a stream that was
compressed decompresses to what went in.
-/

namespace Morsh

/-- `prost::Message` at one message type. -/
class ProstMessage (M : Type) [Inhabited M] where
  encode : M → Bytes
  decode : Bytes → Except String M
  decode_encode : ∀ m, decode (encode m) = .ok m
  encode_default : encode default = []

namespace ProstMessage

variable {M : Type} [Inhabited M] [ProstMessage M]

/-- Only the empty message is no bytes. -/
theorem eq_default_of_encode {m : M} (h : encode m = []) : m = default := by
  have hm := decode_encode m
  rw [h, ← encode_default (M := M), decode_encode] at hm
  exact (Except.ok.inj hm).symm

end ProstMessage

/-- `flate2`'s `ZlibEncoder` and `ZlibDecoder` over byte strings. -/
class Zlib where
  /-- What the encoder holds after `write_all`. -/
  writeAll : Bytes → Except String Bytes
  finish : Bytes → Except String Bytes
  readToEnd : Bytes → Except String Bytes
  readToEnd_finish : ∀ {data held stream}, writeAll data = .ok held → finish held = .ok stream →
    readToEnd stream = .ok data

variable [Zlib]

def compress (data : Bytes) : Except String Bytes :=
  match Zlib.writeAll data with
  | .error e => .error s!"Compression error: {e}"
  | .ok held =>
      match Zlib.finish held with
      | .error e => .error s!"Compression finish error: {e}"
      | .ok stream => .ok stream

def decompress (data : Bytes) : Except String Bytes :=
  match Zlib.readToEnd data with
  | .error e => .error s!"Zlib decompression error: {e} (data_len={data.length})"
  | .ok output => .ok output

theorem decompress_compress {data stream : Bytes} (h : compress data = .ok stream) :
    decompress stream = .ok data := by
  unfold compress at h
  split at h
  · cases h
  · next held hheld =>
      split at h
      · cases h
      · next hstream =>
          cases h
          rw [decompress, Zlib.readToEnd_finish hheld hstream]

end Morsh
