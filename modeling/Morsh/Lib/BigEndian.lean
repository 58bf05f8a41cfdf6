import Mathlib.Data.List.Basic
import Mathlib.Algebra.Order.Ring.Nat
import Mathlib.Tactic.Ring

/-!
# Unsigned numbers in network byte order

`encode k n` is the last `k` bytes of `n`, most significant first; `decode`
reads any number of bytes back.
-/

namespace BigEndian

def encode : Nat → Nat → List UInt8
  | 0, _ => []
  | k + 1, n => UInt8.ofNat (n / 256 ^ k) :: encode k n

def decode (bytes : List UInt8) : Nat := bytes.foldl (fun acc b => acc * 256 + b.toNat) 0

@[simp] theorem length_encode (k n : Nat) : (encode k n).length = k := by
  induction k with
  | zero => rfl
  | succ k ih => rw [encode, List.length_cons, ih]

theorem foldl_encode (k n acc : Nat) :
    (encode k n).foldl (fun acc b => acc * 256 + b.toNat) acc = acc * 256 ^ k + n % 256 ^ k := by
  induction k generalizing acc with
  | zero => simp [encode, Nat.mod_one]
  | succ k ih =>
      rw [encode, List.foldl_cons, ih, UInt8.toNat_ofNat']
      have hsplit : n % 256 ^ (k + 1) = n / 256 ^ k % 256 * 256 ^ k + n % 256 ^ k := by
        rw [Nat.pow_succ, Nat.mod_mul, Nat.mul_comm (256 ^ k), Nat.add_comm]
      have hbyte : n / 256 ^ k % 2 ^ 8 = n / 256 ^ k % 256 := rfl
      rw [hsplit, hbyte]
      ring

theorem decode_encode (k n : Nat) : decode (encode k n) = n % 256 ^ k := by
  rw [decode, foldl_encode, Nat.zero_mul, Nat.zero_add]

end BigEndian
