import Mathlib.Data.List.Basic

/-!
# Base64

The standard alphabet with padding. Three bytes are four characters of six bits
each; what is left over at the end is padded, and the bits of its last character
that stand for nothing have to be zero.

The round trip is by groups of three bytes, and arithmetic on each: what a group
is put together from is what it is taken apart into. At the end two cases are
left, one byte or two.
-/

namespace Base64

/-- The character of six bits. -/
def char (n : Nat) : Char :=
  if n < 26 then Char.ofNat (n + 65)
  else if n < 52 then Char.ofNat (n - 26 + 97)
  else if n < 62 then Char.ofNat (n - 52 + 48)
  else if n = 62 then '+'
  else '/'

def value (c : Char) : Option Nat :=
  let n := c.toNat
  if 65 ≤ n ∧ n ≤ 90 then some (n - 65)
  else if 97 ≤ n ∧ n ≤ 122 then some (n - 97 + 26)
  else if 48 ≤ n ∧ n ≤ 57 then some (n - 48 + 52)
  else if n = 43 then some 62
  else if n = 47 then some 63
  else none

def encode : List UInt8 → List Char
  | [] => []
  | [a] => [char (a.toNat / 4), char (a.toNat % 4 * 16), '=', '=']
  | [a, b] =>
      [char (a.toNat / 4), char (a.toNat % 4 * 16 + b.toNat / 16), char (b.toNat % 16 * 4), '=']
  | a :: b :: c :: rest =>
      char (a.toNat / 4) :: char (a.toNat % 4 * 16 + b.toNat / 16) ::
        char (b.toNat % 16 * 4 + c.toNat / 64) :: char (c.toNat % 64) :: encode rest

/-- The bytes of two, three and four characters. -/
def pad2 (w x : Char) : Option (List UInt8) := do
  let p ← value w
  let q ← value x
  if q % 16 = 0 then some [.ofNat (p * 4 + q / 16)] else none

def pad1 (w x y : Char) : Option (List UInt8) := do
  let p ← value w
  let q ← value x
  let r ← value y
  if r % 4 = 0 then some [.ofNat (p * 4 + q / 16), .ofNat (q % 16 * 16 + r / 4)] else none

def quad (w x y z : Char) : Option (List UInt8) := do
  let p ← value w
  let q ← value x
  let r ← value y
  let s ← value z
  some [.ofNat (p * 4 + q / 16), .ofNat (q % 16 * 16 + r / 4), .ofNat (r % 4 * 64 + s)]

def decode : List Char → Option (List UInt8)
  | [] => some []
  | w :: x :: y :: z :: rest =>
      if rest = [] ∧ z = '=' then if y = '=' then pad2 w x else pad1 w x y
      else (quad w x y z).bind fun bytes => (decode rest).map (bytes ++ ·)
  | _ => none

theorem value_char {n : Nat} (h : n < 64) : value (char n) = some n := by
  have hall : ∀ n < 64, value (char n) = some n := by decide
  exact hall n h

theorem char_ne_pad {n : Nat} (h : n < 64) : char n ≠ '=' := by
  have hall : ∀ n < 64, char n ≠ '=' := by decide
  exact hall n h

theorem toNat_lt (a : UInt8) : a.toNat < 256 := a.toNat_lt

theorem ofNat_eq {a : UInt8} {n : Nat} (h : n = a.toNat) : UInt8.ofNat n = a := by
  rw [h, UInt8.ofNat_toNat]

theorem decode_encode (bytes : List UInt8) : decode (encode bytes) = some bytes := by
  induction bytes using encode.induct with
  | case1 => rfl
  | case2 a =>
      have ha := toNat_lt a
      have hbyte := @ofNat_eq a (a.toNat / 4 * 4 + a.toNat % 4 * 16 / 16) (by omega)
      rw [encode, decode, if_pos ⟨rfl, rfl⟩, if_pos rfl, pad2, value_char (by omega),
        value_char (by omega), Option.bind_eq_bind, Option.bind_some, Option.bind_some,
        if_pos (by omega), hbyte]
  | case3 a b =>
      have ha := toNat_lt a
      have hb := toNat_lt b
      have hfirst := @ofNat_eq a (a.toNat / 4 * 4 + (a.toNat % 4 * 16 + b.toNat / 16) / 16)
        (by omega)
      have hsecond := @ofNat_eq b
        ((a.toNat % 4 * 16 + b.toNat / 16) % 16 * 16 + b.toNat % 16 * 4 / 4) (by omega)
      rw [encode, decode, if_pos ⟨rfl, rfl⟩, if_neg (char_ne_pad (by omega)), pad1,
        value_char (by omega), value_char (by omega), value_char (by omega)]
      simp only [Option.bind_eq_bind, Option.bind_some]
      rw [if_pos (by omega), hfirst, hsecond]
  | case4 a b c rest ih =>
      have ha := toNat_lt a
      have hb := toNat_lt b
      have hc := toNat_lt c
      have hfirst := @ofNat_eq a (a.toNat / 4 * 4 + (a.toNat % 4 * 16 + b.toNat / 16) / 16)
        (by omega)
      have hsecond := @ofNat_eq b ((a.toNat % 4 * 16 + b.toNat / 16) % 16 * 16
        + (b.toNat % 16 * 4 + c.toNat / 64) / 4) (by omega)
      have hthird := @ofNat_eq c
        ((b.toNat % 16 * 4 + c.toNat / 64) % 4 * 64 + c.toNat % 64) (by omega)
      rw [encode, decode, if_neg fun h => char_ne_pad (by omega) h.2, quad,
        value_char (by omega), value_char (by omega), value_char (by omega),
        value_char (by omega), ih]
      simp only [Option.bind_eq_bind, Option.bind_some, Option.map_some, hfirst, hsecond, hthird]
      rfl

theorem length_encode (bytes : List UInt8) :
    (encode bytes).length = 4 * ((bytes.length + 2) / 3) := by
  induction bytes using encode.induct with
  | case1 => rfl
  | case2 a => simp [encode]
  | case3 a b => simp [encode]
  | case4 a b c rest ih =>
      simp only [encode, List.length_cons, ih]
      omega

theorem encode_padded {bytes : List UInt8} (h : bytes.length % 3 = 1) :
    ∃ front, encode bytes = front ++ ['=', '='] := by
  induction bytes using encode.induct with
  | case1 => cases h
  | case2 a => exact ⟨[char (a.toNat / 4), char (a.toNat % 4 * 16)], by rw [encode]; rfl⟩
  | case3 a b => cases h
  | case4 a b c rest ih =>
      simp only [List.length_cons] at h
      obtain ⟨front, hfront⟩ := ih (by omega)
      exact ⟨_ :: _ :: _ :: _ :: front, by rw [encode, hfront]; rfl⟩

/-- The alphabet and the padding. -/
def isSymbol (c : Char) : Bool := (value c).isSome || c == '='

theorem isSymbol_char {n : Nat} (h : n < 64) : isSymbol (char n) = true := by
  rw [isSymbol, value_char h]
  rfl

theorem encode_symbols (bytes : List UInt8) : ∀ c ∈ encode bytes, isSymbol c = true := by
  have hpad : isSymbol '=' = true := rfl
  induction bytes using encode.induct with
  | case1 => exact fun c hc => nomatch hc
  | case2 a =>
      have ha := toNat_lt a
      simp only [encode, List.forall_mem_cons]
      exact ⟨isSymbol_char (by omega), isSymbol_char (by omega), hpad, hpad, nofun⟩
  | case3 a b =>
      have ha := toNat_lt a
      have hb := toNat_lt b
      simp only [encode, List.forall_mem_cons]
      exact ⟨isSymbol_char (by omega), isSymbol_char (by omega), isSymbol_char (by omega), hpad,
        nofun⟩
  | case4 a b c rest ih =>
      have ha := toNat_lt a
      have hb := toNat_lt b
      have hc := toNat_lt c
      simp only [encode, List.forall_mem_cons]
      exact ⟨isSymbol_char (by omega), isSymbol_char (by omega), isSymbol_char (by omega),
        isSymbol_char (by omega), ih⟩

end Base64
