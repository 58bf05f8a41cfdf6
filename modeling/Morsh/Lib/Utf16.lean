import Mathlib.Data.List.Basic

/-!
# Decoding UTF-16 with replacement

A high surrogate and a low one right behind it are one character; a surrogate
that is not half of such a pair is an error, and becomes the replacement
character. A text may be cut anywhere but inside a pair: the pieces are then
decoded as the whole is.

`decode` takes one or two units at a time, and its equations go by what the first
unit is: high with a low one behind it, high without, low, or neither. A cut that
splits no pair is one of these for every unit in front of it, so the decoding of
an append is an induction on the front.
-/

namespace Utf16

def isHigh (unit : UInt16) : Bool := 0xd800 ≤ unit && unit ≤ 0xdbff

def isLow (unit : UInt16) : Bool := 0xdc00 ≤ unit && unit ≤ 0xdfff

/-- The character a pair of surrogates stands for. -/
def pair (high low : UInt16) : Char :=
  Char.ofNat (0x10000 + (high.toNat - 0xd800) * 0x400 + (low.toNat - 0xdc00))

/-- `char::decode_utf16`: the characters, and the surrogates without a pair. -/
def decode : List UInt16 → List (Except UInt16 Char)
  | [] => []
  | unit :: rest =>
      if isHigh unit then
        match rest with
        | [] => [.error unit]
        | next :: rest =>
            if isLow next then .ok (pair unit next) :: decode rest
            -- the unit that does not fit is read again
            else .error unit :: decode (next :: rest)
      else if isLow unit then .error unit :: decode rest
      else .ok (Char.ofNat unit.toNat) :: decode rest

def replacement : Char := '\ufffd'

/-- `unwrap_or(char::REPLACEMENT_CHARACTER)`. -/
def orReplacement : Except UInt16 Char → Char
  | .ok ch => ch
  | .error _ => replacement

/-- `String::from_utf16_lossy`. -/
def lossy (units : List UInt16) : List Char := (decode units).map orReplacement

/-- `encode_utf16`. -/
def encodeChar (ch : Char) : List UInt16 :=
  if ch.toNat < 0x10000 then [UInt16.ofNat ch.toNat]
  else
    [UInt16.ofNat (0xd800 + (ch.toNat - 0x10000) / 0x400),
      UInt16.ofNat (0xdc00 + (ch.toNat - 0x10000) % 0x400)]

def encode (text : List Char) : List UInt16 := text.flatMap encodeChar

/-! ## Unit by unit -/

variable {unit high low : UInt16} {rest front back : List UInt16}

@[simp] theorem decode_nil : decode [] = [] := rfl

theorem decode_pair (hhigh : isHigh high = true) (hlow : isLow low = true) :
    decode (high :: low :: rest) = .ok (pair high low) :: decode rest := by
  simp [decode, hhigh, hlow]

theorem decode_unpaired (hhigh : isHigh high = true)
    (hnext : ∀ next ∈ rest.head?, isLow next = false) :
    decode (high :: rest) = .error high :: decode rest := by
  cases rest with
  | nil => simp [decode, hhigh]
  | cons next rest =>
      have hlow : isLow next = false := hnext next rfl
      rw [decode, if_pos hhigh]
      simp only [hlow, Bool.false_eq_true, if_false]

theorem decode_low (hhigh : isHigh unit = false) (hlow : isLow unit = true) :
    decode (unit :: rest) = .error unit :: decode rest := by
  rw [decode.eq_def]
  simp [hhigh, hlow]

theorem decode_plain (hhigh : isHigh unit = false) (hlow : isLow unit = false) :
    decode (unit :: rest) = .ok (Char.ofNat unit.toNat) :: decode rest := by
  rw [decode.eq_def]
  simp [hhigh, hlow]

/-! ## Cuts -/

/-- The cut is between the two halves of a pair. -/
def SplitsPair (front back : List UInt16) : Prop :=
  (∃ high ∈ front.getLast?, isHigh high = true) ∧ ∃ low ∈ back.head?, isLow low = true

theorem SplitsPair.cons (h : SplitsPair front back) : SplitsPair (unit :: front) back := by
  obtain ⟨⟨high, hlast, hhigh⟩, hlow⟩ := h
  refine ⟨⟨high, ?_, hhigh⟩, hlow⟩
  rw [Option.mem_def] at hlast ⊢
  rw [List.getLast?_cons, hlast, Option.getD_some]

theorem decode_append (h : ¬SplitsPair front back) :
    decode (front ++ back) = decode front ++ decode back := by
  fun_induction decode front with
  | case1 => rfl
  | case2 high hhigh =>
      -- the cut is behind a high surrogate
      refine decode_unpaired hhigh fun next hnext => ?_
      rw [← Bool.not_eq_true]
      exact fun hlow => h ⟨⟨high, rfl, hhigh⟩, next, hnext, hlow⟩
  | case3 high hhigh low rest hlow ih =>
      have hrest := ih fun hsplit => h hsplit.cons.cons
      rw [List.cons_append, List.cons_append, decode_pair hhigh hlow, hrest, List.cons_append]
  | case4 high hhigh next rest hlow ih =>
      have hrest := ih fun hsplit => h hsplit.cons
      rw [List.cons_append, decode_unpaired hhigh, hrest, List.cons_append]
      intro low hnext
      obtain rfl := Option.some.inj hnext
      exact Bool.not_eq_true _ ▸ hlow
  | case5 unit rest hhigh hlow ih =>
      have hrest := ih fun hsplit => h hsplit.cons
      rw [List.cons_append, decode_low (Bool.not_eq_true _ ▸ hhigh) hlow, hrest, List.cons_append]
  | case6 unit rest hhigh hlow ih =>
      have hrest := ih fun hsplit => h hsplit.cons
      rw [List.cons_append, decode_plain (Bool.not_eq_true _ ▸ hhigh) (Bool.not_eq_true _ ▸ hlow),
        hrest, List.cons_append]

theorem lossy_append (h : ¬SplitsPair front back) :
    lossy (front ++ back) = lossy front ++ lossy back := by
  rw [lossy, decode_append h, List.map_append, lossy, lossy]

/-! ## Reading a text back -/

variable {ch : Char}

theorem isHigh_iff : isHigh unit = true ↔ 0xd800 ≤ unit.toNat ∧ unit.toNat ≤ 0xdbff := by
  simp [isHigh, UInt16.le_iff_toNat_le]

theorem isLow_iff : isLow unit = true ↔ 0xdc00 ≤ unit.toNat ∧ unit.toNat ≤ 0xdfff := by
  simp [isLow, UInt16.le_iff_toNat_le]

theorem not_isHigh_of_isLow (h : isLow unit = true) : isHigh unit = false := by
  rw [← Bool.not_eq_true, isHigh_iff]
  rw [isLow_iff] at h
  omega

/-- A character is one unit that is no surrogate, or a pair. -/
theorem encodeChar_cases (ch : Char) :
    (∃ unit, encodeChar ch = [unit] ∧ isHigh unit = false ∧ isLow unit = false ∧
        Char.ofNat unit.toNat = ch) ∨
      ∃ high low, encodeChar ch = [high, low] ∧ isHigh high = true ∧ isLow low = true ∧
        pair high low = ch := by
  have hvalid : ch.toNat < 0xd800 ∨ 0xdfff < ch.toNat ∧ ch.toNat < 0x110000 := ch.valid
  unfold encodeChar
  split
  · next hplane =>
      have hunit : (UInt16.ofNat ch.toNat).toNat = ch.toNat := UInt16.toNat_ofNat_of_lt' hplane
      refine .inl ⟨_, rfl, ?_, ?_, ?_⟩
      · rw [← Bool.not_eq_true, isHigh_iff, hunit]
        omega
      · rw [← Bool.not_eq_true, isLow_iff, hunit]
        omega
      · rw [hunit, Char.ofNat_toNat]
  · next hplane =>
      have hhigh : (UInt16.ofNat (0xd800 + (ch.toNat - 0x10000) / 0x400)).toNat
          = 0xd800 + (ch.toNat - 0x10000) / 0x400 :=
        UInt16.toNat_ofNat_of_lt' (by rw [UInt16.size]; omega)
      have hlow : (UInt16.ofNat (0xdc00 + (ch.toNat - 0x10000) % 0x400)).toNat
          = 0xdc00 + (ch.toNat - 0x10000) % 0x400 :=
        UInt16.toNat_ofNat_of_lt' (by rw [UInt16.size]; omega)
      refine .inr ⟨_, _, rfl, ?_, ?_, ?_⟩
      · rw [isHigh_iff, hhigh]
        omega
      · rw [isLow_iff, hlow]
        omega
      · have hvalue : 0x10000 + (0xd800 + (ch.toNat - 0x10000) / 0x400 - 0xd800) * 0x400
            + (0xdc00 + (ch.toNat - 0x10000) % 0x400 - 0xdc00) = ch.toNat := by omega
        rw [pair, hhigh, hlow, hvalue, Char.ofNat_toNat]

theorem decode_encodeChar (ch : Char) (rest : List UInt16) :
    decode (encodeChar ch ++ rest) = .ok ch :: decode rest := by
  rcases encodeChar_cases ch with
    ⟨unit, hunit, hhigh, hlow, rfl⟩ | ⟨high, low, hunits, hhigh, hlow, rfl⟩
  · rw [hunit, List.singleton_append, decode_plain hhigh hlow]
  · rw [hunits, List.cons_append, List.singleton_append, decode_pair hhigh hlow]

theorem lossy_encode (text : List Char) : lossy (encode text) = text := by
  induction text with
  | nil => rfl
  | cons ch text ih =>
      rw [encode, List.flatMap_cons, lossy, decode_encodeChar, List.map_cons]
      exact congrArg (ch :: ·) ih

theorem encode_last (text : List Char) : ∀ unit ∈ (encode text).getLast?, isHigh unit = false := by
  intro last hlast
  rcases List.eq_nil_or_concat text with rfl | ⟨text, ch, rfl⟩
  · cases hlast
  · rw [List.concat_eq_append, encode, List.flatMap_append, List.flatMap_singleton,
      Option.mem_def] at hlast
    rcases encodeChar_cases ch with ⟨unit, hunit, hhigh, -⟩ | ⟨high, low, hunits, -, hlow, -⟩
    · rw [hunit, List.getLast?_concat] at hlast
      exact Option.some.inj hlast ▸ hhigh
    · rw [hunits, List.append_cons, List.getLast?_concat] at hlast
      exact Option.some.inj hlast ▸ not_isHigh_of_isLow hlow

end Utf16
