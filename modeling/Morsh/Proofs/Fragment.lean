import Mathlib.Data.List.Chain
import Mathlib.Logic.Equiv.Basic
import Mathlib.Logic.Function.Basic
import Morsh.Statesync.Wire

/-!
# Fragmentation round trips

One id names one instruction cut at one size, because the id advances unless
everything but the diff is repeated. So the assembler only ever sees pieces of
one packet under one id, and what it holds is a part of that packet: it
completes when the last missing piece arrives and at no other time.

The proof has three layers. The first is the wire: a header is read back, and the
pieces of a packet, put together, are the packet. The second is one packet in the
assembler. The slots are a list that grows to the index a fragment is filed at,
and `Holds` says that what is in them are pieces of one packet; filing keeps it,
and a packet is complete when the number of filled slots reaches the total, which
no slot exceeds. The third is a delivery of anything in any order: `Midway` is
the invariant, that the assembler is in the middle of a packet of some id, and a
fragment of another id starts that packet over.

The fragmenter comes last. `Issued` records which instruction an id stands for;
a call either gives a new id or repeats the last one, and repeats it only for an
instruction that differs in nothing but its diff.
-/

namespace Morsh

/-! ## The bytes of a fragment -/

theorem Fragment.header (final : Bool) {num : Nat} (hnum : num < 2 ^ 15) :
    (final.toNat <<< 15 ||| num &&& 0x7FFF) = 2 ^ 15 * final.toNat + num := by
  have hand : num &&& 0x7FFF = num := by
    rw [show 0x7FFF = 2 ^ 15 - 1 from rfl, Nat.and_two_pow_sub_one_eq_mod, Nat.mod_eq_of_lt hnum]
  rw [hand, Nat.shiftLeft_eq, Nat.mul_comm, Nat.two_pow_add_eq_or_of_lt hnum]

theorem Fragment.fromBytes_toBytes {f : Fragment} (hid : f.id < 2 ^ 64)
    (hnum : f.fragmentNum < 2 ^ 15) : fromBytes f.toBytes = .ok f := by
  obtain ⟨id, final, num, payload⟩ := f
  have hfinal : final.toNat ≤ 1 := by cases final <;> decide
  have hword : 2 ^ 15 * final.toNat + num < 256 ^ 2 := by
    simp only at hnum
    omega
  have h8 : (BigEndian.encode 8 id).length = 8 := BigEndian.length_encode _ _
  have h2 : (BigEndian.encode 2 (2 ^ 15 * final.toNat + num)).length = 2 :=
    BigEndian.length_encode _ _
  have hbytes : toBytes ⟨id, final, num, payload⟩ = BigEndian.encode 8 id ++
      (BigEndian.encode 2 (2 ^ 15 * final.toNat + num) ++ payload) := by
    rw [toBytes, header final hnum, List.append_assoc]
  have htail : (BigEndian.encode 8 id ++
      (BigEndian.encode 2 (2 ^ 15 * final.toNat + num) ++ payload)).drop FRAG_HEADER_LEN
        = payload := by
    rw [← List.append_assoc]
    exact List.drop_left' (by rw [List.length_append, h8, h2]; rfl)
  rw [fromBytes, hbytes, if_neg, htail, List.take_left' h8, List.drop_left' h8,
    List.take_left' h2, BigEndian.decode_encode, BigEndian.decode_encode,
    Nat.mod_eq_of_lt hword, show id % 256 ^ 8 = id from Nat.mod_eq_of_lt hid]
  · have hshift : (2 ^ 15 * final.toNat + num) >>> 15 = final.toNat := by
      rw [Nat.shiftRight_eq_div_pow]
      simp only at hnum
      omega
    have hmask : (2 ^ 15 * final.toNat + num) &&& 0x7FFF = num := by
      rw [show 0x7FFF = 2 ^ 15 - 1 from rfl, Nat.and_two_pow_sub_one_eq_mod]
      simp only at hnum
      omega
    simp only [hshift, hmask]
    cases final <;> rfl
  · rw [List.length_append, h8, List.length_append, h2, FRAG_HEADER_LEN]
    omega

/-! ## Cutting -/

theorem flatten_range_chunks {α : Type} (n k : Nat) (l : List α) :
    ((List.range k).map fun i => (l.drop (i * n)).take n).flatten = l.take (k * n) := by
  induction k with
  | zero => simp
  | succ k ih =>
      rw [List.range_succ, List.map_append, List.flatten_append, ih, List.map_singleton,
        List.flatten_singleton, Nat.succ_mul, List.take_add]

theorem flatten_chunks {α : Type} {n : Nat} (hn : 0 < n) (l : List α) :
    (chunks n l).flatten = l := by
  rw [chunks, flatten_range_chunks]
  refine List.take_of_length_le ?_
  have hdiv := Nat.div_add_mod (l.length + n - 1) n
  have hmod := Nat.mod_lt (l.length + n - 1) hn
  rw [Nat.mul_comm] at hdiv
  omega

/-- The pieces of a packet, at least one. -/
def pieces (maxPayload : Nat) (compressed : Bytes) : List Bytes :=
  if (chunks maxPayload compressed).isEmpty then [[]] else chunks maxPayload compressed

theorem pieces_ne {maxPayload : Nat} {compressed : Bytes} : pieces maxPayload compressed ≠ [] := by
  unfold pieces
  split
  · exact List.cons_ne_nil _ _
  · next h => simpa using h

theorem flatten_pieces {maxPayload : Nat} (hpos : 0 < maxPayload) (compressed : Bytes) :
    (pieces maxPayload compressed).flatten = compressed := by
  have hflat := flatten_chunks hpos compressed
  unfold pieces
  split
  · next h =>
      rw [List.isEmpty_iff.mp h] at hflat
      exact hflat
  · exact hflat

/-- Piece `i` of a packet, as a fragment. -/
def fragmentAt (id : Nat) (ps : List Bytes) (i : Nat) : Fragment where
  id := id
  finalFlag := i == ps.length - 1
  fragmentNum := i
  payload := ps.getD i []

theorem length_chunks {α : Type} (n : Nat) (l : List α) :
    (chunks n l).length = (l.length + n - 1) / n := by
  rw [chunks, List.length_map, List.length_range]

/-- A packet is cut into one fragment a piece, numbered with a `u16`. -/
theorem cut_eq_map (id maxPayload : Nat) (compressed : Bytes) :
    Fragmenter.cut id maxPayload compressed
      = (List.range (pieces maxPayload compressed).length).map fun i =>
        { fragmentAt id (pieces maxPayload compressed) i with fragmentNum := i % 2 ^ 16 } := by
  by_cases hnil : chunks maxPayload compressed = []
  · have hpieces : pieces maxPayload compressed = [[]] := by
      rw [pieces, hnil]
      rfl
    rw [hpieces, Fragmenter.cut, hnil]
    rfl
  · have hpieces : pieces maxPayload compressed = chunks maxPayload compressed := by
      rw [pieces, if_neg (by rwa [List.isEmpty_iff])]
    have hpos : 0 < (chunks maxPayload compressed).length := List.length_pos_iff.mpr hnil
    have hcut : Fragmenter.cut id maxPayload compressed
        = (chunks maxPayload compressed).zipIdx.map fun p =>
          ⟨id, p.2 == (chunks maxPayload compressed).length - 1, p.2 % 2 ^ 16, p.1⟩ := by
      unfold Fragmenter.cut
      simp only []
      rw [if_neg (by simpa using hnil), ← length_chunks, Nat.max_eq_left hpos]
    rw [hcut, hpieces]
    refine List.ext_getElem (by simp) fun i h₁ h₂ => ?_
    rw [List.length_map, List.length_zipIdx] at h₁
    simp only [List.getElem_map, List.getElem_zipIdx, List.getElem_range, fragmentAt,
      Nat.zero_add, List.getD_eq_getElem?_getD, List.getElem?_eq_getElem h₁, Option.getD_some]

theorem cut_eq {id maxPayload : Nat} {compressed : Bytes}
    (hsize : (Fragmenter.cut id maxPayload compressed).length ≤ 32768) :
    Fragmenter.cut id maxPayload compressed
      = (List.range (pieces maxPayload compressed).length).map
        (fragmentAt id (pieces maxPayload compressed)) := by
  rw [cut_eq_map, List.length_map, List.length_range] at hsize
  rw [cut_eq_map]
  refine List.map_congr_left fun i hi => ?_
  have hlt := List.mem_range.mp hi
  have hnum : i % 2 ^ 16 = i := Nat.mod_eq_of_lt (by omega)
  rw [hnum]
  rfl

/-! ## Slots -/

/-- File `x` in slot `i`, growing the slots to reach it. -/
def put {α : Type} (l : List (Option α)) (i : Nat) (x : α) : List (Option α) :=
  (l ++ List.replicate (i + 1 - l.length) none).set i (some x)

section Slots

variable {α : Type} {l : List (Option α)} {i j : Nat} {x : α}

theorem length_put : (put l i x).length = max l.length (i + 1) := by
  rw [put, List.length_set, List.length_append, List.length_replicate]
  omega

theorem getElem?_grow (n : Nat) :
    (l ++ List.replicate n none)[j]?.join = l[j]?.join := by
  by_cases hj : j < l.length
  · rw [List.getElem?_append_left hj]
  · rw [List.getElem?_append_right (Nat.not_lt.mp hj), List.getElem?_replicate,
      List.getElem?_eq_none (Nat.not_lt.mp hj)]
    split <;> rfl

theorem getElem?_put : (put l i x)[j]?.join = if j = i then some x else l[j]?.join := by
  rw [put]
  by_cases hj : j = i
  · subst hj
    rw [if_pos rfl, List.getElem?_set_self (by simp; omega)]
    rfl
  · rw [if_neg hj, List.getElem?_set_ne (Ne.symm hj), getElem?_grow]

theorem countP_put (h : l[i]?.join = none) :
    (put l i x).countP (·.isSome) = l.countP (·.isSome) + 1 := by
  have hlt : i < (l ++ List.replicate (i + 1 - l.length) none).length := by
    rw [List.length_append, List.length_replicate]
    omega
  have hold : (l ++ List.replicate (i + 1 - l.length) (none : Option α))[i] = none := by
    have hget := getElem?_grow (l := l) (j := i) (i + 1 - l.length)
    rwa [List.getElem?_eq_getElem hlt, h] at hget
  rw [put, List.countP_set hlt, hold, List.countP_append, List.countP_replicate]
  simp

theorem filled_of_countP {n : Nat} (hle : l.length ≤ n) (hcount : l.countP (·.isSome) = n) :
    l.length = n ∧ ∀ i < n, ∃ x, l[i]?.join = some x := by
  have hlen := List.countP_le_length (p := fun o : Option α => o.isSome) (l := l)
  have heq : l.length = n := by omega
  refine ⟨heq, fun i hi => ?_⟩
  have hall := List.countP_eq_length.mp (hcount.trans heq.symm)
  have hsome := hall l[i] (List.getElem_mem (by omega))
  rw [List.getElem?_eq_getElem (by omega)]
  exact Option.isSome_iff_exists.mp hsome

theorem exists_missing {n : Nat} (hle : l.length ≤ n) (hcount : l.countP (·.isSome) ≠ n) :
    ∃ i < n, l[i]?.join = none := by
  by_contra hfull
  have hall : ∀ i < n, l[i]?.join ≠ none := fun i hi hnone => hfull ⟨i, hi, hnone⟩
  have hlen : l.length = n := by
    by_contra hne
    exact hall l.length (by omega) (by rw [List.getElem?_eq_none (Nat.le_refl _)]; rfl)
  refine hcount (hlen ▸ List.countP_eq_length.mpr fun o ho => ?_)
  obtain ⟨i, hi, rfl⟩ := List.getElem_of_mem ho
  have hsome := hall i (by omega)
  rw [List.getElem?_eq_getElem hi] at hsome
  exact Option.isSome_iff_ne_none.mpr hsome

end Slots

/-! ## The assembler -/

namespace FragmentAssembly

/-- What slot `i` holds. -/
def slot (a : FragmentAssembly) (i : Nat) : Option Fragment := a.fragments[i]?.join

/-- The assembler holds pieces of one packet. -/
structure Holds (a : FragmentAssembly) (id : Nat) (ps : List Bytes) : Prop where
  current : a.currentId = some id
  within : a.fragments.length ≤ ps.length
  slots : ∀ i f, a.slot i = some f → f = fragmentAt id ps i
  arrived : a.fragmentsArrived = a.fragments.countP (·.isSome)
  /-- The total is known once the last piece is here. -/
  total : a.fragmentsTotal
    = if (a.slot (ps.length - 1)).isSome then some ps.length else none

/-- It does not hold all of them. -/
structure Partial (a : FragmentAssembly) (id : Nat) (ps : List Bytes) : Prop
    extends Holds a id ps where
  missing : ∃ i, i < ps.length ∧ a.slot i = none

variable {a : FragmentAssembly} {id i j : Nat} {ps : List Bytes} {frag : Fragment}

variable (a frag) in
/-- What `file` does to the slots: a fragment of a new packet is put into empty
ones, one not held is put among those held, and a duplicate changes nothing but
the total, where it carries the final flag. -/
theorem file_spec :
    (a.currentId ≠ some frag.id ∧ a.file frag =
      ⟨put [] frag.fragmentNum frag, some frag.id, 1,
        if frag.finalFlag then some (frag.fragmentNum + 1) else none⟩) ∨
    (a.currentId = some frag.id ∧ a.slot frag.fragmentNum = none ∧ a.file frag =
      ⟨put a.fragments frag.fragmentNum frag, some frag.id, a.fragmentsArrived + 1,
        if frag.finalFlag then some (frag.fragmentNum + 1) else a.fragmentsTotal⟩) ∨
    (a.currentId = some frag.id ∧ (a.slot frag.fragmentNum).isSome = true ∧ a.file frag =
      { a with fragmentsTotal :=
          if frag.finalFlag then some (frag.fragmentNum + 1) else a.fragmentsTotal }) := by
  unfold file
  simp only []
  by_cases hcur : a.currentId = some frag.id
  · rw [if_neg (by simpa using hcur)]
    refine Or.inr ?_
    have hslot : (a.fragments[frag.fragmentNum]?.map (·.isSome)).getD false
        = (a.slot frag.fragmentNum).isSome := by
      rw [slot]
      cases a.fragments[frag.fragmentNum]? with
      | none => rfl
      | some o => rfl
    rw [hslot]
    cases hheld : a.slot frag.fragmentNum with
    | none => exact Or.inl ⟨hcur, rfl, by rw [hcur]; rfl⟩
    | some f => exact Or.inr ⟨hcur, rfl, rfl⟩
  · rw [if_pos (by simpa using hcur)]
    exact Or.inl ⟨hcur, rfl⟩

variable (a id) in
/-- A piece of a packet, as the assembler files it: it begins the packet, or fills
a slot of the packet in progress, or is there already. In each case it says how
many there are if it carries the final flag. -/
theorem file_cases (hi : i < ps.length) :
    (a.currentId ≠ some id ∧ a.file (fragmentAt id ps i) =
      ⟨put [] i (fragmentAt id ps i), some id, 1,
        if i = ps.length - 1 then some ps.length else none⟩) ∨
    (a.currentId = some id ∧ a.slot i = none ∧ a.file (fragmentAt id ps i) =
      ⟨put a.fragments i (fragmentAt id ps i), some id, a.fragmentsArrived + 1,
        if i = ps.length - 1 then some ps.length else a.fragmentsTotal⟩) ∨
    (a.currentId = some id ∧ (a.slot i).isSome = true ∧ a.file (fragmentAt id ps i) =
      { a with fragmentsTotal := if i = ps.length - 1 then some ps.length
          else a.fragmentsTotal }) := by
  have htotal : ∀ o : Option Nat,
      (if (fragmentAt id ps i).finalFlag = true then some (i + 1) else o)
      = if i = ps.length - 1 then some ps.length else o := by
    intro o
    by_cases hlast : i = ps.length - 1
    · rw [if_pos (by simpa [fragmentAt] using hlast), if_pos hlast]
      congr 1
      omega
    · rw [if_neg (by simpa [fragmentAt] using hlast), if_neg hlast]
  have hspec := file_spec a (fragmentAt id ps i)
  have hnum : (fragmentAt id ps i).fragmentNum = i := rfl
  have hid : (fragmentAt id ps i).id = id := rfl
  simpa only [hnum, hid, htotal] using hspec

/-- After filing, the slots are those held before for the same packet, and the
one filed. -/
theorem file_slot (hi : i < ps.length) (hheld : ∀ f, a.currentId = some id →
      a.slot i = some f → f = fragmentAt id ps i) :
    (a.file (fragmentAt id ps i)).slot j =
      if j = i then some (fragmentAt id ps i)
      else if a.currentId = some id then a.slot j else none := by
  rcases file_cases a id hi with ⟨hcur, hfile⟩ | ⟨hcur, -, hfile⟩ |
    ⟨hcur, hsome, hfile⟩
  · rw [hfile, slot, getElem?_put, if_neg hcur]
    rfl
  · rw [hfile, slot, getElem?_put, if_pos hcur]
    rfl
  · rw [hfile, if_pos hcur]
    obtain ⟨f, hf⟩ := Option.isSome_iff_exists.mp hsome
    by_cases hj : j = i
    · rw [if_pos hj, hj, ← hheld f hcur hf]
      exact hf
    · rw [if_neg hj]
      rfl

/-- Filing a piece of a packet leaves pieces of that packet. A piece of another
packet than the one in progress clears the slots first, so nothing is mixed. -/
theorem Holds.file (hi : i < ps.length) (hinv : a.currentId = some id → Holds a id ps) :
    Holds (a.file (fragmentAt id ps i)) id ps := by
  have hslot := fun j => file_slot (j := j) hi fun f hcur hf => (hinv hcur).slots i f hf
  have hslots : ∀ j f, (a.file (fragmentAt id ps i)).slot j = some f → f = fragmentAt id ps j := by
    intro j f hf
    rw [hslot] at hf
    split at hf
    · next hj => rw [hj]; exact (Option.some.inj hf).symm
    · split at hf
      · next hcur => exact (hinv hcur).slots j f hf
      · cases hf
  have hlast : ∀ o : Option Nat,
      (a.currentId = some id → o = a.fragmentsTotal) → (a.currentId ≠ some id → o = none) →
      (if i = ps.length - 1 then some ps.length else o) =
        if ((a.file (fragmentAt id ps i)).slot (ps.length - 1)).isSome
        then some ps.length else none := by
    intro o hsame hnew
    rw [hslot]
    by_cases hi' : i = ps.length - 1
    · rw [if_pos hi', if_pos hi'.symm]
      rfl
    · rw [if_neg hi', if_neg (Ne.symm hi')]
      by_cases hcur : a.currentId = some id
      · rw [hsame hcur, if_pos hcur, (hinv hcur).total]
      · rw [hnew hcur, if_neg hcur]
        rfl
  rcases file_cases a id hi with ⟨hcur, hfile⟩ | ⟨hcur, hnone, hfile⟩ |
    ⟨hcur, hsome, hfile⟩
  · refine ⟨by rw [hfile], ?_, hslots, ?_, ?_⟩
    · rw [hfile, length_put]
      exact Nat.max_le.mpr ⟨Nat.zero_le _, hi⟩
    · rw [hfile]
      exact (countP_put (l := []) (i := i) (by rfl)).symm
    · rw [← hlast none (fun h => absurd h hcur) fun _ => rfl, hfile]
  · have hold := hinv hcur
    refine ⟨by rw [hfile], ?_, hslots, ?_, ?_⟩
    · rw [hfile, length_put]
      exact Nat.max_le.mpr ⟨hold.within, hi⟩
    · rw [hfile]
      simp only []
      rw [countP_put hnone, hold.arrived]
    · rw [← hlast a.fragmentsTotal (fun _ => rfl) (fun h => absurd hcur h), hfile]
  · have hold := hinv hcur
    refine ⟨by rw [hfile]; exact hcur, by rw [hfile]; exact hold.within, hslots,
      by rw [hfile]; exact hold.arrived, ?_⟩
    rw [← hlast a.fragmentsTotal (fun _ => rfl) (fun h => absurd hcur h), hfile]

theorem gather_map (parts : List Fragment) :
    gather (parts.map some) = .ok (parts.map (·.payload)).flatten := by
  induction parts with
  | nil => rfl
  | cons f parts ih =>
      rw [List.map_cons, gather, ih]
      rfl

/-- With every slot filled the payloads are the packet: each slot holds the piece
of its number, so in their order they are the pieces the packet was cut into. -/
theorem Holds.gather (h : Holds a id ps) (hlen : a.fragments.length = ps.length)
    (hfull : ∀ i < ps.length, ∃ f, a.slot i = some f) :
    gather (a.fragments.take ps.length) = .ok ps.flatten := by
  have hfrags : a.fragments = (List.range ps.length).map fun i => some (fragmentAt id ps i) := by
    refine List.ext_getElem (by simp [hlen]) fun i h₁ h₂ => ?_
    obtain ⟨f, hf⟩ := hfull i (hlen ▸ h₁)
    have heq := h.slots i f hf
    rw [slot, List.getElem?_eq_getElem h₁] at hf
    rw [List.getElem_map, List.getElem_range, ← heq]
    exact hf
  have hps : (List.range ps.length).map (ps.getD · []) = ps := by
    refine List.ext_getElem (by simp) fun i h₁ h₂ => ?_
    simp [List.getElem?_eq_getElem h₂]
  have hparts : ((List.range ps.length).map fun i => some (fragmentAt id ps i))
      = ((List.range ps.length).map (fragmentAt id ps)).map some := by
    rw [List.map_map]
    rfl
  rw [hfrags, List.take_of_length_le (by simp), hparts, gather_map, List.map_map]
  change Except.ok ((List.range ps.length).map (ps.getD · [])).flatten = _
  rw [hps]

variable [Zlib] [ProstMessage Instruction]

/-- What was packed under an id: an instruction and its pieces. -/
structure Packed (inst : Instruction) (ps : List Bytes) : Prop where
  compressed : compress (ProstMessage.encode inst) = .ok ps.flatten
  ne : ps ≠ []

/-- One piece: it completes the packet, and the slots are empty again, or it is
held together with those held before. -/
theorem addFragment_cases {inst : Instruction} (hp : Packed inst ps) (hi : i < ps.length)
    (hinv : a.currentId = some id → Partial a id ps) :
    Partial (a.addFragment (fragmentAt id ps i)).1 id ps ∧
      ((a.addFragment (fragmentAt id ps i)).2 = .ok (some inst) ∨
        (a.addFragment (fragmentAt id ps i)).2 = .ok none ∧
          ((a.addFragment (fragmentAt id ps i)).1.slot i).isSome ∧
          ∀ j, a.currentId = some id → (a.slot j).isSome →
            ((a.addFragment (fragmentAt id ps i)).1.slot j).isSome) := by
  have hfile : Holds (a.file (fragmentAt id ps i)) id ps :=
    .file hi fun hcur => (hinv hcur).toHolds
  have hslot := fun j => file_slot (j := j) hi fun f hcur hf => (hinv hcur).slots i f hf
  have hkept : ((a.file (fragmentAt id ps i)).slot i).isSome ∧
      ∀ j, a.currentId = some id → (a.slot j).isSome →
        ((a.file (fragmentAt id ps i)).slot j).isSome := by
    refine ⟨by rw [hslot, if_pos rfl]; rfl, fun j hcur hj => ?_⟩
    rw [hslot, if_pos hcur]
    split
    · rfl
    · exact hj
  have hpos : 0 < ps.length := List.length_pos_iff.mpr hp.ne
  unfold addFragment
  generalize a.file (fragmentAt id ps i) = b at hfile hkept
  simp only []
  split
  · next hnone =>
      -- the last piece is still to come
      rw [hfile.total] at hnone
      refine ⟨⟨hfile, ps.length - 1, by omega, ?_⟩, Or.inr ⟨rfl, hkept⟩⟩
      split at hnone
      · cases hnone
      · next hlast => simpa using hlast
  · next total hsome =>
      have htotal : total = ps.length := by
        rw [hfile.total] at hsome
        split at hsome
        · exact (Option.some.inj hsome).symm
        · cases hsome
      subst htotal
      rw [if_neg (Nat.not_lt.mpr hfile.within)]
      split
      · next hcount =>
          rw [hfile.arrived] at hcount
          obtain ⟨hlen, hfull⟩ := filled_of_countP hfile.within hcount
          have hdecomp := decompress_compress hp.compressed
          simp only [assemble, hfile.gather hlen hfull, hdecomp, ProstMessage.decode_encode]
          exact ⟨⟨⟨hfile.current, Nat.zero_le _, fun j f hf => (by cases hf), rfl, rfl⟩,
            0, hpos, rfl⟩,
            Or.inl rfl⟩
      · next hcount =>
          rw [hfile.arrived] at hcount
          exact ⟨⟨hfile, exists_missing hfile.within hcount⟩, Or.inr ⟨rfl, hkept⟩⟩

/-! ## Deliveries -/

/-- Which packet each id stands for. -/
abbrev Packets := Nat → Option (Instruction × List Bytes)

/-- Every packet fits the header fields and decodes to its instruction. -/
def Packets.Sound (packets : Packets) : Prop :=
  ∀ id inst ps, packets id = some (inst, ps) →
    Packed inst ps ∧ ps.length ≤ 32768 ∧ id < 2 ^ 64

/-- A datagram that carries a piece of a packet. -/
def Packets.Carries (packets : Packets) (data : Bytes) : Prop :=
  ∃ id inst ps i, packets id = some (inst, ps) ∧ i < ps.length ∧
    data = (fragmentAt id ps i).toBytes

/-- The assembler is in the middle of a packet, or has seen none. -/
def Midway (packets : Packets) (a : FragmentAssembly) : Prop :=
  ∀ id, a.currentId = some id → ∃ inst ps, packets id = some (inst, ps) ∧ Partial a id ps

variable {packets : Packets} {inst : Instruction}

theorem receive_piece (hsound : packets.Sound) (hpacket : packets id = some (inst, ps))
    (hi : i < ps.length) :
    a.receive (fragmentAt id ps i).toBytes = a.addFragment (fragmentAt id ps i) := by
  obtain ⟨-, hsize, hid⟩ := hsound id inst ps hpacket
  rw [receive, Fragment.fromBytes_toBytes hid (Nat.lt_of_lt_of_le hi hsize)]

theorem Midway.piece (h : Midway packets a) (hsound : packets.Sound)
    (hpacket : packets id = some (inst, ps)) (hi : i < ps.length) :
    Midway packets (a.receive (fragmentAt id ps i).toBytes).1 ∧
      (a.receive (fragmentAt id ps i).toBytes).1.currentId = some id ∧
      ((a.receive (fragmentAt id ps i).toBytes).2 = .ok (some inst) ∨
        (a.receive (fragmentAt id ps i).toBytes).2 = .ok none ∧
          ((a.receive (fragmentAt id ps i).toBytes).1.slot i).isSome ∧
          ∀ j, a.currentId = some id → (a.slot j).isSome →
            ((a.receive (fragmentAt id ps i).toBytes).1.slot j).isSome) := by
  rw [receive_piece hsound hpacket hi]
  obtain ⟨hpart, hcase⟩ := addFragment_cases (a := a) (hsound id inst ps hpacket).1 hi
    fun hcur => by
      obtain ⟨inst', ps', hpacket', hp⟩ := h id hcur
      rw [hpacket] at hpacket'
      cases hpacket'
      exact hp
  refine ⟨fun id' hid' => ?_, hpart.current, hcase⟩
  rw [hpart.current] at hid'
  cases hid'
  exact ⟨inst, ps, hpacket, hpart⟩

/-- Whatever arrives in whatever order: no call fails, and what one hands out
was packed under some id. -/
theorem Midway.receiveAll (h : Midway packets a) (hsound : packets.Sound) {delivered : List Bytes}
    (hcarry : ∀ data ∈ delivered, packets.Carries data) :
    Midway packets (a.receiveAll delivered).1 ∧
      ∀ r ∈ (a.receiveAll delivered).2, r = .ok none ∨
        ∃ id inst ps, packets id = some (inst, ps) ∧ r = .ok (some inst) := by
  induction delivered generalizing a with
  | nil => exact ⟨h, fun r hr => (by cases hr)⟩
  | cons data delivered ih =>
      obtain ⟨id, inst, ps, i, hpacket, hi, rfl⟩ := hcarry data List.mem_cons_self
      obtain ⟨hmid, -, hcase⟩ := h.piece hsound hpacket hi
      obtain ⟨hmid', hall⟩ := ih hmid fun d hd => hcarry d (List.mem_cons_of_mem _ hd)
      refine ⟨hmid', fun r hr => ?_⟩
      rcases List.mem_cons.mp hr with rfl | hr
      · rcases hcase with hsome | ⟨hnone, -⟩
        · exact Or.inr ⟨id, inst, ps, hpacket, hsome⟩
        · exact Or.inl hnone
      · exact hall r hr

/-- Pieces of one packet and nothing else: it comes out, or every piece
delivered is held. -/
theorem Midway.pieces (h : Midway packets a) (hsound : packets.Sound)
    (hpacket : packets id = some (inst, ps)) {is : List Nat} (his : ∀ i ∈ is, i < ps.length) :
    .ok (some inst) ∈ (a.receiveAll (is.map fun i => (fragmentAt id ps i).toBytes)).2 ∨
      (∀ i ∈ is,
        ((a.receiveAll (is.map fun i => (fragmentAt id ps i).toBytes)).1.slot i).isSome) ∧
      ∀ j, a.currentId = some id → (a.slot j).isSome →
        ((a.receiveAll (is.map fun i => (fragmentAt id ps i).toBytes)).1.slot j).isSome := by
  induction is generalizing a with
  | nil => exact Or.inr ⟨fun i hi => (by cases hi), fun j _ hj => hj⟩
  | cons i is ih =>
      obtain ⟨hmid, hcur, hcase⟩ := h.piece hsound hpacket (his i List.mem_cons_self)
      rcases hcase with hsome | ⟨-, hslot, hkept⟩
      · exact Or.inl (List.mem_cons.mpr (Or.inl hsome.symm))
      · rcases ih hmid fun j hj => his j (List.mem_cons_of_mem _ hj) with hdone | ⟨hall, hkept'⟩
        · exact Or.inl (List.mem_cons_of_mem _ hdone)
        · refine Or.inr ⟨fun j hj => ?_, fun j hcur' hj => hkept' j hcur (hkept j hcur' hj)⟩
          rcases List.mem_cons.mp hj with rfl | hj
          · exact hkept' j hcur hslot
          · exact hall j hj

theorem receiveAll_cons {data : Bytes} {rest : List Bytes} :
    (a.receiveAll (data :: rest)).1 = ((a.receive data).1.receiveAll rest).1 := rfl

theorem currentId_receiveAll (h : Midway packets a) (hsound : packets.Sound)
    (hpacket : packets id = some (inst, ps)) {is : List Nat} (his : ∀ i ∈ is, i < ps.length)
    (hne : is ≠ []) :
    (a.receiveAll (is.map fun i => (fragmentAt id ps i).toBytes)).1.currentId = some id := by
  induction is generalizing a with
  | nil => exact absurd rfl hne
  | cons i is ih =>
      obtain ⟨hmid, hcur, -⟩ := h.piece hsound hpacket (his i List.mem_cons_self)
      rw [List.map_cons, receiveAll_cons]
      by_cases his' : is = []
      · rw [his']
        exact hcur
      · exact ih hmid (fun k hk => his k (List.mem_cons_of_mem _ hk)) his'

/-- All pieces of a packet, in any order and number: it comes out. If it had not,
the assembler would hold every piece of it, while of a packet it is in the middle
of one is missing. -/
theorem Midway.complete (h : Midway packets a) (hsound : packets.Sound)
    (hpacket : packets id = some (inst, ps)) {more : List Bytes}
    (hof : ∀ data ∈ more, ∃ i < ps.length, data = (fragmentAt id ps i).toBytes)
    (hall : ∀ i < ps.length, (fragmentAt id ps i).toBytes ∈ more) :
    .ok (some inst) ∈ (a.receiveAll more).2 := by
  obtain ⟨hpacked, hsize, hid⟩ := hsound id inst ps hpacket
  have hpos : 0 < ps.length := List.length_pos_iff.mpr hpacked.ne
  -- the delivery as a list of indices
  have hindex : ∃ is : List Nat, (∀ i ∈ is, i < ps.length) ∧
      more = is.map fun i => (fragmentAt id ps i).toBytes := by
    clear hall
    induction more with
    | nil => exact ⟨[], fun i hi => (by cases hi), rfl⟩
    | cons data more ih =>
        obtain ⟨is, his, rfl⟩ := ih fun d hd => hof d (List.mem_cons_of_mem _ hd)
        obtain ⟨i, hi, rfl⟩ := hof data List.mem_cons_self
        refine ⟨i :: is, fun j hj => ?_, rfl⟩
        rcases List.mem_cons.mp hj with rfl | hj
        · exact hi
        · exact his j hj
  obtain ⟨is, his, rfl⟩ := hindex
  have hcover : ∀ i < ps.length, i ∈ is := by
    intro i hi
    obtain ⟨j, hj, heq⟩ := List.mem_map.mp (hall i hi)
    have hparse := Fragment.fromBytes_toBytes (f := fragmentAt id ps i) hid
      (Nat.lt_of_lt_of_le hi hsize)
    rw [← heq, Fragment.fromBytes_toBytes (f := fragmentAt id ps j) hid
      (Nat.lt_of_lt_of_le (his j hj) hsize)] at hparse
    have hnum := congrArg Fragment.fragmentNum (Except.ok.inj hparse)
    exact (show j = i from hnum) ▸ hj
  rcases h.pieces hsound hpacket his with hdone | ⟨hheld, -⟩
  · exact hdone
  · have hne : is ≠ [] := List.ne_nil_of_mem (hcover 0 hpos)
    have hcarry : ∀ data ∈ is.map fun i => (fragmentAt id ps i).toBytes,
        packets.Carries data := by
      intro data hdata
      obtain ⟨i, hi, rfl⟩ := List.mem_map.mp hdata
      exact ⟨id, inst, ps, i, hpacket, his i hi, rfl⟩
    have hmid : Midway packets _ := (h.receiveAll hsound hcarry).1
    obtain ⟨inst', ps', hpacket', hpart⟩ :=
      hmid id (currentId_receiveAll h hsound hpacket his hne)
    rw [hpacket] at hpacket'
    cases hpacket'
    obtain ⟨i, hi, hnone⟩ := hpart.missing
    have hsome := hheld i (hcover i hi)
    rw [hnone] at hsome
    cases hsome

end FragmentAssembly

/-! ## The fragmenter's ids -/

/-- Equal in all fields but the diff. -/
def Instruction.SameButDiff (a b : Instruction) : Prop := { a with diff := b.diff } = b

namespace Fragmenter

variable {f : Fragmenter} {inst : Instruction} {maxPayload : Nat}

theorem isNewInstruction_false (h : f.isNewInstruction inst maxPayload = false) :
    ∃ last, f.lastInstruction = some last ∧ f.lastMaxPayload = some maxPayload ∧
      last.SameButDiff inst := by
  unfold isNewInstruction at h
  split at h
  · cases h
  · next last hlast =>
      obtain ⟨v, o, n, k, t, d, c⟩ := inst
      obtain ⟨v', o', n', k', t', d', c'⟩ := last
      simp only [ne_eq, decide_not, Bool.or_eq_false_iff, Bool.not_eq_false', decide_eq_true_eq]
        at h
      obtain ⟨⟨⟨⟨⟨⟨hm, rfl⟩, rfl⟩, rfl⟩, rfl⟩, rfl⟩, rfl⟩ := h
      exact ⟨_, hlast, hm, rfl⟩

variable [Zlib] [ProstMessage Instruction]

/-- What the ids issued so far stand for, and that the last one is the last
instruction. -/
structure Issued (f : Fragmenter) (issued : Nat → Option (Instruction × Nat)) : Prop where
  bound : f.nextInstructionId < 2 ^ 64
  last : ∀ last, f.lastInstruction = some last → ∃ m, f.lastMaxPayload = some m ∧
    issued f.nextInstructionId = some (last, m)

/-- The id a call gives its fragments. -/
def idFor (f : Fragmenter) (inst : Instruction) (maxPayload : Nat) : Nat :=
  if f.isNewInstruction inst maxPayload then f.nextInstructionId + 1 else f.nextInstructionId

theorem makeFragments_some {f' : Fragmenter} {result : Except String (List Fragment)}
    (hmax : 1 ≤ maxPayload) (hmake : f.makeFragments inst maxPayload = some (f', result)) :
    f.idFor inst maxPayload < 2 ^ 64 ∧
      f' = ⟨f.idFor inst maxPayload, some inst, some maxPayload⟩ ∧
      result = (compress (ProstMessage.encode inst)).map
        (cut (f.idFor inst maxPayload) maxPayload) := by
  rw [makeFragments, if_neg (Nat.ne_of_gt hmax)] at hmake
  by_cases hid : f.idFor inst maxPayload ≥ 2 ^ 64
  · have hnone := hmake.symm.trans (if_pos hid)
    cases hnone
  · have hsome := hmake.symm.trans (if_neg hid)
    rw [Option.some.injEq, Prod.mk.injEq] at hsome
    obtain ⟨rfl, rfl⟩ := hsome
    refine ⟨Nat.not_le.mp hid, rfl, ?_⟩
    cases compress (ProstMessage.encode inst) <;> rfl

omit [Zlib] [ProstMessage Instruction] in
/-- One call: the id is the last one with the instruction it stands for, or the
next one. -/
theorem Issued.makeFragments {issued : Nat → Option (Instruction × Nat)}
    (h : Issued f issued) (hid : f.idFor inst maxPayload < 2 ^ 64)
    (hsame : ∀ last, f.lastInstruction = some last → last.SameButDiff inst → last = inst) :
    ∃ issued' : Nat → Option (Instruction × Nat),
      Issued ⟨f.idFor inst maxPayload, some inst, some maxPayload⟩ issued' ∧
      (∀ id ≤ f.nextInstructionId, issued' id = issued id) ∧
      issued' (f.idFor inst maxPayload) = some (inst, maxPayload) ∧
      ∀ id p, issued' id = some p → issued id = some p ∨ p = (inst, maxPayload) := by
  suffices hex : ∃ issued' : Nat → Option (Instruction × Nat),
      (∀ id ≤ f.nextInstructionId, issued' id = issued id) ∧
      issued' (f.idFor inst maxPayload) = some (inst, maxPayload) ∧
      ∀ id p, issued' id = some p → issued id = some p ∨ p = (inst, maxPayload) by
    obtain ⟨issued', hkeep, hnow, honly⟩ := hex
    refine ⟨issued', ⟨hid, fun last hlast => ?_⟩, hkeep, hnow, honly⟩
    cases hlast
    exact ⟨maxPayload, rfl, hnow⟩
  unfold idFor
  cases hnew : f.isNewInstruction inst maxPayload with
  | true =>
      rw [if_pos rfl]
      refine ⟨Function.update issued (f.nextInstructionId + 1) (some (inst, maxPayload)),
        fun id hle => ?_, Function.update_self .., fun id p hp => ?_⟩
      · exact Function.update_of_ne (by omega) ..
      · by_cases hid' : id = f.nextInstructionId + 1
        · rw [hid', Function.update_self] at hp
          exact Or.inr (Option.some.inj hp).symm
        · rw [Function.update_of_ne hid'] at hp
          exact Or.inl hp
  | false =>
      rw [if_neg (by decide)]
      obtain ⟨last, hlast, hm, hequal⟩ := isNewInstruction_false hnew
      obtain ⟨m, hm', hissued⟩ := h.last last hlast
      rw [hm] at hm'
      cases hm'
      exact ⟨issued, fun _ _ => rfl, hsame last hlast hequal ▸ hissued, fun _ _ hp => Or.inl hp⟩

/-- A whole run of calls. An id stands for the instruction it was given to; it is
given to another only if that one repeats everything but the diff, and then it is
the same one. -/
theorem Issued.makeAll {issued : Nat → Option (Instruction × Nat)}
    {insts : List (Instruction × Nat)} {results : List (Except String (List Fragment))}
    (h : Issued f issued) (hmax : ∀ p ∈ insts, 1 ≤ p.2)
    (hchain : insts.IsChain fun p q => p.1.SameButDiff q.1 → p.1 = q.1)
    (hhead : ∀ last, f.lastInstruction = some last → ∀ p ∈ insts.head?,
      last.SameButDiff p.1 → last = p.1)
    (hrun : f.makeAll insts = some results) :
    ∃ issued' : Nat → Option (Instruction × Nat),
      (∀ id ≤ f.nextInstructionId, issued' id = issued id) ∧
      (∀ p r, (p, r) ∈ insts.zip results → ∃ id, id < 2 ^ 64 ∧ issued' id = some p ∧
        r = (compress (ProstMessage.encode p.1)).map (cut id p.2)) ∧
      ∀ id p, issued' id = some p → issued id = some p ∨ ∃ r, (p, r) ∈ insts.zip results := by
  induction insts generalizing f issued results with
  | nil => exact ⟨issued, fun _ _ => rfl, fun p r hp => (by cases hp), fun _ _ hp => Or.inl hp⟩
  | cons q rest ih =>
      obtain ⟨inst, maxPayload⟩ := q
      rw [Fragmenter.makeAll, Option.bind_eq_some_iff] at hrun
      obtain ⟨⟨f', result⟩, hmake, hmap⟩ := hrun
      obtain ⟨results', hrest, rfl⟩ := Option.map_eq_some_iff.mp hmap
      obtain ⟨hid, rfl, hresult⟩ := makeFragments_some (hmax _ List.mem_cons_self) hmake
      obtain ⟨issued', hissued', hkeep, hnow, honly⟩ := h.makeFragments hid fun last hl hs =>
        hhead last hl _ rfl hs
      have hle : f.nextInstructionId ≤ f.idFor inst maxPayload := by
        unfold idFor
        split
        · exact Nat.le_succ _
        · exact Nat.le_refl _
      obtain ⟨issued'', hkeep', hall, honly'⟩ := ih hissued'
        (fun p hp => hmax p (List.mem_cons_of_mem _ hp)) hchain.tail
        (fun last hl p hp hs => by
          cases hl
          exact hchain.rel_head? hp hs) hrest
      refine ⟨issued'', fun id hid => (hkeep' id (Nat.le_trans hid hle)).trans (hkeep id hid),
        fun p r hp => ?_, fun id p hp => ?_⟩
      · rw [List.zip_cons_cons, List.mem_cons] at hp
        rcases hp with heq | hp
        · cases heq
          exact ⟨f.idFor inst maxPayload, hissued'.bound,
            (hkeep' _ (Nat.le_refl _)).trans hnow, hresult⟩
        · exact hall p r hp
      · rw [List.zip_cons_cons]
        rcases honly' id p hp with hold | ⟨r, hr⟩
        · rcases honly id p hold with hold | rfl
          · exact Or.inl hold
          · exact Or.inr ⟨result, List.mem_cons_self⟩
        · exact Or.inr ⟨r, List.mem_cons_of_mem _ hr⟩

/-- The packets behind the ids, those that were compressed and fit. -/
def packets (issued : Nat → Option (Instruction × Nat)) : FragmentAssembly.Packets := fun id =>
  (issued id).bind fun p =>
    match compress (ProstMessage.encode p.1) with
    | .error _ => none
    | .ok compressed =>
        if 0 < p.2 ∧ (pieces p.2 compressed).length ≤ 32768 ∧ id < 2 ^ 64 then
          some (p.1, pieces p.2 compressed)
        else none

theorem packets_some {issued : Nat → Option (Instruction × Nat)} {id : Nat} {ps : List Bytes}
    (h : packets issued id = some (inst, ps)) :
    ∃ maxPayload compressed, issued id = some (inst, maxPayload) ∧
      compress (ProstMessage.encode inst) = .ok compressed ∧ 0 < maxPayload ∧
      ps = pieces maxPayload compressed ∧ ps.length ≤ 32768 ∧ id < 2 ^ 64 := by
  obtain ⟨p, hp, hmatch⟩ := Option.bind_eq_some_iff.mp h
  split at hmatch
  · cases hmatch
  · next compressed hc =>
      split at hmatch
      · next hfit =>
          cases hmatch
          exact ⟨p.2, compressed, hp, hc, hfit.1, rfl, hfit.2.1, hfit.2.2⟩
      · cases hmatch

theorem packets_sound (issued : Nat → Option (Instruction × Nat)) : (packets issued).Sound := by
  intro id inst ps h
  obtain ⟨maxPayload, compressed, -, hc, hpos, rfl, hsize, hid⟩ := packets_some h
  exact ⟨⟨by rw [flatten_pieces hpos]; exact hc, pieces_ne⟩, hsize, hid⟩

theorem makeAll_length {insts : List (Instruction × Nat)}
    {results : List (Except String (List Fragment))} (hrun : f.makeAll insts = some results) :
    insts.length = results.length := by
  induction insts generalizing f results with
  | nil => cases hrun; rfl
  | cons q rest ih =>
      rw [makeAll, Option.bind_eq_some_iff] at hrun
      obtain ⟨p, -, hmap⟩ := hrun
      obtain ⟨results', hrest, rfl⟩ := Option.map_eq_some_iff.mp hmap
      rw [List.length_cons, List.length_cons, ih hrest]

/-- Every datagram on the wire comes from a call that succeeded. -/
theorem mem_wire {insts : List (Instruction × Nat)}
    {results : List (Except String (List Fragment))} (hrun : f.makeAll insts = some results)
    {data : Bytes} (h : data ∈ wire results) :
    ∃ p fragments, (p, .ok fragments) ∈ insts.zip results ∧
      data ∈ fragments.map Fragment.toBytes := by
  obtain ⟨r, hr, hdata⟩ := List.mem_flatMap.mp h
  obtain ⟨i, hi, rfl⟩ := List.getElem_of_mem hr
  have hi' : i < insts.length := by rw [makeAll_length hrun]; exact hi
  have hzip : (insts[i], results[i]) ∈ insts.zip results := by
    have hlt : i < (insts.zip results).length := by
      rw [List.length_zip]
      exact Nat.lt_min.mpr ⟨hi', hi⟩
    have hmem := List.getElem_mem hlt
    rwa [List.getElem_zip] at hmem
  cases hres : results[i] with
  | error e => rw [hres] at hdata; cases hdata
  | ok fragments =>
      rw [hres] at hdata hzip
      exact ⟨insts[i], fragments, hzip, hdata⟩

end Fragmenter

/-- Whatever arrives of the fragments of any instructions, in whatever order: no
call fails and what comes out was put in; and from there all fragments of one
instruction, in any order and number, bring it out. -/
theorem fragments_round_trip [Zlib] [ProstMessage Instruction] (insts : List (Instruction × Nat))
    (results : List (Except String (List Fragment))) (hmax : ∀ p ∈ insts, 1 ≤ p.2)
    (hsame : insts.IsChain fun p q => p.1.SameButDiff q.1 → p.1.diff = q.1.diff)
    (hrun : Fragmenter.new.makeAll insts = some results)
    (hcount : ∀ fragments, .ok fragments ∈ results → fragments.length ≤ 32768)
    (delivered : List Bytes) (hdelivered : ∀ data ∈ delivered, data ∈ Fragmenter.wire results) :
    (∀ r ∈ (FragmentAssembly.new.receiveAll delivered).2, r = .ok none ∨
      ∃ p fragments, (p, .ok fragments) ∈ insts.zip results ∧ r = .ok (some p.1)) ∧
    ∀ p fragments, (p, .ok fragments) ∈ insts.zip results → ∀ more : List Bytes,
      (∀ data ∈ more, data ∈ fragments.map Fragment.toBytes) →
      (∀ data ∈ fragments.map Fragment.toBytes, data ∈ more) →
      .ok (some p.1) ∈ ((FragmentAssembly.new.receiveAll delivered).1.receiveAll more).2 ∧
        ∀ r ∈ ((FragmentAssembly.new.receiveAll delivered).1.receiveAll more).2,
          ∃ o, r = .ok o := by
  have hequal : insts.IsChain fun p q => p.1.SameButDiff q.1 → p.1 = q.1 := by
    refine hsame.imp fun p q hdiff hs => ?_
    rw [Instruction.SameButDiff, ← hdiff hs] at hs
    exact hs
  have hnew : Fragmenter.new.Issued fun _ => none := ⟨by decide, fun last hlast => by cases hlast⟩
  obtain ⟨issued, -, hall, honly⟩ :=
    hnew.makeAll hmax hequal (fun last hlast => by cases hlast) hrun
  have hsound := Fragmenter.packets_sound issued
  -- the fragments of a call are the pieces of the packet its id stands for
  have hpacket : ∀ p fragments, (p, .ok fragments) ∈ insts.zip results → ∃ id ps,
      Fragmenter.packets issued id = some (p.1, ps) ∧
        fragments = (List.range ps.length).map (fragmentAt id ps) := by
    intro p fragments hp
    obtain ⟨id, hid, hissued, hresult⟩ := hall p _ hp
    cases hc : compress (ProstMessage.encode p.1) with
    | error e => rw [hc] at hresult; cases hresult
    | ok compressed =>
        rw [hc] at hresult
        cases hresult
        have hsize := hcount _ (List.of_mem_zip hp).2
        have hcut := cut_eq hsize
        rw [hcut, List.length_map, List.length_range] at hsize
        refine ⟨id, pieces p.2 compressed, ?_, hcut⟩
        rw [Fragmenter.packets, hissued, Option.bind_some, hc]
        exact if_pos ⟨hmax p (List.of_mem_zip hp).1, hsize, hid⟩
  have hcarry : ∀ data ∈ delivered, (Fragmenter.packets issued).Carries data := by
    intro data hdata
    obtain ⟨p, fragments, hp, hmem⟩ := Fragmenter.mem_wire hrun (hdelivered data hdata)
    obtain ⟨id, ps, hps, rfl⟩ := hpacket p fragments hp
    obtain ⟨f, hf, rfl⟩ := List.mem_map.mp hmem
    obtain ⟨i, hi, rfl⟩ := List.mem_map.mp hf
    exact ⟨id, p.1, ps, i, hps, List.mem_range.mp hi, rfl⟩
  have hstart : FragmentAssembly.Midway (Fragmenter.packets issued) FragmentAssembly.new :=
    fun id hid => by cases hid
  obtain ⟨hmid, hresults⟩ := hstart.receiveAll hsound hcarry
  refine ⟨fun r hr => ?_, fun p fragments hp more hof hall' => ?_⟩
  · rcases hresults r hr with hnone | ⟨id, inst, ps, hps, hsome⟩
    · exact Or.inl hnone
    · obtain ⟨maxPayload, compressed, hissued, hc, -⟩ := Fragmenter.packets_some hps
      rcases honly id _ hissued with hnone | ⟨result, hzip⟩
      · cases hnone
      · obtain ⟨id', -, -, hresult⟩ := hall _ _ hzip
        rw [hc] at hresult
        exact Or.inr ⟨(inst, maxPayload), _, hresult ▸ hzip, hsome⟩
  · obtain ⟨id, ps, hps, rfl⟩ := hpacket p fragments hp
    have hpieces : ∀ data ∈ more, ∃ i < ps.length, data = (fragmentAt id ps i).toBytes := by
      intro data hdata
      obtain ⟨f, hf, rfl⟩ := List.mem_map.mp (hof data hdata)
      obtain ⟨i, hi, rfl⟩ := List.mem_map.mp hf
      exact ⟨i, List.mem_range.mp hi, rfl⟩
    refine ⟨hmid.complete hsound hps hpieces fun i hi => hall' _ (List.mem_map_of_mem
      (List.mem_map_of_mem (List.mem_range.mpr hi))), fun r hr => ?_⟩
    have hmore : ∀ data ∈ more, (Fragmenter.packets issued).Carries data := by
      intro data hdata
      obtain ⟨i, hi, rfl⟩ := hpieces data hdata
      exact ⟨id, p.1, ps, i, hps, hi, rfl⟩
    rcases (hmid.receiveAll hsound hmore).2 r hr with hnone | ⟨-, inst, -, -, hsome⟩
    · exact ⟨none, hnone⟩
    · exact ⟨some inst, hsome⟩

section Witness

/-- Two instructions and the zlib streams of their encodings. -/
def firstInstruction : Instruction :=
  ⟨some 2, some 0, some 1, some 0, some 0, some [97], some []⟩

def secondInstruction : Instruction :=
  ⟨some 2, some 1, some 2, some 0, some 1, some [98], some []⟩

def firstStream : Bytes :=
  [120, 1, 227, 96, 18, 96, 144, 96, 84, 96, 208, 96, 48, 98, 76, 180, 98, 0, 0, 7, 82, 1, 74]

def secondStream : Bytes :=
  [120, 1, 227, 96, 18, 96, 148, 96, 82, 96, 208, 96, 52, 98, 76, 178, 98, 0, 0, 7, 113, 1, 78]

/-- Exchanges each encoding with its stream and leaves other bytes alone. -/
def exchange : Equiv.Perm Bytes :=
  (Equiv.swap (ProstMessage.encode firstInstruction) firstStream).trans
    (Equiv.swap (ProstMessage.encode secondInstruction) secondStream)

/-- zlib on the two encodings. -/
instance tableZlib : Zlib where
  writeAll := .ok
  finish data := .ok (exchange data)
  readToEnd stream := .ok (exchange.symm stream)
  readToEnd_finish := by
    intro data held stream hheld hstream
    cases hheld
    cases hstream
    rw [Equiv.symm_apply_apply]

def cutUp : List (Except String (List Fragment)) :=
  [.ok (Fragmenter.cut 1 10 firstStream), .ok (Fragmenter.cut 2 12 secondStream)]

/-- Pieces of both packets in turn, then all of the first, backwards and twice. -/
def strays : List Bytes :=
  [fragmentAt 1 (pieces 10 firstStream) 2, fragmentAt 2 (pieces 12 secondStream) 0,
    fragmentAt 1 (pieces 10 firstStream) 0].map Fragment.toBytes

def backwards : List Bytes :=
  let all := ((Fragmenter.cut 1 10 firstStream).map Fragment.toBytes).reverse
  all ++ all

theorem fragments_round_trip_backwards :
    .ok (some firstInstruction) ∈
      ((FragmentAssembly.new.receiveAll strays).1.receiveAll backwards).2 := by
  have hrun : Fragmenter.new.makeAll [(firstInstruction, 10), (secondInstruction, 12)]
      = some cutUp := by decide +kernel
  have hcount : ∀ fragments, .ok fragments ∈ cutUp → fragments.length ≤ 32768 := by
    intro fragments h
    rcases List.mem_cons.mp h with heq | h
    · cases heq; decide
    · cases List.mem_singleton.mp h; decide
  have hsame : [(firstInstruction, 10), (secondInstruction, 12)].IsChain fun p q =>
      p.1.SameButDiff q.1 → p.1.diff = q.1.diff :=
    List.isChain_pair.mpr fun hs => by cases hs
  have hstrays : ∀ data ∈ strays, data ∈ Fragmenter.wire cutUp := by decide +kernel
  have hof : ∀ data ∈ backwards,
      data ∈ (Fragmenter.cut 1 10 firstStream).map Fragment.toBytes := by decide +kernel
  have hall : ∀ data ∈ (Fragmenter.cut 1 10 firstStream).map Fragment.toBytes,
      data ∈ backwards := by decide +kernel
  have hround := fragments_round_trip _ cutUp (by decide) hsame hrun hcount strays hstrays
  exact (hround.2 (firstInstruction, 10) _ List.mem_cons_self backwards hof hall).1

end Witness

end Morsh
