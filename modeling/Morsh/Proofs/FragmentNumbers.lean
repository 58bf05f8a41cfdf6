import Morsh.Proofs.Fragment

/-!
# The numbers of fragments

A fragment's number has 15 bits on the wire, and nothing bounds the number of
fragments an instruction is cut into: past 2^15 of them the number that is
written is not the one that was given, and no call says so.

That a fragment reads back is a matter of its number alone, and the numbers of a
cut are 0, 1, 2 and so on. So the first one that does not read back is the one
numbered 2^15, if there are that many, and the condition of the theorem is a bound
on the length of the compressed instruction. The failing input at the end has to
be one that does not compress, and a stored block is what zlib makes of it.
-/

namespace Morsh

/-- The fragments of one instruction, as the other end can tell them apart. -/
structure Numbered (fragments : List Fragment) : Prop where
  faithful : ∀ f ∈ fragments, Fragment.fromBytes f.toBytes = .ok f
  numbers : fragments.map (·.fragmentNum) = List.range fragments.length
  final : ∀ i f, fragments[i]? = some f → (f.finalFlag = true ↔ i + 1 = fragments.length)

theorem Fragment.fragmentNum_lt {data : Bytes} {f : Fragment} (h : fromBytes data = .ok f) :
    f.fragmentNum < 2 ^ 15 := by
  unfold fromBytes at h
  split at h
  · cases h
  · cases h
    change _ &&& 0x7FFF < 2 ^ 15
    rw [show 0x7FFF = 2 ^ 15 - 1 from rfl, Nat.and_two_pow_sub_one_eq_mod]
    exact Nat.mod_lt _ (by decide)

theorem length_pieces (maxPayload : Nat) (compressed : Bytes) :
    (pieces maxPayload compressed).length
      = max ((compressed.length + maxPayload - 1) / maxPayload) 1 := by
  have hchunks := length_chunks maxPayload compressed
  unfold pieces
  split
  · next h =>
      rw [List.isEmpty_iff.mp h, List.length_nil] at hchunks
      rw [← hchunks]
      rfl
  · next h =>
      have hpos : 0 < (chunks maxPayload compressed).length :=
        List.length_pos_iff.mpr (by simpa using h)
      rw [← hchunks, Nat.max_eq_left hpos]

theorem length_pieces_le {maxPayload : Nat} (hmax : 1 ≤ maxPayload) (compressed : Bytes) :
    (pieces maxPayload compressed).length ≤ 2 ^ 15 ↔ compressed.length ≤ 2 ^ 15 * maxPayload := by
  rw [length_pieces, Nat.max_le, Nat.div_le_iff_le_mul_add_pred hmax, Nat.mul_comm]
  omega

theorem Numbered.of_pieces {id : Nat} (hid : id < 2 ^ 64) {ps : List Bytes}
    (hcount : ps.length ≤ 2 ^ 15) : Numbered ((List.range ps.length).map (fragmentAt id ps)) where
  faithful := by
    intro f hf
    obtain ⟨i, hi, rfl⟩ := List.mem_map.mp hf
    have hlt := List.mem_range.mp hi
    exact Fragment.fromBytes_toBytes hid (Nat.lt_of_lt_of_le hlt hcount)
  numbers := by
    rw [List.map_map, List.length_map, List.length_range]
    exact List.map_id _
  final := by
    intro i f hf
    rw [List.getElem?_map] at hf
    obtain ⟨j, hj, rfl⟩ := Option.map_eq_some_iff.mp hf
    obtain ⟨hlt, rfl⟩ := List.getElem?_eq_some_iff.mp hj
    rw [List.length_range] at hlt
    rw [List.getElem_range, List.length_map, List.length_range, fragmentAt, beq_iff_eq]
    omega

namespace Fragmenter

variable {id maxPayload : Nat} {compressed : Bytes}

/-- The fragment after the first 2^15 of them is read back under another
number. -/
theorem exists_unfaithful (hmany : 2 ^ 15 < (pieces maxPayload compressed).length) :
    ∃ frag ∈ cut id maxPayload compressed, Fragment.fromBytes frag.toBytes ≠ .ok frag := by
  refine ⟨{ fragmentAt id (pieces maxPayload compressed) (2 ^ 15) with
      fragmentNum := 2 ^ 15 % 2 ^ 16 }, ?_, fun hfaithful => ?_⟩
  · rw [cut_eq_map]
    exact List.mem_map.mpr ⟨2 ^ 15, List.mem_range.mpr hmany, rfl⟩
  · have hlt := Fragment.fragmentNum_lt hfaithful
    change 2 ^ 15 % 2 ^ 16 < 2 ^ 15 at hlt
    omega

/-- Cutting numbers the fragments faithfully where 15 bits are enough for
them. -/
theorem numbered_cut_iff (hid : id < 2 ^ 64) (hmax : 1 ≤ maxPayload) :
    Numbered (cut id maxPayload compressed) ↔ compressed.length ≤ 2 ^ 15 * maxPayload := by
  have hlength : (cut id maxPayload compressed).length = (pieces maxPayload compressed).length := by
    rw [cut_eq_map, List.length_map, List.length_range]
  rw [← length_pieces_le hmax]
  constructor
  · intro h
    by_contra hmany
    obtain ⟨frag, hfrag, hwrong⟩ := @exists_unfaithful id _ _ (Nat.not_le.mp hmany)
    exact hwrong (h.faithful frag hfrag)
  · intro hfew
    rw [cut_eq (hlength ▸ hfew)]
    exact .of_pieces hid hfew

variable [Zlib] [ProstMessage Instruction]

/-- More pieces than 15 bits can number. -/
def TooLarge (inst : Instruction) (maxPayload : Nat) : Prop :=
  ∃ compressed, compress (ProstMessage.encode inst) = .ok compressed ∧
    2 ^ 15 < (pieces maxPayload compressed).length

/-- What one call owes: numbered fragments, and an error where there are too
many. -/
structure FaithfullyNumbered (inst : Instruction) (maxPayload : Nat)
    (result : Except String (List Fragment)) : Prop where
  numbered : ∀ fragments, result = .ok fragments → Numbered fragments
  refused : TooLarge inst maxPayload → ∃ e, result = .error e

theorem makeFragments_new {inst : Instruction} (hmax : 1 ≤ maxPayload)
    (hc : compress (ProstMessage.encode inst) = .ok compressed) :
    new.makeFragments inst maxPayload
      = some (⟨1, some inst, some maxPayload⟩, .ok (cut 1 maxPayload compressed)) := by
  rw [makeFragments, if_neg (Nat.ne_of_gt hmax), hc]
  rfl

/-- A call keeps to this exactly where the compressed instruction is at most
2^15 payloads long. -/
theorem fragment_numbers_faithful_iff (f f' : Fragmenter) (inst : Instruction)
    (result : Except String (List Fragment)) (hmax : 1 ≤ maxPayload)
    (hmake : f.makeFragments inst maxPayload = some (f', result)) :
    FaithfullyNumbered inst maxPayload result ↔
      ∀ compressed, compress (ProstMessage.encode inst) = .ok compressed →
        compressed.length ≤ 2 ^ 15 * maxPayload := by
  obtain ⟨hid, -, rfl⟩ := makeFragments_some hmax hmake
  constructor
  · intro h compressed hc
    exact (numbered_cut_iff hid hmax).mp (h.numbered _ (by rw [hc]; rfl))
  · refine fun hfew => ⟨fun fragments hfragments => ?_, fun htoo => ?_⟩
    · cases hc : compress (ProstMessage.encode inst) with
      | error e =>
          rw [hc] at hfragments
          cases hfragments
      | ok compressed =>
          rw [hc] at hfragments
          cases hfragments
          exact (numbered_cut_iff hid hmax).mpr (hfew compressed hc)
    · obtain ⟨compressed, hc, hmany⟩ := htoo
      exact absurd ((length_pieces_le hmax compressed).mpr (hfew compressed hc))
        (Nat.not_le.mpr hmany)

end Fragmenter

/-- One key in payloads of ten bytes. -/
theorem Fragmenter.fragment_numbers_faithful_iff_small :
    ∃ f' fragments, Fragmenter.new.makeFragments firstInstruction 10 = some (f', .ok fragments) ∧
      FaithfullyNumbered firstInstruction 10 (.ok fragments) := by
  have hmake : Fragmenter.new.makeFragments firstInstruction 10
      = some (⟨1, some firstInstruction, some 10⟩, .ok (cut 1 10 firstStream)) := by decide +kernel
  have hc : compress (ProstMessage.encode firstInstruction) = .ok firstStream := by decide +kernel
  refine ⟨_, _, hmake, (fragment_numbers_faithful_iff _ _ _ _ (by decide) hmake).mpr ?_⟩
  intro compressed hc'
  cases hc.symm.trans hc'
  decide

section Noise

/-- Two bytes of checksum over two bytes of sum. -/
def adler32 (data : Bytes) : Nat :=
  let sums := data.foldl
    (fun s b => ((s.1 + b.toNat) % 65521, (s.2 + s.1 + b.toNat) % 65521)) (1, 0)
  sums.2 * 65536 + sums.1

/-- zlib's stream for bytes it cannot make shorter: one stored block, between the
header and the checksum. -/
def stored (data : Bytes) : Bytes :=
  [120, 1, 1, .ofNat data.length, .ofNat (data.length / 256), .ofNat (65535 - data.length),
    .ofNat ((65535 - data.length) / 256)] ++ data ++ BigEndian.encode 4 (adler32 data)

theorem length_stored (data : Bytes) : (stored data).length = data.length + 11 := by
  simp only [stored, List.length_append, BigEndian.length_encode, List.length_cons,
    List.length_nil]
  omega

@[reducible] def storedZlib : Zlib where
  writeAll := .ok
  finish data := .ok (stored data)
  readToEnd stream := .ok ((stream.drop 7).take (stream.length - 11))
  readToEnd_finish := by
    intro data held stream hheld hstream
    cases hheld
    cases hstream
    rw [length_stored, stored]
    simp

/-- A linear congruential generator's bytes, which do not compress. -/
def noise : Nat → Nat → Bytes
  | 0, _ => []
  | n + 1, seed => .ofNat (seed / 65536) :: noise n ((1103515245 * seed + 12345) % 2 ^ 31)

theorem length_noise (n seed : Nat) : (noise n seed).length = n := by
  induction n generalizing seed with
  | zero => rfl
  | succ n ih => rw [noise, List.length_cons, ih]

/-- A diff of 2^15 bytes of noise. -/
def noisyInstruction : Instruction :=
  ⟨some 2, some 0, some 1, some 0, some 0, some (noise (2 ^ 15) 1), none⟩

/-- Cut into single bytes, the noise needs more than 2^15 fragments: the call
succeeds, and the fragment numbered 2^15 is read back under another number. -/
theorem Fragmenter.noise_wraps :
    ∃ f' fragments frag,
      @Fragmenter.makeFragments storedZlib _ .new noisyInstruction 1 = some (f', .ok fragments) ∧
        frag ∈ fragments ∧ Fragment.fromBytes frag.toBytes ≠ .ok frag ∧
        ¬ @FaithfullyNumbered storedZlib _ noisyInstruction 1 (.ok fragments) := by
  have hfield : (⟨6, .bytes (noise (2 ^ 15) 1)⟩ : Protobuf.Field) ∈ noisyInstruction.fields :=
    List.mem_append_left _ (List.mem_append_right _ List.mem_cons_self)
  have hlen : 2 ^ 15 ≤ (ProstMessage.encode noisyInstruction).length := by
    have hle := Protobuf.length_bytes_le_encodeFields hfield
    rwa [length_noise] at hle
  have hc : @compress storedZlib (ProstMessage.encode noisyInstruction)
      = .ok (stored (ProstMessage.encode noisyInstruction)) := rfl
  have hstored : 2 ^ 15 < (stored (ProstMessage.encode noisyInstruction)).length := by
    rw [length_stored]
    omega
  have hmany : 2 ^ 15 < (pieces 1 (stored (ProstMessage.encode noisyInstruction))).length := by
    by_contra hfew
    have := (length_pieces_le (Nat.le_refl 1) _).mp (Nat.not_lt.mp hfew)
    omega
  obtain ⟨frag, hfrag, hwrong⟩ := @exists_unfaithful 1 _ _ hmany
  refine ⟨_, _, frag, @makeFragments_new 1 _ storedZlib _ _ (Nat.le_refl 1) hc, hfrag, hwrong, ?_⟩
  rintro ⟨hnumbered, -⟩
  exact hwrong ((hnumbered _ rfl).faithful frag hfrag)

end Noise

end Morsh
