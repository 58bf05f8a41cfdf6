import Morsh.Proofs.FragmentNumbers

/-!
# Reassembly of whatever arrives

A peer may send fragments that belong to no packet: numbers twice, totals that
contradict each other, final flags in the middle. The count of arrivals is then
all the assembler has to go by, so the invariant is that it counts the filled
slots. With no slot past the total, as many arrivals as the total leave no slot
empty.

`Intact` says it for whatever was filed: the count is the number of filled slots,
each slot in use is below the total once there is one, and what is in a slot was
given for that slot. Filing keeps it, branch by branch. When the count reaches the
total, the slots below it are all filled, because a filled slot past it was
refused; so `assemble` finds nothing missing, and what it puts together are
fragments of one id that the peer really sent, one for each number.
-/

namespace Morsh

namespace FragmentAssembly

variable {a : FragmentAssembly} {given : List Fragment} {frag f : Fragment} {total : Nat}

/-- What the assembler keeps of the fragments it was given, whatever they are. -/
structure Intact (given : List Fragment) (a : FragmentAssembly) : Prop where
  arrived : a.fragmentsArrived = a.fragments.countP (·.isSome)
  bounded : a.fragments.length ≤ 2 ^ 15
  slots : ∀ i f, a.slot i = some f →
    f.fragmentNum = i ∧ a.currentId = some f.id ∧ f ∈ given
  /-- The total is the one the latest final flag announced. -/
  total : ∀ n, a.fragmentsTotal = some n →
    ∃ f ∈ given, f.finalFlag = true ∧ f.fragmentNum + 1 = n ∧ a.currentId = some f.id

/-- The condition `add_fragment` assembles under. -/
def Complete (a : FragmentAssembly) (total : Nat) : Prop :=
  a.fragmentsTotal = some total ∧ a.fragments.length ≤ total ∧ a.fragmentsArrived = total

theorem Intact.mono {given' : List Fragment} (h : Intact given a)
    (hsub : ∀ f ∈ given, f ∈ given') : Intact given' a := by
  refine ⟨h.arrived, h.bounded, fun i f hf => ?_, fun n hn => ?_⟩
  · obtain ⟨hnum, hid, hmem⟩ := h.slots i f hf
    exact ⟨hnum, hid, hsub f hmem⟩
  · obtain ⟨f, hmem, hf⟩ := h.total n hn
    exact ⟨f, hsub f hmem, hf⟩

theorem Intact.new : Intact [] FragmentAssembly.new :=
  ⟨rfl, Nat.zero_le _, fun _ _ h => (by cases h), fun _ h => (by cases h)⟩

theorem total_filed {old : Option Nat} {n : Nat} (hmem : frag ∈ given)
    (hold : old = some n → ∃ f ∈ given, f.finalFlag = true ∧ f.fragmentNum + 1 = n ∧
      some frag.id = some f.id)
    (hn : (if frag.finalFlag then some (frag.fragmentNum + 1) else old) = some n) :
    ∃ f ∈ given, f.finalFlag = true ∧ f.fragmentNum + 1 = n ∧ some frag.id = some f.id := by
  split at hn
  · next hfinal => exact ⟨frag, hmem, hfinal, Option.some.inj hn, rfl⟩
  · exact hold hn

theorem Intact.file (h : Intact given a) (hmem : frag ∈ given)
    (hnum : frag.fragmentNum < 2 ^ 15) : Intact given (a.file frag) := by
  have hput : ∀ (l : List (Option Fragment)) i f, (put l frag.fragmentNum frag)[i]?.join = some f →
      (f = frag ∧ i = frag.fragmentNum) ∨ l[i]?.join = some f := by
    intro l i f hf
    rw [getElem?_put] at hf
    split at hf
    · next hi => exact Or.inl ⟨(Option.some.inj hf).symm, hi⟩
    · exact Or.inr hf
  rcases file_spec a frag with ⟨-, hfile⟩ | ⟨hcur, hempty, hfile⟩ | ⟨hcur, -, hfile⟩
  · rw [hfile]
    refine ⟨(countP_put (l := []) rfl).symm, ?_, fun i f hf => ?_, fun n hn => ?_⟩
    · rw [length_put]
      exact Nat.max_le.mpr ⟨Nat.zero_le _, hnum⟩
    · rcases hput [] i f hf with ⟨rfl, rfl⟩ | hold
      · exact ⟨rfl, rfl, hmem⟩
      · cases hold
    · exact total_filed hmem (fun h => (by cases h)) hn
  · rw [hfile]
    refine ⟨?_, ?_, fun i f hf => ?_, fun n hn => ?_⟩
    · simp only []
      rw [countP_put hempty, h.arrived]
    · rw [length_put]
      exact Nat.max_le.mpr ⟨h.bounded, hnum⟩
    · rcases hput a.fragments i f hf with ⟨rfl, rfl⟩ | hold
      · exact ⟨rfl, rfl, hmem⟩
      · rw [← hcur]
        exact h.slots i f hold
    · exact total_filed hmem (fun h' => hcur ▸ h.total n h') hn
  · rw [hfile]
    refine ⟨h.arrived, h.bounded, h.slots, fun n hn => ?_⟩
    simp only [hcur] at hn ⊢
    exact total_filed hmem (fun h' => hcur ▸ h.total n h') hn

theorem slot_file (a : FragmentAssembly) (frag : Fragment) :
    ((a.file frag).slot frag.fragmentNum).isSome = true := by
  rcases file_spec a frag with ⟨-, hfile⟩ | ⟨-, -, hfile⟩ | ⟨-, hheld, hfile⟩
  · rw [hfile, slot, getElem?_put, if_pos rfl]
    rfl
  · rw [hfile, slot, getElem?_put, if_pos rfl]
    rfl
  · rw [hfile]
    exact hheld

theorem eq_map_some {l : List (Option Fragment)} (h : ∀ o ∈ l, o.isSome = true) :
    ∃ parts : List Fragment, l = parts.map some := by
  induction l with
  | nil => exact ⟨[], rfl⟩
  | cons o l ih =>
      obtain ⟨f, rfl⟩ := Option.isSome_iff_exists.mp (h o List.mem_cons_self)
      obtain ⟨parts, rfl⟩ := ih fun o ho => h o (List.mem_cons_of_mem _ ho)
      exact ⟨f :: parts, rfl⟩

theorem Intact.parts (h : Intact given a) (hc : a.Complete total) :
    ∃ parts : List Fragment, a.fragments = parts.map some ∧ parts.length = total ∧
      ∀ i f, parts[i]? = some f → f.fragmentNum = i ∧ a.currentId = some f.id ∧ f ∈ given := by
  obtain ⟨-, hle, hcount⟩ := hc
  rw [h.arrived] at hcount
  obtain ⟨hlen, -⟩ := filled_of_countP hle hcount
  have hfull : ∀ o ∈ a.fragments, o.isSome := List.countP_eq_length.mp (hcount.trans hlen.symm)
  have hslots := h.slots
  unfold slot at hslots
  generalize a.fragments = l at hfull hlen hslots
  obtain ⟨parts, rfl⟩ := eq_map_some hfull
  refine ⟨parts, rfl, by rwa [List.length_map] at hlen, fun i f hf => hslots i f ?_⟩
  rw [List.getElem?_map, hf]
  rfl

section Any

variable [Zlib] [ProstMessage Instruction]

/-- What `assemble` makes of the payloads once it has emptied the slots. -/
def unpack (data : Bytes) : Except String Instruction :=
  match decompress data with
  | .error e => .error e
  | .ok decompressed =>
      match ProstMessage.decode (M := Instruction) decompressed with
      | .error e => .error s!"Protobuf decode error: {e}"
      | .ok inst => .ok inst

theorem addFragment_complete {data : Bytes} (hc : (a.file frag).Complete total)
    (hgather : gather ((a.file frag).fragments.take total) = .ok data) :
    a.addFragment frag =
      ({ a.file frag with fragments := [], fragmentsArrived := 0, fragmentsTotal := none },
        (unpack data).map some) := by
  obtain ⟨htotal, hle, hcount⟩ := hc
  unfold addFragment
  simp only [htotal, if_neg (Nat.not_lt.mpr hle), if_pos hcount, assemble, hgather]
  rfl

theorem addFragment_incomplete (hc : ∀ total, ¬ (a.file frag).Complete total) :
    (a.addFragment frag).1 = a.file frag := by
  unfold addFragment
  simp only []
  split
  · rfl
  · next total htotal =>
      split
      · rfl
      · next hle =>
          split
          · next hcount => exact absurd ⟨htotal, Nat.not_lt.mp hle, hcount⟩ (hc total)
          · rfl

theorem Intact.addFragment (h : Intact given a) (hmem : frag ∈ given)
    (hnum : frag.fragmentNum < 2 ^ 15) : Intact given (a.addFragment frag).1 := by
  have hfile := h.file hmem hnum
  by_cases hc : ∃ total, (a.file frag).Complete total
  · obtain ⟨total, hc⟩ := hc
    obtain ⟨parts, hparts, hlen, -⟩ := hfile.parts hc
    have hgather : gather ((a.file frag).fragments.take total)
        = .ok (parts.map (·.payload)).flatten := by
      rw [hparts, List.take_of_length_le (by rw [List.length_map, hlen]), gather_map]
    rw [addFragment_complete hc hgather]
    exact ⟨rfl, Nat.zero_le _, fun _ _ h => (by cases h), fun _ h => (by cases h)⟩
  · rw [addFragment_incomplete fun total hcomplete => hc ⟨total, hcomplete⟩]
    exact hfile

/-- Every fragment of the list in turn. -/
def addAll (a : FragmentAssembly) (frags : List Fragment) : FragmentAssembly :=
  frags.foldl (fun a f => (a.addFragment f).1) a

theorem Intact.addAll {frags : List Fragment} (h : Intact given a)
    (hmem : ∀ f ∈ frags, f ∈ given) (hnum : ∀ f ∈ frags, f.fragmentNum < 2 ^ 15) :
    Intact given (a.addAll frags) := by
  induction frags generalizing a with
  | nil => exact h
  | cons f frags ih =>
      have hstep := h.addFragment (hmem f List.mem_cons_self) (hnum f List.mem_cons_self)
      exact ih hstep (fun g hg => hmem g (List.mem_cons_of_mem f hg))
        fun g hg => hnum g (List.mem_cons_of_mem f hg)

/-- The call with `frag`, from an assembler that was given `before`. -/
structure Sound (before : List Fragment) (a : FragmentAssembly) (frag : Fragment) : Prop where
  /-- The slot the fragment is filed in is there. -/
  inside : frag.fragmentNum < (a.file frag).fragments.length
  slots : (a.file frag).fragments.length ≤ 32768
  arrived : (a.file frag).fragmentsArrived = (a.file frag).fragments.countP (·.isSome)
  left : (a.addFragment frag).1.fragmentsArrived
    = (a.addFragment frag).1.fragments.countP (·.isSome)
  /-- Assembly finds one payload for each number up to the final one. -/
  assembled : ∀ total, (a.file frag).Complete total →
    ∃ parts : List Fragment,
      parts.map (·.fragmentNum) = List.range total ∧
      (∀ f ∈ parts, f.id = frag.id ∧ f ∈ before ++ [frag]) ∧
      (∃ f ∈ before ++ [frag], f.finalFlag = true ∧ f.id = frag.id ∧ f.fragmentNum + 1 = total) ∧
      gather ((a.file frag).fragments.take total) = .ok (parts.map (·.payload)).flatten ∧
      a.addFragment frag =
        ({ a.file frag with fragments := [], fragmentsArrived := 0, fragmentsTotal := none },
          (unpack (parts.map (·.payload)).flatten).map some)
  /-- Otherwise the fragment is filed and nothing else happens. -/
  waiting : (∀ total, ¬ (a.file frag).Complete total) → (a.addFragment frag).1 = a.file frag

theorem Intact.sound (h : Intact given a) (hnum : frag.fragmentNum < 2 ^ 15) :
    Sound given a frag := by
  have hsub : ∀ f ∈ given, f ∈ given ++ [frag] := fun f hf => List.mem_append_left _ hf
  have hmem : frag ∈ given ++ [frag] := by simp
  have hfile := (h.mono hsub).file hmem hnum
  have hcur : (a.file frag).currentId = some frag.id := by
    rcases file_spec a frag with ⟨-, hf⟩ | ⟨-, -, hf⟩ | ⟨hcur, -, hf⟩
    · rw [hf]
    · rw [hf]
    · rw [hf]
      exact hcur
  refine ⟨?_, hfile.bounded, hfile.arrived, ((h.mono hsub).addFragment hmem hnum).arrived, ?_,
    addFragment_incomplete⟩
  · have hslot := slot_file a frag
    by_contra hout
    rw [slot, List.getElem?_eq_none (Nat.not_lt.mp hout)] at hslot
    cases hslot
  · intro total hc
    obtain ⟨parts, hparts, hlen, hnums⟩ := hfile.parts hc
    have hgather : gather ((a.file frag).fragments.take total)
        = .ok (parts.map (·.payload)).flatten := by
      rw [hparts, List.take_of_length_le (by rw [List.length_map, hlen]), gather_map]
    refine ⟨parts, ?_, fun f hf => ?_, ?_, hgather, addFragment_complete hc hgather⟩
    · refine List.ext_getElem (by rw [List.length_map, List.length_range, hlen]) fun i h₁ h₂ => ?_
      rw [List.length_map] at h₁
      rw [List.getElem_map, List.getElem_range]
      exact (hnums i _ (List.getElem?_eq_getElem h₁)).1
    · obtain ⟨i, hi⟩ := List.mem_iff_getElem?.mp hf
      obtain ⟨-, hid, hgiven⟩ := hnums i f hi
      rw [hcur] at hid
      exact ⟨(Option.some.inj hid).symm, hgiven⟩
    · obtain ⟨f, hgiven, hfinal, hlast, hid⟩ := hfile.total total hc.1
      rw [hcur] at hid
      exact ⟨f, hgiven, hfinal, (Option.some.inj hid).symm, hlast⟩

/-- Whatever fragments arrive, every call files them inside the slots, counts
the slots that are filled, and assembles only what is there. -/
theorem reassembly_sound (before : List Fragment) (frag : Fragment)
    (hwire : ∀ f ∈ before ++ [frag], ∃ data, Fragment.fromBytes data = .ok f) :
    Sound before (new.addAll before) frag := by
  have hnum : ∀ f ∈ before ++ [frag], f.fragmentNum < 2 ^ 15 := by
    intro f hf
    obtain ⟨data, hdata⟩ := hwire f hf
    exact Fragment.fragmentNum_lt hdata
  have hbefore : Intact before (new.addAll before) :=
    (Intact.new.mono fun f hf => absurd hf List.not_mem_nil).addAll (fun f hf => hf)
      fun f hf => hnum f (List.mem_append_left _ hf)
  exact hbefore.sound (hnum frag (by simp))

end Any

/-- A final flag in the middle, a fragment past it, and the next number final
after all. -/
def contradictory : List Fragment := [⟨7, true, 1, [2]⟩, ⟨7, false, 2, [3]⟩, ⟨7, true, 2, [9]⟩]

theorem reassembly_sound_contradictory :
    ((new.addAll contradictory).file ⟨7, false, 0, [1]⟩).Complete 3 ∧
      Sound contradictory (new.addAll contradictory) ⟨7, false, 0, [1]⟩ := by
  have hwire : ∀ f ∈ contradictory ++ [⟨7, false, 0, [1]⟩],
      Fragment.fromBytes f.toBytes = .ok f := by
    decide +kernel
  exact ⟨⟨by decide +kernel, by decide +kernel, by decide +kernel⟩,
    reassembly_sound _ _ fun f hf => ⟨f.toBytes, hwire f hf⟩⟩

end FragmentAssembly

end Morsh
