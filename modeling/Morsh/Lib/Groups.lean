import Mathlib.Data.List.SplitBy

/-!
# The last of each group

`List.splitBy` cuts a list into maximal groups of neighbours that are related.
`lasts` keeps the last element of each; its equations go by the first two
elements of the list.
-/

namespace Groups

open List

variable {α : Type*} {r : α → α → Bool} {a b : α} {l : List α}

/-- The last element of every maximal group of related neighbours. -/
def lasts (r : α → α → Bool) (l : List α) : List α :=
  (l.splitBy r).filterMap getLast?

@[simp] theorem lasts_nil : lasts r [] = [] := rfl

@[simp] theorem lasts_singleton : lasts r [a] = [a] := rfl

theorem splitBy_cons (r : α → α → Bool) (b : α) (l : List α) :
    ∃ g gs, (b :: l).splitBy r = (b :: g) :: gs := by
  have hne : b :: l ≠ [] := cons_ne_nil b l
  have hhead := head_head_splitBy r hne
  cases hsplit : (b :: l).splitBy r with
  | nil => exact absurd (splitBy_eq_nil.mp hsplit) hne
  | cons g gs =>
      cases g with
      | nil =>
          have hmem : [] ∈ (b :: l).splitBy r := by rw [hsplit]; exact mem_cons_self
          exact absurd hmem (nil_notMem_splitBy r _)
      | cons c g =>
          simp only [hsplit, head_cons] at hhead
          exact ⟨g, gs, hhead ▸ rfl⟩

/-- Unrelated neighbours end a group. -/
theorem lasts_cons_of_false (h : r a b = false) :
    lasts r (a :: b :: l) = a :: lasts r (b :: l) := by
  obtain ⟨g, gs, hsplit⟩ := splitBy_cons r b l
  have hflat : ([a] :: (b :: l).splitBy r).flatten = a :: b :: l := by
    rw [flatten_cons, flatten_splitBy]
    rfl
  have hsplit' : (a :: b :: l).splitBy r = [a] :: (b :: l).splitBy r := by
    rw [← hflat]
    refine splitBy_flatten ?_ ?_ ?_
    · intro hmem
      simp at hmem
    · intro m hm
      rcases mem_cons.mp hm with rfl | hm
      · exact isChain_singleton a
      · exact isChain_of_mem_splitBy hm
    · refine isChain_cons.mpr ⟨fun x hx => ?_, isChain_getLast_head_splitBy r (b :: l)⟩
      rw [hsplit] at hx
      cases Option.some.inj hx
      exact ⟨cons_ne_nil a [], cons_ne_nil b g, h⟩
  rw [lasts, hsplit']
  rfl

/-- Of two related neighbours the first is not the last of its group. -/
theorem lasts_cons_of_true (h : r a b = true) :
    lasts r (a :: b :: l) = lasts r (b :: l) := by
  obtain ⟨g, gs, hsplit⟩ := splitBy_cons r b l
  have hflat : ((a :: b :: g) :: gs).flatten = a :: b :: l := by
    have hl := flatten_splitBy r (b :: l)
    rw [hsplit] at hl
    exact congrArg (a :: ·) hl
  have hchain := isChain_getLast_head_splitBy r (b :: l)
  rw [hsplit] at hchain
  have hsplit' : (a :: b :: l).splitBy r = (a :: b :: g) :: gs := by
    rw [← hflat]
    refine splitBy_flatten ?_ ?_ ?_
    · intro hmem
      rcases mem_cons.mp hmem with hnil | hmem
      · cases hnil
      · exact nil_notMem_splitBy r (b :: l) (hsplit ▸ mem_cons_of_mem _ hmem)
    · intro m hm
      rcases mem_cons.mp hm with rfl | hm
      · refine isChain_cons.mpr ⟨fun x hx => ?_, ?_⟩
        · cases Option.some.inj hx
          exact h
        · exact isChain_of_mem_splitBy (hsplit ▸ mem_cons_self : b :: g ∈ (b :: l).splitBy r)
      · exact isChain_of_mem_splitBy (hsplit ▸ mem_cons_of_mem _ hm : m ∈ (b :: l).splitBy r)
    · refine isChain_cons.mpr ⟨fun x hx => ?_, (isChain_cons.mp hchain).2⟩
      obtain ⟨_, hx', hr⟩ := (isChain_cons.mp hchain).1 x hx
      exact ⟨cons_ne_nil a _, hx', hr⟩
  rw [lasts, lasts, hsplit', hsplit]
  simp only [filterMap_cons, getLast?_cons_cons]

end Groups
