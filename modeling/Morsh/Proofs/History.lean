import Morsh.Network.Transport
import Mathlib.Data.List.Basic
import Mathlib.Tactic.Common

/-!
# The two histories as lists

What `push`, `remove`, `retainFrom`, `insert` and `stampLast` do to the first
entry, the last entry, the set of entries and the order of a `History`. Every
protocol argument goes through these; none of them unfolds the operations
again.

A history is a first entry, the entries in between and a last one, so that it is
never empty; as a list it is `entries`. Each operation is described by what it
does to that list and to its two ends, and where it keeps an order on the
entries there is a lemma for any such order. The culling lemma is about a list
sorted by number, whose last entry no cull from below can remove.
-/

namespace Morsh

namespace History

variable {S : Type} {h : History S}

theorem length_pos (h : History S) : 0 < h.entries.length :=
  List.length_pos_iff.mpr h.ne

theorem first_mem (h : History S) : h.first ∈ h.entries := List.head_mem h.ne

theorem last_mem (h : History S) : h.last ∈ h.entries := List.getLast_mem h.ne

theorem get_zero (h : History S) : h.get 0 = h.first := by
  obtain ⟨entries, ne⟩ := h
  cases entries with
  | nil => exact absurd rfl ne
  | cons e rest => rfl

theorem get_last (h : History S) : h.get (h.length - 1) = h.last := by
  have hpos := h.length_pos
  simp only [get, length, last]
  rw [List.getLast_eq_getElem, List.getD_eq_getElem?_getD,
    List.getElem?_eq_getElem (by omega), Option.getD_some]

theorem get_mem (h : History S) (i : Nat) : h.get i ∈ h.entries := by
  rw [get, List.getD_eq_getElem?_getD]
  cases hi : h.entries[i]? with
  | none => exact h.first_mem
  | some e => exact List.mem_of_getElem? hi

theorem holds_iff {n : Nat} : h.holds n = true ↔ ∃ e ∈ h.entries, e.num = n := by
  simp [holds]

theorem entries_eq_dropLast (h : History S) :
    h.entries = h.entries.dropLast ++ [h.last] :=
  (List.dropLast_append_getLast h.ne).symm

/-! ## Appending and stamping -/

@[simp] theorem push_entries (e : TimestampedState S) :
    (h.push e).entries = h.entries ++ [e] := rfl

@[simp] theorem push_last (e : TimestampedState S) : (h.push e).last = e := by
  simp [last]

@[simp] theorem push_first (e : TimestampedState S) : (h.push e).first = h.first := by
  simp only [first, push_entries]
  exact List.head_append_of_ne_nil h.ne

@[simp] theorem push_length (e : TimestampedState S) :
    (h.push e).length = h.length + 1 := by
  simp [length]

theorem push_get {e : TimestampedState S} {j : Nat} (hj : j < h.length) :
    (h.push e).get j = h.get j := by
  simp only [get, push_entries, List.getD_eq_getElem?_getD, length] at *
  rw [List.getElem?_append_left hj, List.getElem?_eq_getElem hj]
  rfl

@[simp] theorem stampLast_last (t : Nat) :
    (h.stampLast t).last = { h.last with timestamp := t } := by
  simp [last, stampLast]

theorem mem_stampLast {t : Nat} {e : TimestampedState S}
    (he : e ∈ (h.stampLast t).entries) :
    ∃ e' ∈ h.entries, e.num = e'.num ∧ e.state = e'.state := by
  rcases List.mem_append.mp he with hd | hl
  · exact ⟨e, List.dropLast_subset _ hd, rfl, rfl⟩
  · obtain rfl := List.mem_singleton.mp hl
    exact ⟨h.last, h.last_mem, rfl, rfl⟩

theorem stampLast_first (t : Nat) :
    (h.stampLast t).first.num = h.first.num ∧
      (h.stampLast t).first.state = h.first.state := by
  obtain ⟨entries, ne⟩ := h
  cases entries with
  | nil => exact absurd rfl ne
  | cons e rest =>
      cases rest with
      | nil => exact ⟨rfl, rfl⟩
      | cons e' rest => exact ⟨rfl, rfl⟩

theorem stampLast_length (t : Nat) : (h.stampLast t).length = h.length := by
  have hpos := h.length_pos
  simp only [length, stampLast, List.length_append, List.length_dropLast,
    List.length_singleton]
  omega

theorem stampLast_get {t i : Nat} (hi : i < h.length) :
    (h.stampLast t).get i
      = if i = h.length - 1 then { h.last with timestamp := t } else h.get i := by
  have hdrop : h.entries.dropLast.length = h.length - 1 := List.length_dropLast
  simp only [get, stampLast, List.getD_eq_getElem?_getD, List.getElem?_append, hdrop]
  split
  · next hlt =>
      rw [if_neg (by omega), List.getElem?_dropLast, if_pos (by simpa [length] using hlt)]
      rw [List.getElem?_eq_getElem (by simpa [length] using hi)]
      rfl
  · next hge =>
      rw [if_pos (by omega), show i - (h.length - 1) = 0 by omega]
      rfl

/-- An order on the entries that ignores when the last one was sent survives a
new stamp on it. -/
theorem pairwise_stampLast {t : Nat} {R : TimestampedState S → TimestampedState S → Prop}
    (hp : h.entries.Pairwise R) (hR : ∀ e ∈ h.entries, R e h.last →
      R e { h.last with timestamp := t }) :
    (h.stampLast t).entries.Pairwise R := by
  rw [h.entries_eq_dropLast, List.pairwise_append] at hp
  simp only [stampLast, List.pairwise_append, List.pairwise_singleton, true_and,
    List.mem_singleton, forall_eq]
  exact ⟨hp.1, fun e he => hR e (List.dropLast_subset _ he) (hp.2.2 e he _ (by simp))⟩

/-! ## Rewriting the states -/

@[simp] theorem mapState_first (f : S → S) :
    (h.mapState f).first = { h.first with state := f h.first.state } := by
  simp [first, mapState]

@[simp] theorem mapState_last (f : S → S) :
    (h.mapState f).last = { h.last with state := f h.last.state } := by
  simp [last, mapState]

@[simp] theorem mapState_length (f : S → S) : (h.mapState f).length = h.length := by
  simp [length, mapState]

theorem mem_mapState {f : S → S} {x : TimestampedState S} :
    x ∈ (h.mapState f).entries ↔
      ∃ e ∈ h.entries, { e with state := f e.state } = x := by
  simp [mapState]

theorem pairwise_mapState {f : S → S} {R : TimestampedState S → TimestampedState S → Prop}
    (hR : ∀ a b, R a b → R { a with state := f a.state } { b with state := f b.state })
    (hp : h.entries.Pairwise R) : (h.mapState f).entries.Pairwise R := by
  rw [mapState, List.pairwise_map]
  exact hp.imp fun hab => hR _ _ hab

/-! ## Culling -/

theorem retainFrom_entries {n : Nat} (hex : ∃ e ∈ h.entries, n ≤ e.num) :
    (h.retainFrom n).entries = h.entries.filter fun e => n ≤ e.num := by
  obtain ⟨e, he, hn⟩ := hex
  rw [retainFrom, dif_neg]
  exact List.ne_nil_of_mem (List.mem_filter.mpr ⟨he, by simpa using hn⟩)

theorem mem_retainFrom {n : Nat} (hex : ∃ e ∈ h.entries, n ≤ e.num)
    {e : TimestampedState S} :
    e ∈ (h.retainFrom n).entries ↔ e ∈ h.entries ∧ n ≤ e.num := by
  rw [retainFrom_entries hex, List.mem_filter]
  simp

theorem retainFrom_sublist (n : Nat) : (h.retainFrom n).entries.Sublist h.entries := by
  rw [retainFrom]
  split
  · exact List.Sublist.refl _
  · exact List.filter_sublist

/-- The last entry is the greatest, so culling from below keeps it. -/
theorem retainFrom_last {n : Nat} (hn : n ≤ h.last.num) :
    (h.retainFrom n).last = h.last := by
  have hent := retainFrom_entries ⟨h.last, h.last_mem, hn⟩
  have key : (h.retainFrom n).entries
      = (h.entries.dropLast.filter fun e => n ≤ e.num) ++ [h.last] := by
    rw [hent]
    conv_lhs => rw [h.entries_eq_dropLast]
    rw [List.filter_append, List.filter_singleton]
    simp [hn]
  simp only [last, key]
  simp

/-! ## Dropping from the middle -/

theorem remove_entries {i : Nat} (hlen : 1 < h.length) :
    (h.remove i).entries = h.entries.eraseIdx i := by
  rw [remove, dif_neg]
  intro hnil
  have := List.length_eraseIdx (l := h.entries) (i := i)
  rw [hnil] at this
  simp only [length] at hlen
  split at this <;> simp at this <;> omega

theorem remove_first {i : Nat} (hlen : 1 < h.length) (hi : 0 < i) :
    (h.remove i).first = h.first := by
  obtain ⟨k, rfl⟩ : ∃ k, i = k + 1 := ⟨i - 1, by omega⟩
  have hent := remove_entries (i := k + 1) hlen
  obtain ⟨entries, ne⟩ := h
  cases entries with
  | nil => exact absurd rfl ne
  | cons e rest =>
      simp only [List.eraseIdx_cons_succ] at hent
      simp only [first, hent, List.head_cons]

theorem remove_get {i j : Nat} (hlen : 1 < h.length) (hj : j < h.length) (hne : j ≠ i) :
    (h.remove i).get (if j ≥ i then j - 1 else j) = h.get j := by
  simp only [get, remove_entries hlen, List.getD_eq_getElem?_getD, length] at *
  rw [List.getElem?_eq_getElem hj]
  split
  · next hge =>
      rw [List.getElem?_eraseIdx, if_neg (by omega), Nat.sub_add_cancel (by omega),
        List.getElem?_eq_getElem hj]
      rfl
  · next hlt =>
      rw [List.getElem?_eraseIdx, if_pos (by omega), List.getElem?_eq_getElem hj]
      rfl

theorem remove_last {i : Nat} (hlen : 1 < h.length) (hi : i + 1 < h.length) :
    (h.remove i).last = h.last := by
  rw [← get_last, ← get_last]
  have hl : (h.remove i).length = h.length - 1 := by
    simp only [length, remove_entries hlen] at *
    rw [List.length_eraseIdx, if_pos (by omega)]
  rw [hl, ← remove_get (i := i) hlen (show h.length - 1 < h.length by omega) (by omega),
    if_pos (by omega)]

/-- What `add_sent_state` does to a history that may have outgrown its cap. -/
def evict (h : History S) : History S :=
  if h.length > SENT_STATES_MAX then h.remove (h.length - 16) else h

theorem evict_first : h.evict.first = h.first := by
  unfold evict
  split
  · next hfull =>
      simp only [SENT_STATES_MAX] at hfull
      exact remove_first (by omega) (by omega)
  · rfl

theorem evict_last : h.evict.last = h.last := by
  unfold evict
  split
  · next hfull =>
      simp only [SENT_STATES_MAX] at hfull
      exact remove_last (by omega) (by omega)
  · rfl

theorem evict_sublist : h.evict.entries.Sublist h.entries := by
  unfold evict
  split
  · next hfull =>
      simp only [SENT_STATES_MAX] at hfull
      rw [remove_entries (by omega)]
      exact List.eraseIdx_sublist ..
  · exact List.Sublist.refl _

theorem evict_length (hlen : h.length ≤ SENT_STATES_MAX + 1) :
    h.evict.length ≤ SENT_STATES_MAX := by
  unfold evict
  split
  · next hfull =>
      simp only [SENT_STATES_MAX, length] at *
      rw [remove_entries (by simp only [length]; omega), List.length_eraseIdx,
        if_pos (by omega)]
      omega
  · omega

/-! ## Filing by number -/

theorem mem_insert {pos : Nat} {e x : TimestampedState S} :
    x ∈ (h.insert pos e).entries ↔ x = e ∨ x ∈ h.entries := by
  conv_rhs => rw [← List.take_append_drop pos h.entries]
  simp only [insert, List.mem_append, List.mem_cons]
  tauto

theorem insert_last {pos : Nat} {e : TimestampedState S} (hpos : pos < h.entries.length) :
    (h.insert pos e).last = h.last := by
  have hne : h.entries.drop pos ≠ [] := by
    rw [ne_eq, List.drop_eq_nil_iff]
    omega
  simp only [last, insert]
  rw [List.getLast_append_of_ne_nil (by simp) (by simp), List.getLast_cons hne,
    List.getLast_drop]

end History

end Morsh
