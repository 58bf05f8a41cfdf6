import Morsh.Proofs.History

/-!
# One instruction received, read back

The received history is sorted by number and holds no number twice: a state is
only filed when its number is new, and it is filed in front of the first
greater one. `receive_cases` says everything `receive` can do to it: nothing,
a cull, or a cull followed by filing the reference with the diff applied. The
cull is clamped to the newest state, so the newest number never falls.

`file` is a search for the position and an insertion there, `cull` a filter with
the newest state kept in any case, and `lend` replaces the state of the reference
by what it is left with when it lends its resource. Each has a lemma on the
entries and one on the order. The function `receive` is unfolded once, in
`receive_cases`; everything about the receiver later starts from its three
cases.
-/

namespace Morsh

open State

variable {R : Type}

/-- Strictly increasing numbers. -/
def Sorted (h : History R) : Prop := h.entries.Pairwise fun a b => a.num < b.num

namespace Sorted

variable {h : History R} {e x : TimestampedState R}

theorem le_last (hs : Sorted h) (he : e ∈ h.entries) : e.num ≤ h.last.num := by
  rw [Sorted, h.entries_eq_dropLast, List.pairwise_append] at hs
  rw [h.entries_eq_dropLast, List.mem_append, List.mem_singleton] at he
  rcases he with hd | rfl
  · exact Nat.le_of_lt (hs.2.2 e hd _ (by simp))
  · exact Nat.le_refl _

theorem first_le (hs : Sorted h) (he : e ∈ h.entries) : h.first.num ≤ e.num := by
  obtain ⟨entries, ne⟩ := h
  cases entries with
  | nil => exact absurd rfl ne
  | cons a rest =>
      rcases List.mem_cons.mp he with rfl | hr
      · exact Nat.le_refl _
      · exact Nat.le_of_lt ((List.pairwise_cons.mp hs).1 e hr)

theorem retainFrom (hs : Sorted h) (n : Nat) : Sorted (h.retainFrom n) :=
  hs.sublist (History.retainFrom_sublist n)

theorem mapState (hs : Sorted h) (f : R → R) : Sorted (h.mapState f) :=
  History.pairwise_mapState (fun _ _ h => h) hs

theorem push (hs : Sorted h) (hlt : h.last.num < x.num) : Sorted (h.push x) := by
  rw [Sorted, History.push_entries, List.pairwise_append]
  refine ⟨hs, List.pairwise_singleton _ _, fun a ha b hb => ?_⟩
  rw [List.mem_singleton.mp hb]
  exact Nat.lt_of_le_of_lt (hs.le_last ha) hlt

/-- A new number in front of the first greater one. -/
theorem insert {pos : Nat} (hs : Sorted h) (hnew : ∀ e ∈ h.entries, e.num ≠ x.num)
    (hpos : h.entries.findIdx? (fun s => s.num > x.num) = some pos) :
    Sorted (h.insert pos x) := by
  obtain ⟨hlt, hat, hbefore⟩ := List.findIdx?_eq_some_iff_getElem.mp hpos
  simp only [gt_iff_lt, decide_eq_true_eq] at hat hbefore
  have hsplit := h.entries.take_append_drop pos
  rw [Sorted, ← hsplit, List.pairwise_append] at hs
  have hlow : ∀ a ∈ h.entries.take pos, a.num < x.num := by
    intro a ha
    obtain ⟨i, hi, rfl⟩ := List.mem_take_iff_getElem.mp ha
    have := hbefore i (by omega)
    have := hnew _ (List.getElem_mem (show i < h.entries.length by omega))
    omega
  have hhigh : ∀ b ∈ h.entries.drop pos, x.num < b.num := by
    rw [List.drop_eq_getElem_cons hlt] at hs ⊢
    intro b hb
    rcases List.mem_cons.mp hb with rfl | hr
    · exact hat
    · exact Nat.lt_trans hat ((List.pairwise_cons.mp hs.2.1).1 b hr)
  rw [Sorted, History.insert, List.pairwise_append, List.pairwise_cons]
  refine ⟨hs.1, ⟨hhigh, hs.2.1⟩, fun a ha b hb => ?_⟩
  rcases List.mem_cons.mp hb with rfl | hr
  · exact hlow a ha
  · exact hs.2.2 a ha b hr

end Sorted

/-! ## Filing -/

section Filing

variable [State R] {r : Receiver R} {e : TimestampedState R}

omit [State R] in
theorem file_spec (hs : Sorted r.receivedStates)
    (hnew : ∀ x ∈ r.receivedStates.entries, x.num ≠ e.num) :
    Sorted (r.file e).1.receivedStates ∧
      (∀ x, x ∈ (r.file e).1.receivedStates.entries ↔
        x = e ∨ x ∈ r.receivedStates.entries) ∧
      (r.file e).1.lastReceiverState = r.lastReceiverState ∧
      (((r.file e).2 = .newState e.num ∧ r.receivedStates.last.num < e.num ∧
          (r.file e).1.receivedStates.last = e) ∨
        ((r.file e).2 = .outOfOrderState e.num ∧ e.num < r.receivedStates.last.num ∧
          (r.file e).1.receivedStates.last = r.receivedStates.last)) := by
  unfold Receiver.file
  cases hpos : r.receivedStates.entries.findIdx? (fun s => s.num > e.num) with
  | none =>
      have hlt : r.receivedStates.last.num < e.num := by
        have hle := List.findIdx?_eq_none_iff.mp hpos _ r.receivedStates.last_mem
        have hne := hnew _ r.receivedStates.last_mem
        simp only [gt_iff_lt, decide_eq_false_iff_not] at hle
        omega
      refine ⟨hs.push hlt, fun x => ?_, rfl, Or.inl ⟨rfl, hlt, History.push_last e⟩⟩
      rw [History.push_entries, List.mem_append, List.mem_singleton, or_comm]
  | some pos =>
      obtain ⟨hlt, hat, -⟩ := List.findIdx?_eq_some_iff_getElem.mp hpos
      simp only [gt_iff_lt, decide_eq_true_eq] at hat
      have hle := hs.le_last (List.getElem_mem hlt)
      exact ⟨hs.insert hnew hpos, fun x => History.mem_insert, rfl,
        Or.inr ⟨rfl, by omega, History.insert_last hlt⟩⟩

end Filing

/-! ## Culling -/

/-- The received history after a throwaway number. -/
def History.cull (h : History R) (throwawayNum : Nat) : History R :=
  h.retainFrom (min throwawayNum h.last.num)

theorem History.mem_cull {h : History R} {t : Nat} {e : TimestampedState R} :
    e ∈ (h.cull t).entries ↔ e ∈ h.entries ∧ min t h.last.num ≤ e.num :=
  History.mem_retainFrom ⟨h.last, h.last_mem, by omega⟩

theorem History.cull_last {h : History R} {t : Nat} : (h.cull t).last = h.last :=
  History.retainFrom_last (by omega)

theorem Sorted.cull {h : History R} (hs : Sorted h) (t : Nat) : Sorted (h.cull t) :=
  hs.retainFrom _

/-! ## What `receive` can do -/

theorem History.position_some {h : History R} {n i : Nat} (hi : h.position n = some i) :
    h.get i ∈ h.entries ∧ (h.get i).num = n ∧ i < h.entries.length := by
  obtain ⟨hlt, hat, -⟩ := List.findIdx?_eq_some_iff_getElem.mp hi
  have hget : h.get i = h.entries[i] := by
    rw [History.get, List.getD_eq_getElem?_getD, List.getElem?_eq_getElem hlt,
      Option.getD_some]
  rw [hget]
  exact ⟨List.getElem_mem hlt, by simpa using hat, hlt⟩

theorem History.position_none {h : History R} {n : Nat} (hi : h.position n = none) :
    h.holds n = false := by
  have hne := List.findIdx?_eq_none_iff.mp hi
  rw [History.holds, List.any_eq_false]
  intro e he
  simpa using hne e he

theorem History.mem_setState {h : History R} {i : Nat} {s : R} {x : TimestampedState R}
    (hi : i < h.entries.length) (hx : x ∈ (h.setState i s).entries) :
    x = { h.get i with state := s } ∨ x ∈ h.entries := by
  have hget : h.get i = h.entries[i] := by
    rw [History.get, List.getD_eq_getElem?_getD, List.getElem?_eq_getElem hi,
      Option.getD_some]
  obtain ⟨j, hj, rfl⟩ := List.getElem_of_mem hx
  simp only [History.setState, List.length_modify] at hj
  simp only [History.setState, List.getElem_modify]
  split
  · next hij => subst hij; left; rw [hget]
  · exact Or.inr (List.getElem_mem _)

theorem History.setState_nums {h : History R} {i : Nat} {s : R} :
    (h.setState i s).entries.map (·.num) = h.entries.map (·.num) := by
  apply List.ext_getElem?
  intro j
  simp only [History.setState, List.getElem?_map, List.getElem?_modify]
  cases h.entries[j]? with
  | none => split <;> rfl
  | some e => split <;> rfl

theorem History.setState_last {h : History R} {i : Nat} {s : R} :
    (h.setState i s).last.num = h.last.num := by
  have hnums := congrArg List.getLast? (History.setState_nums (h := h) (i := i) (s := s))
  rw [List.getLast?_map, List.getLast?_map, List.getLast?_eq_some_getLast (h.setState i s).ne,
    List.getLast?_eq_some_getLast h.ne] at hnums
  exact Option.some.inj hnums

theorem Sorted.setState {h : History R} (hs : Sorted h) (i : Nat) (s : R) :
    Sorted (h.setState i s) := by
  have hmap : (h.entries.map (·.num)).Pairwise (· < ·) := List.pairwise_map.mpr hs
  rw [← History.setState_nums (i := i) (s := s)] at hmap
  exact List.pairwise_map.mp hmap

/-- The reference's copy, with the resource it takes over, and the history the
reference is left in. -/
def History.lend [State R] (h : History R) (i : Nat) : R × History R :=
  let pair := adoptFrom (clone (h.get i).state) (h.get i).state
  (pair.1, h.setState i pair.2)

/-- What one call of `receive` does to the history. -/
inductive Received [State R] (r : Receiver R) (now oldNum newNum throwawayNum : Nat)
    (diff : Bytes) : History R → Except String RecvOutcome → Prop
  | refused (hwhy : r.receivedStates.holds newNum = true ∨
        r.receivedStates.holds oldNum = false) :
      Received r now oldNum newNum throwawayNum diff r.receivedStates (.ok .ignored)
  | culled (hnew : r.receivedStates.holds newNum = false)
      (hold : r.receivedStates.holds oldNum = true)
      (hwhy : (r.receivedStates.cull throwawayNum).holds oldNum = false ∨
        RECEIVED_STATES_MAX < (r.receivedStates.cull throwawayNum).length) :
      Received r now oldNum newNum throwawayNum diff
        (r.receivedStates.cull throwawayNum) (.ok .ignored)
  | malformed (i : Nat) (hi : (r.receivedStates.cull throwawayNum).position oldNum = some i)
      (error : String) :
      Received r now oldNum newNum throwawayNum diff
        ((r.receivedStates.cull throwawayNum).lend i).2 (.error error)
  | filed (hnew : r.receivedStates.holds newNum = false) (i : Nat)
      (hi : (r.receivedStates.cull throwawayNum).position oldNum = some i) (state : R)
      (happly : (if diff.isEmpty then .ok ((r.receivedStates.cull throwawayNum).lend i).1
        else applyString ((r.receivedStates.cull throwawayNum).lend i).1 diff) = .ok state)
      (h' : History R) (hsorted : Sorted h')
      (hmem : ∀ x, x ∈ h'.entries ↔ x = ⟨now, newNum, state⟩ ∨
        x ∈ ((r.receivedStates.cull throwawayNum).lend i).2.entries)
      (outcome : RecvOutcome)
      (hwhere : (outcome = .newState newNum ∧ r.receivedStates.last.num < newNum ∧
          h'.last = ⟨now, newNum, state⟩) ∨
        (outcome = .outOfOrderState newNum ∧ newNum < r.receivedStates.last.num ∧
          h'.last.num = r.receivedStates.last.num)) :
      Received r now oldNum newNum throwawayNum diff h' (.ok outcome)

theorem Receiver.receive_cases [State R] {r : Receiver R} (hs : Sorted r.receivedStates)
    (now oldNum newNum throwawayNum : Nat) (diff : Bytes) :
    Received r now oldNum newNum throwawayNum diff
        (r.receive now oldNum newNum throwawayNum diff).1.receivedStates
        (r.receive now oldNum newNum throwawayNum diff).2 ∧
      (r.receive now oldNum newNum throwawayNum diff).1.lastReceiverState
        = r.lastReceiverState := by
  unfold Receiver.receive
  split
  · next hnew => exact ⟨.refused (Or.inl hnew), rfl⟩
  next hnew =>
  split
  · next hold => exact ⟨.refused (Or.inr (by simpa using hold)), rfl⟩
  next hold =>
  rw [Bool.not_eq_true] at hnew
  rw [Bool.not_eq_true', Bool.not_eq_false] at hold
  have hcull : (r.processThrowawayUntil throwawayNum).receivedStates
      = r.receivedStates.cull throwawayNum := rfl
  have harm : ((r.processThrowawayUntil throwawayNum).armQuench now).receivedStates
        = r.receivedStates.cull throwawayNum ∧
      ((r.processThrowawayUntil throwawayNum).armQuench now).lastReceiverState
        = r.lastReceiverState := by
    unfold Receiver.armQuench
    split <;> exact ⟨rfl, rfl⟩
  simp only [hcull]
  split
  · next hi => exact ⟨.culled hnew hold (Or.inl (History.position_none hi)), rfl⟩
  next i hi =>
  split
  · next hq =>
      simp only [Receiver.quenched, hcull, Bool.and_eq_true, decide_eq_true_eq] at hq
      exact ⟨.culled hnew hold (Or.inr hq.1), rfl⟩
  simp only [harm.1]
  split
  · next e happly => exact ⟨.malformed i hi e, harm.2⟩
  next state happly =>
  have hlent : Sorted ((r.receivedStates.cull throwawayNum).lend i).2 :=
    (hs.cull throwawayNum).setState i _
  have hlast : ((r.receivedStates.cull throwawayNum).lend i).2.last.num
      = r.receivedStates.last.num := by
    rw [History.lend, History.setState_last, History.cull_last]
  obtain ⟨hsorted, hmem, hgot, hwhere⟩ := file_spec
    (r := { (r.processThrowawayUntil throwawayNum).armQuench now with
      receivedStates := ((r.receivedStates.cull throwawayNum).lend i).2 })
    (e := ⟨now, newNum, state⟩) hlent (by
      intro x hx hxn
      have hnums : x.num ∈ (r.receivedStates.cull throwawayNum).entries.map (·.num) := by
        rw [← History.setState_nums]; exact List.mem_map_of_mem hx
      obtain ⟨y, hy, hyn⟩ := List.mem_map.mp hnums
      have := History.holds_iff.mpr ⟨y, (History.mem_cull.mp hy).1, hyn.trans hxn⟩
      rw [hnew] at this
      cases this)
  refine ⟨.filed hnew i hi state happly _ hsorted hmem _ ?_, hgot.trans harm.2⟩
  rw [← hlast]
  rcases hwhere with ⟨hout, hlt, hl⟩ | ⟨hout, hlt, hl⟩
  · exact Or.inl ⟨hout, hlt, hl⟩
  · exact Or.inr ⟨hout, hlt, congrArg (·.num) hl⟩

theorem Received.last_le [State R] {r : Receiver R} {now oldNum newNum throwawayNum : Nat}
    {diff : Bytes} {h' : History R} {outcome : Except String RecvOutcome}
    (h : Received r now oldNum newNum throwawayNum diff h' outcome) :
    r.receivedStates.last.num ≤ h'.last.num := by
  cases h with
  | refused _ => exact Nat.le_refl _
  | culled _ _ _ => exact Nat.le_of_eq (by rw [History.cull_last])
  | malformed i hi _ =>
      exact Nat.le_of_eq (by rw [History.lend, History.setState_last, History.cull_last])
  | filed _ i hi state _ _ _ _ _ hwhere =>
      rcases hwhere with ⟨-, hlt, hl⟩ | ⟨-, -, hl⟩
      · rw [hl]
        exact Nat.le_of_lt hlt
      · exact Nat.le_of_eq hl.symm

/-- Rationalizing the received history renumbers nothing. -/
theorem Receiver.getRemoteDiff_num [State R] {r : Receiver R} :
    r.getRemoteDiff.1.receivedStates.last.num = r.receivedStates.last.num := by
  unfold Receiver.getRemoteDiff
  by_cases hpre : hasPrefix R = true
  · simp only [if_pos hpre, History.mapState_last]
  · simp only [if_neg hpre]

end Morsh
