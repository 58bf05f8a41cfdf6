import Mathlib.Data.List.Dedup
import Mathlib.Data.List.Perm.Basic
import Morsh.Proofs.Pacing

/-!
# The history a sender keeps

The order of the entries is the invariant of every sender; what is added here is
that the index of the assumed state stays inside, and which entries an eviction
leaves alone. Acknowledgments are then shown to be the fold of an operation that
commutes and repeats itself: what is left is decided by the greatest number that
was held.

An acknowledgment of a number that is held culls below it, any other does nothing,
and of two the greater one decides; so acknowledging is an operation that commutes
and repeats itself, and folding it over a list depends on the set of the list
only. That is a fact about folds and is stated as one.

For the index there are two moments: the timers aim it at the first entry or the
last, and recording a state may push one entry and drop another from the middle.
`addSentState_pointed` says that the index then names the same entry as before,
and `chosen` is the sender at that point, between aiming and recording.
-/

namespace Morsh

open State

variable {E S : Type}

/-! ## Acknowledgments -/

namespace History

variable {h : History S} {n : Nat}

theorem position_get (hex : ∃ e ∈ h.entries, e.num = n) :
    (h.get ((h.position n).getD 0)).num = n := by
  obtain ⟨e, he, hn⟩ := hex
  have hsome : (h.position n).isSome = true := by
    rw [position, List.findIdx?_isSome, List.any_eq_true]
    exact ⟨e, he, by simpa using hn⟩
  obtain ⟨i, hi⟩ := Option.isSome_iff_exists.mp hsome
  obtain ⟨hlt, hnum, -⟩ := List.findIdx?_eq_some_iff_getElem.mp hi
  rw [hi, Option.getD_some, get, List.getD_eq_getElem?_getD, List.getElem?_eq_getElem hlt]
  simpa using hnum

theorem position_eq_none (hnone : ∀ e ∈ h.entries, e.num ≠ n) : h.position n = none := by
  rw [position, List.findIdx?_eq_none_iff]
  intro e he
  simpa using hnone e he

theorem position_first : h.position h.first.num = some 0 := by
  obtain ⟨entries, ne⟩ := h
  cases entries with
  | nil => exact absurd rfl ne
  | cons e rest => simp [position, first, List.findIdx?_cons]

theorem position_lt (h : History S) (n : Nat) : (h.position n).getD 0 < h.length := by
  cases hi : h.position n with
  | none => exact h.length_pos
  | some i => exact (List.findIdx?_eq_some_iff_getElem.mp hi).1

theorem ext_entries {h' : History S} (hentries : h.entries = h'.entries) : h = h' := by
  cases h
  cases h'
  cases hentries
  rfl

theorem retainFrom_of_holds (hn : h.holds n = true) :
    (h.retainFrom n).entries = h.entries.filter fun e => n ≤ e.num := by
  obtain ⟨e, he, hnum⟩ := holds_iff.mp hn
  exact retainFrom_entries ⟨e, he, Nat.le_of_eq hnum.symm⟩

theorem holds_retainFrom {m : Nat} (hn : h.holds n = true) :
    (h.retainFrom n).holds m = true ↔ h.holds m = true ∧ n ≤ m := by
  rw [holds_iff, holds_iff, retainFrom_of_holds hn]
  constructor
  · rintro ⟨e, he, rfl⟩
    rw [List.mem_filter, decide_eq_true_iff] at he
    exact ⟨⟨e, he.1, rfl⟩, he.2⟩
  · rintro ⟨⟨e, he, rfl⟩, hle⟩
    exact ⟨e, List.mem_filter.mpr ⟨he, by simpa using hle⟩, rfl⟩

theorem retainFrom_retainFrom {m : Nat} (hn : h.holds n = true) (hm : h.holds m = true)
    (hle : n ≤ m) : (h.retainFrom n).retainFrom m = h.retainFrom m := by
  refine ext_entries ?_
  rw [retainFrom_of_holds ((holds_retainFrom hn).mpr ⟨hm, hle⟩), retainFrom_of_holds hn,
    retainFrom_of_holds hm, List.filter_filter]
  refine List.filter_congr fun e _ => ?_
  rw [Bool.and_eq_left_iff_imp, decide_eq_true_iff, decide_eq_true_iff]
  exact fun h => Nat.le_trans hle h

theorem retainFrom_first {m : Nat} (hm : h.holds m = true) (hle : m ≤ h.first.num) :
    (h.retainFrom m).first = h.first := by
  have hent := retainFrom_of_holds hm
  obtain ⟨entries, ne⟩ := h
  cases entries with
  | nil => exact absurd rfl ne
  | cons e rest =>
      have hkeep : decide (m ≤ e.num) = true := by simpa [first] using hle
      simp only [List.filter_cons, hkeep, if_true] at hent
      simp only [first, hent, List.head_cons]

end History

namespace TransportSender

variable {s : TransportSender S} {n m : Nat}

theorem ack_of_not_holds (h : s.sentStates.holds n = false) :
    s.processAcknowledgmentThrough n = s := by
  rw [processAcknowledgmentThrough, h]
  rfl

theorem ack_of_holds (h : s.sentStates.holds n = true) :
    s.processAcknowledgmentThrough n = { s with
      sentStates := s.sentStates.retainFrom n
      assumedReceiverState := ((s.sentStates.retainFrom n).position
        (s.sentStates.get s.assumedReceiverState).num).getD 0 } := by
  rw [processAcknowledgmentThrough, h]
  rfl

/-- Of two numbers that are held the greater one decides. The entry assumed to be
received is found again under its number, or it is gone and the first entry stands
in for it; the order of the two does not matter to either. -/
theorem ack_ack (hn : s.sentStates.holds n = true) (hm : s.sentStates.holds m = true) :
    (s.processAcknowledgmentThrough n).processAcknowledgmentThrough m
      = s.processAcknowledgmentThrough (max n m) := by
  by_cases hle : n ≤ m
  · rw [Nat.max_eq_right hle, ack_of_holds hm]
    have hheld : (s.sentStates.retainFrom n).holds m = true :=
      (History.holds_retainFrom hn).mpr ⟨hm, hle⟩
    rw [ack_of_holds hn, ack_of_holds hheld]
    simp only [History.retainFrom_retainFrom hn hm hle]
    congr 1
    -- the assumed entry is still there, or the first one stands in for it
    generalize ha : (s.sentStates.get s.assumedReceiverState).num = a
    by_cases hkept : n ≤ a
    · have hthere : ∃ e ∈ (s.sentStates.retainFrom n).entries, e.num = a := by
        rw [History.retainFrom_of_holds hn]
        exact ⟨_, List.mem_filter.mpr ⟨History.get_mem _ _, by rw [ha]; simpa using hkept⟩, ha⟩
      rw [History.position_get hthere]
    · have hgone : ∀ k, n ≤ k → s.sentStates.holds k = true →
          (s.sentStates.retainFrom k).position a = none := by
        intro k hk hholds
        refine History.position_eq_none fun e he hnum => ?_
        rw [History.retainFrom_of_holds hholds, List.mem_filter, decide_eq_true_iff] at he
        omega
      rw [hgone n (Nat.le_refl n) hn, hgone m hle hm, Option.getD_none, History.get_zero]
      by_cases habove : m ≤ (s.sentStates.retainFrom n).first.num
      · have hfirst := History.retainFrom_first hheld habove
        rw [History.retainFrom_retainFrom hn hm hle] at hfirst
        rw [← hfirst, History.position_first, Option.getD_some]
      · rw [History.position_eq_none, Option.getD_none]
        intro e he hnum
        rw [History.retainFrom_of_holds hm, List.mem_filter, decide_eq_true_iff] at he
        omega
  · have hlt : m < n := Nat.not_le.mp hle
    rw [Nat.max_eq_left (Nat.le_of_lt hlt)]
    refine ack_of_not_holds ?_
    rw [ack_of_holds hn, Bool.eq_false_iff]
    intro hheld
    exact hle ((History.holds_retainFrom hn).mp hheld).2

theorem ack_keeps_unheld (hm : s.sentStates.holds m = false) :
    (s.processAcknowledgmentThrough n).processAcknowledgmentThrough m
      = s.processAcknowledgmentThrough n := by
  refine ack_of_not_holds ?_
  cases hn : s.sentStates.holds n with
  | false => rw [ack_of_not_holds hn, hm]
  | true =>
      rw [ack_of_holds hn, Bool.eq_false_iff]
      intro hheld
      rw [((History.holds_retainFrom hn).mp hheld).1] at hm
      cases hm

theorem ack_comm (s : TransportSender S) (n m : Nat) :
    (s.processAcknowledgmentThrough n).processAcknowledgmentThrough m
      = (s.processAcknowledgmentThrough m).processAcknowledgmentThrough n := by
  cases hn : s.sentStates.holds n with
  | false => rw [ack_keeps_unheld hn, ack_of_not_holds hn]
  | true =>
      cases hm : s.sentStates.holds m with
      | false => rw [ack_keeps_unheld hm, ack_of_not_holds hm]
      | true => rw [ack_ack hn hm, ack_ack hm hn, Nat.max_comm]

theorem ack_idem (s : TransportSender S) (n : Nat) :
    (s.processAcknowledgmentThrough n).processAcknowledgmentThrough n
      = s.processAcknowledgmentThrough n := by
  cases hn : s.sentStates.holds n with
  | false => rw [ack_keeps_unheld hn]
  | true => rw [ack_ack hn hn, Nat.max_self]

end TransportSender

/-- A fold of an operation that commutes and repeats itself depends only on
which elements there are. -/
theorem foldl_eq_of_mem_iff {α β : Type} [DecidableEq α] {f : β → α → β}
    (hcomm : ∀ b x y, f (f b x) y = f (f b y) x) (hidem : ∀ b x, f (f b x) x = f b x)
    {l l' : List α} (h : ∀ x, x ∈ l ↔ x ∈ l') (b : β) : l.foldl f b = l'.foldl f b := by
  have habsorb : ∀ (l : List α) (b : β) (x : α), x ∈ l → l.foldl f (f b x) = l.foldl f b := by
    intro l
    induction l with
    | nil => exact fun _ _ hx => absurd hx List.not_mem_nil
    | cons y l ih =>
        intro b x hx
        rw [List.foldl_cons, List.foldl_cons]
        by_cases hxy : x = y
        · rw [hxy, hidem]
        · rw [hcomm, ih _ _ ((List.mem_cons.mp hx).resolve_left hxy)]
  have hdedup : ∀ (l : List α) (b : β), l.dedup.foldl f b = l.foldl f b := by
    intro l
    induction l with
    | nil => exact fun _ => rfl
    | cons x l ih =>
        intro b
        by_cases hx : x ∈ l
        · rw [List.dedup_cons_of_mem hx, ih, List.foldl_cons, habsorb l b x hx]
        · rw [List.dedup_cons_of_notMem hx, List.foldl_cons, List.foldl_cons, ih]
  have hperm : l.dedup.Perm l'.dedup :=
    (List.perm_ext_iff_of_nodup (List.nodup_dedup l) (List.nodup_dedup l')).mpr fun x => by
      rw [List.mem_dedup, List.mem_dedup, h]
  rw [← hdedup l, ← hdedup l']
  exact hperm.foldl_eq' (fun x _ y _ b => hcomm b x y) b

/-- The order of acknowledgments and how often each is repeated make no
difference to the sender. -/
theorem TransportSender.acks_in_any_order (s : TransportSender S) (nums nums' : List Nat)
    (h : ∀ n, n ∈ nums ↔ n ∈ nums') :
    nums.foldl processAcknowledgmentThrough s = nums'.foldl processAcknowledgmentThrough s :=
  foldl_eq_of_mem_iff ack_comm ack_idem h s

/-- A sender with entries 0 to 3, holding 3 to be the receiver's. -/
def fourSent : TransportSender UserStream :=
  { (TransportSender.new 0 .new : TransportSender UserStream) with
    sentStates := ((History.single ⟨0, 0, .new⟩).push ⟨20, 1, .new⟩ |>.push ⟨40, 2, .new⟩).push
      ⟨60, 3, .new⟩
    assumedReceiverState := 3 }

theorem TransportSender.acks_in_any_order_four :
    ([1, 9, 2, 1].foldl processAcknowledgmentThrough fourSent).sentStates.entries.map (·.num)
      = [2, 3] ∧
    [1, 9, 2, 1].foldl processAcknowledgmentThrough fourSent
      = [2, 1, 9].foldl processAcknowledgmentThrough fourSent :=
  ⟨by decide, acks_in_any_order fourSent _ _ fun n => by simp only [List.mem_cons]; tauto⟩

/-! ## The entry the diff is taken from -/

namespace TransportSender

variable [State S] {s : TransportSender S} {now timeout srttMs n : Nat} {chaff diff : Bytes}

/-- The index of the assumed state stays inside the history. -/
def Pointed (s : TransportSender S) : Prop :=
  s.assumedReceiverState < s.sentStates.length

omit [State S] in
theorem Aimed.pointed (h : s.Aimed) : s.Pointed := by
  have hpos : 0 < s.sentStates.length := s.sentStates.length_pos
  unfold Pointed
  rcases h with h | h <;> omega

omit [State S] in
/-- The entry `add_sent_state` drops when the push outgrows the cap. -/
def victim (s : TransportSender S) : Nat := s.sentStates.length + 1 - 16

omit [State S] in
theorem addSentState_full {e : TimestampedState S} (hfull : s.sentStates.length = SENT_STATES_MAX) :
    (s.addSentState e.timestamp e.num e.state).sentStates.entries
      = (s.sentStates.entries ++ [e]).eraseIdx s.victim := by
  have hlen : (s.sentStates.push e).length = s.sentStates.length + 1 := History.push_length e
  rw [SENT_STATES_MAX] at hfull
  rw [addSentState_frame.1, History.evict, if_pos (by rw [hlen, hfull]; decide),
    History.remove_entries (by rw [hlen, hfull]; decide), History.push_entries, hlen, victim]

omit [State S] in
theorem addSentState_free {e : TimestampedState S} (hfree : s.sentStates.length < SENT_STATES_MAX) :
    s.addSentState e.timestamp e.num e.state = { s with sentStates := s.sentStates.push e } := by
  unfold addSentState
  exact if_neg (by rw [History.push_length]; exact Nat.not_lt.mpr hfree)

omit [State S] in
theorem addSentState_assumed_le {t : Nat} {st : S} :
    (s.addSentState t n st).assumedReceiverState ≤ s.assumedReceiverState := by
  unfold addSentState
  simp only []
  split
  · simp only []
    split
    · exact Nat.sub_le _ _
    · exact Nat.le_refl _
  · exact Nat.le_refl _

omit [State S] in
theorem addSentState_pointed {e : TimestampedState S} (h : s.Pointed)
    (hsize : s.sentStates.length ≤ SENT_STATES_MAX) :
    (s.addSentState e.timestamp e.num e.state).Pointed := by
  unfold Pointed at h ⊢
  rcases Nat.lt_or_eq_of_le hsize with hfree | hfull
  · rw [addSentState_free hfree, History.push_length]
    exact Nat.lt_succ_of_lt h
  · have hlen : (s.addSentState e.timestamp e.num e.state).sentStates.length
        = s.sentStates.length := by
      simp only [SENT_STATES_MAX] at hfull
      simp only [History.length] at hfull ⊢
      rw [addSentState_full hfull, List.length_eraseIdx, List.length_append, List.length_singleton,
        if_pos (by unfold victim History.length; omega)]
      omega
    rw [hlen]
    exact Nat.lt_of_le_of_lt addSentState_assumed_le h

/-- The sender `tick` emits from: the timers are set and the entry to take the
diff from is chosen. -/
def chosen (s : TransportSender S) (now timeout srttMs : Nat) : TransportSender S :=
  let t := s.calculateTimers now timeout srttMs
  (t.attemptProspectiveResendOptimization
    (diffFrom t.currentState (t.sentStates.get t.assumedReceiverState).state)).1

theorem calculateTimers_aimed {clock : Nat} (hinv : SenderInv clock s) :
    (s.calculateTimers now timeout srttMs).Aimed := by
  rw [Aimed, calculateTimers_frame.1, rationalizeStates_frame.2.2.2.2]
  exact calculateTimers_assumed hinv.times

theorem chosen_spec {clock : Nat} (hinv : SenderInv clock s) :
    Quiet (s.calculateTimers now timeout srttMs) (s.chosen now timeout srttMs) ∧
      (s.chosen now timeout srttMs).Aimed := by
  obtain ⟨a, hres, hquiet, -, haim⟩ := prospectiveResend_spec (calculateTimers_aimed hinv)
  have hchosen : s.chosen now timeout srttMs = a := congrArg Prod.fst hres
  rw [hchosen]
  exact ⟨hquiet, haim⟩

theorem chosen_length {clock : Nat} (hinv : SenderInv clock s) :
    (s.chosen now timeout srttMs).sentStates.length = s.sentStates.length := by
  rw [(chosen_spec hinv).1.sentStates, calculateTimers_frame.1, rationalizeStates_frame.2.2.2.2]

theorem sendEmptyAck_pointed (h : s.Pointed) (hsize : s.sentStates.length ≤ SENT_STATES_MAX) :
    (s.sendEmptyAck now chaff).1.Pointed := by
  have hpushed := addSentState_pointed (e := ⟨now, if s.shutdownInProgress then SHUTDOWN_NUM
    else wrappingSucc s.sentStateLast, clone s.currentState⟩) h hsize
  exact hpushed

theorem tick_pointed {clock : Nat} (hinv : SenderInv clock s) {remote : Bool} :
    (s.tick now timeout srttMs remote chaff).1.Pointed := by
  have htimers := @calculateTimers_aimed _ _ s now timeout srttMs _ hinv
  have hlength := @chosen_length _ _ s now timeout srttMs _ hinv
  obtain ⟨a, hres, -, -, haim⟩ := prospectiveResend_spec htimers
  have hchosen : s.chosen now timeout srttMs = a := congrArg Prod.fst hres
  rw [hchosen] at hlength
  unfold tick
  simp only [hres]
  split
  · exact htimers.pointed
  · split
    · exact htimers.pointed
    · split
      · have hack := @sendEmptyAck_pointed _ _ a now chaff haim.pointed (hlength ▸ hinv.size)
        by_cases hdue : now ≥ (s.calculateTimers now timeout srttMs).nextAckTime
        · simp only [hdue, decide_true, if_true]
          split <;> exact hack
        · simp only [hdue, decide_false, Bool.false_eq_true, if_false]
          split <;> exact haim.pointed
      · -- a packet leaves the index at the entry it recorded
        exact Nat.sub_lt (History.length_pos _) Nat.one_pos

end TransportSender

/-! ## Runs -/

/-- What holds of the history in every state of a run. -/
structure SentHistory (s : TransportSender S) : Prop where
  nonempty : s.sentStates.entries ≠ []
  bounded : s.sentStates.length ≤ SENT_STATES_MAX
  nums : s.sentStates.entries.Pairwise NumOrder
  times : s.sentStates.entries.Pairwise fun a b => a.timestamp ≤ b.timestamp
  pointed : s.Pointed

/-- The push that outgrows the cap drops one entry: neither the first nor the
last nor the one the index names, and the index follows that one. -/
structure Spares (s : TransportSender S) (e : TimestampedState S) : Prop where
  dropped : (s.addSentState e.timestamp e.num e.state).sentStates.entries
    = (s.sentStates.entries ++ [e]).eraseIdx s.victim
  first : 0 < s.victim
  last : s.victim < s.sentStates.length - 1
  assumed : s.victim ≠ s.assumedReceiverState
  followed : (s.addSentState e.timestamp e.num e.state).sentStates.get
      (s.addSentState e.timestamp e.num e.state).assumedReceiverState
    = s.sentStates.get s.assumedReceiverState

theorem TransportSender.Aimed.spares {s : TransportSender S} (haim : s.Aimed)
    (hfull : s.sentStates.length = SENT_STATES_MAX) (e : TimestampedState S) : Spares s e := by
  have hfollow := @addSentState_get _ s e.num e.timestamp e.state (Nat.le_of_eq hfull) haim
  have hdrop := addSentState_full (e := e) hfull
  rw [SENT_STATES_MAX] at hfull
  have hvictim : s.victim = 17 := by rw [victim, hfull]
  refine ⟨hdrop, ?_, ?_, ?_, hfollow⟩
  · rw [hvictim]
    decide
  · rw [hvictim, hfull]
    decide
  · rw [hvictim]
    rcases haim with h | h <;> omega

namespace SenderRun

variable [State S] {act : S → E → S} {r r' : SenderRun S}

theorem pointed_step {op : SenderOp E} (hinv : SenderInv r.clock r.sender)
    (h : r.sender.Pointed) (hstep : step act r op = some r') : r'.sender.Pointed := by
  cases op with
  | tick now timeout srttMs remote chaff =>
      simp only [step] at hstep
      split at hstep
      · cases hstep
      · cases hstep
        exact TransportSender.tick_pointed hinv
  | waitTime now timeout srttMs remote =>
      simp only [step] at hstep
      split at hstep
      · cases hstep
      · cases hstep
        have hset : (r.sender.waitTimeMs now timeout srttMs remote).1
            = r.sender.calculateTimers now timeout srttMs := by
          unfold TransportSender.waitTimeMs
          simp only []
          split <;> rfl
        simp only [hset]
        exact (TransportSender.calculateTimers_aimed hinv).pointed
  | acknowledge num =>
      cases hstep
      simp only [TransportSender.Pointed]
      cases hn : r.sender.sentStates.holds num with
      | false => rwa [TransportSender.ack_of_not_holds hn]
      | true =>
          rw [TransportSender.ack_of_holds hn]
          exact History.position_lt _ _
  | startShutdown now =>
      cases hstep
      simp only [TransportSender.Pointed, TransportSender.startShutdown]
      split <;> exact h
  | edit _ | setAckNum _ | setDataAck | remoteHeard _ =>
      cases hstep
      exact h

/-- What a tick makes of the history it found: nothing, a new stamp on the last
entry, or a new entry. -/
theorem tick_history {s : TransportSender S} {clock : Nat} {now : Reading}
    (hinv : SenderInv clock s) (hnow : clock ≤ now.val) (timeout srttMs : Nat) (remote : Bool)
    (chaff : Bytes) :
    (s.tick now timeout srttMs remote chaff).1.sentStates
        = (s.chosen now timeout srttMs).sentStates ∨
      (s.tick now timeout srttMs remote chaff).1.sentStates
        = (s.chosen now timeout srttMs).sentStates.stampLast now ∨
      ∃ e : TimestampedState S, e.timestamp = now.val ∧
        (s.tick now timeout srttMs remote chaff).1.sentStates
          = ((s.chosen now timeout srttMs).addSentState e.timestamp e.num e.state).sentStates := by
  have hchosen := (@TransportSender.chosen_spec _ _ s now timeout srttMs _ hinv).1.sentStates
  obtain ⟨-, -, hcase⟩ :=
    TransportSender.tick_cases hinv hnow now.isLt timeout srttMs remote chaff
  rcases hcase with ⟨hquiet, -⟩ | ⟨inst, ref, k, -, hem⟩
  · exact Or.inl (by rw [hquiet.sentStates, hchosen])
  · have hrec := hem.recorded
    generalize (s.tick now timeout srttMs remote chaff).1.sentStates = h at hrec ⊢
    simp only [TransportSender.addSentState_frame.1, hchosen]
    cases hrec with
    | again _ _ _ => exact Or.inr (Or.inl rfl)
    | fresh _ => exact Or.inr (Or.inr ⟨⟨now, k, clone _⟩, rfl, rfl⟩)

/-- Only an acknowledgment of a number that is held moves the floor, and it moves
it to that number. Ticks and waits may cut a prefix off the states, but they
renumber nothing. -/
theorem first_num_step {op : SenderOp E} (hinv : SenderInv r.clock r.sender)
    (hstep : step act r op = some r')
    (hmoved : r'.sender.sentStates.first.num ≠ r.sender.sentStates.first.num) :
    ∃ n, op = .acknowledge n ∧ r.sender.sentStates.holds n = true ∧
      r'.sender.sentStates.first.num = n := by
  cases op with
  | tick now timeout srttMs remote chaff =>
      simp only [step] at hstep
      split at hstep
      · cases hstep
      · next hnow =>
          cases hstep
          exact absurd (TransportSender.tick_floor hinv (Nat.not_lt.mp hnow) now.isLt).1 hmoved
  | waitTime now timeout srttMs remote =>
      simp only [step] at hstep
      split at hstep
      · cases hstep
      · cases hstep
        exact absurd TransportSender.waitTimeMs_floor.1 hmoved
  | acknowledge num =>
      cases hstep
      rcases processAcknowledgmentThrough_cases hinv num with h | ⟨hheld, hsent, -, hfirst, -⟩
      · exact absurd (by rw [h]) hmoved
      · exact ⟨num, rfl, hheld, by rw [hsent, hfirst]⟩
  | startShutdown now =>
      cases hstep
      refine absurd ?_ hmoved
      unfold TransportSender.startShutdown
      simp only []
      split <;> rfl
  | edit _ | setAckNum _ | setDataAck | remoteHeard _ =>
      cases hstep
      exact absurd rfl hmoved

theorem pointed_run {ops : List (SenderOp E)} {now : Reading} {init : S}
    (hrun : Run.run (step act) (start now init) ops = some r) : r.sender.Pointed :=
  (Run.run_invariant (I := fun r => Orderly r ∧ r.sender.Pointed)
    (fun _ _ _ h hstep => ⟨h.1.step hstep, pointed_step h.1.inv h.2 hstep⟩)
    ⟨.start now init, Nat.one_pos⟩ hrun).2

/-- The history of a sender in any state of any run: bounded, in order, with the
index inside; the walk over it stops at once or not at all; a tick that drops an
entry spares the ones that matter; and only an acknowledgment moves the floor. -/
theorem sent_history (act : S → E → S) (now : Reading) (init : S) (ops : List (SenderOp E))
    (r : SenderRun S) (hrun : Run.run (step act) (start now init) ops = some r) :
    SentHistory r.sender ∧
    (∀ now timeout,
      (r.sender.updateAssumedReceiverState now timeout).assumedReceiverState = 0 ∨
      (r.sender.updateAssumedReceiverState now timeout).assumedReceiverState
        = r.sender.sentStates.length - 1) ∧
    (∀ (now : Reading) timeout srttMs remote chaff, r.clock ≤ now.val →
      let s := r.sender.chosen now timeout srttMs
      let s' := (r.sender.tick now timeout srttMs remote chaff).1
      (s'.sentStates = s.sentStates ∨ s'.sentStates = s.sentStates.stampLast now ∨
        ∃ e : TimestampedState S, e.timestamp = now.val ∧
          s'.sentStates = (s.addSentState e.timestamp e.num e.state).sentStates) ∧
      (s.sentStates.length = SENT_STATES_MAX → ∀ e, Spares s e)) ∧
    (∀ op r', step act r op = some r' →
      r'.sender.sentStates.first.num ≠ r.sender.sentStates.first.num →
      ∃ n, op = .acknowledge n ∧ r.sender.sentStates.holds n = true) := by
  have hinv : SenderInv r.clock r.sender := ((Orderly.start now init).run hrun).inv
  refine ⟨⟨r.sender.sentStates.ne, hinv.size, hinv.nums, hinv.times, pointed_run hrun⟩, ?_, ?_, ?_⟩
  · intro now timeout
    have hwalk := @assumeWalk_eq _ now (timeout + ms ACK_DELAY_MS) _
      (hinv.times.sublist (List.tail_sublist _))
    rwa [List.length_tail] at hwalk
  · intro now timeout srttMs remote chaff hnow
    exact ⟨tick_history hinv hnow timeout srttMs remote chaff,
      (TransportSender.chosen_spec hinv).2.spares⟩
  · intro op r' hstep hmoved
    obtain ⟨n, hop, hheld, -⟩ := first_num_step hinv hstep hmoved
    exact ⟨n, hop, hheld⟩

end SenderRun

/-- A sender nobody answers, ticked until its history is full. -/
def neverAnswered : Option (SenderRun UserStream) :=
  Run.run (SenderRun.step UserStream.push) (SenderRun.start 0 .new)
    ((List.range 31).map fun i => .tick (Fin.ofNat _ (i * 3000000000)) 1000 20 true [])

theorem SenderRun.sent_history_never_answered :
    ∃ r, neverAnswered = some r ∧ r.sender.sentStates.length = SENT_STATES_MAX ∧
      (r.sender.tick 93000000000 1000 20 true []).1.sentStates.entries.map (·.num)
        = (List.range 33).eraseIdx 17 ∧
      SentHistory r.sender := by
  have heval : neverAnswered.map (fun r => (r.sender.sentStates.length,
      (r.sender.tick 93000000000 1000 20 true []).1.sentStates.entries.map (·.num)))
        = some (SENT_STATES_MAX, (List.range 33).eraseIdx 17) := by
    decide +kernel
  obtain ⟨r, hr, h⟩ := Option.map_eq_some_iff.mp heval
  exact ⟨r, hr, congrArg Prod.fst h, congrArg Prod.snd h, (sent_history _ _ _ _ _ hr).1⟩

end Morsh
