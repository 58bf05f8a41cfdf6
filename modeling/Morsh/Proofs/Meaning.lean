import Morsh.Proofs.SenderOps
import Morsh.Proofs.Reception
import Mathlib.Logic.Function.Basic

/-!
# What the histories mean

The two ends cut prefixes off their states at different times, so equal states
are not equal values. A `Meaning` reads a state in a frame as an abstract value:
for a queue the value is everything ever pushed and the frame is what has been
cut off; for a terminal the value is the state up to `state_equal` and there is
one frame. The frames of the two ends move independently of each other.

`vals` is the sender's assignment of values to state numbers. `SenderSynced`
says the sender's history is a part of it, `Carries` that an instruction on the
network turns the value of its old number into that of its new one, and
`ReceiverSynced` that everything the receiver holds is a part of it. One lemma
per operation keeps each of them.

The numbers may be announced again, for a state that equals the one sent before,
so that a number has one value is not for free: it is what `announced` shows, and
it needs that equal states have equal values. The laws a `Meaning` asks for are
those the trait documents, read at values: a clone has the value of its original,
a diff that is empty leads to the same value, and applying a diff to any state of
the old value gives one of the new value, in whatever frame.
-/

namespace Morsh

open State

/-- What the sender's numbering rests on. -/
structure Valuation (S : Type) [State S] (V : Type) where
  Frame : Type
  rep : Frame → S → V → Prop
  le : V → V → Prop
  le_refl : ∀ v, le v v
  le_trans : ∀ {a b c}, le a b → le b c → le a c
  clone : ∀ {f s v}, rep f s v → rep f (State.clone s) v
  equal : ∀ {f a b va vb}, rep f a va → rep f b vb → le vb va →
    stateEqual a b = true → va = vb
  trim : hasPrefix S = true → ∀ {f k vk}, rep f k vk →
    ∃ g, ∀ s v, rep f s v → le vk v → rep g (subtract s k) v

structure Meaning (S : Type) [State S] (V : Type) extends Valuation S V where
  empty : ∀ {f a c va vc}, rep f a va → rep f c vc → le va vc → diffFrom c a = [] → va = vc
  apply : ∀ {f g a b c s va vc}, rep f a va → rep f c vc → le va vc → rep g b va →
    applyString b (diffFrom c a) = .ok s → rep g s vc
  adopt : ∀ {f s v}, rep f s v → rep f (adoptFrom (State.clone s) s).1 v ∧
    rep f (adoptFrom (State.clone s) s).2 v

variable {S V : Type} [State S] {vals vals' : Nat → Option V}

/-- The second assignment agrees with the first wherever that is defined. -/
def Extends (vals vals' : Nat → Option V) : Prop :=
  ∀ n v, vals n = some v → vals' n = some v

theorem Extends.refl (vals : Nat → Option V) : Extends vals vals := fun _ _ h => h

theorem Extends.trans {vals'' : Nat → Option V} (h : Extends vals vals')
    (h' : Extends vals' vals'') : Extends vals vals'' :=
  fun n v hv => h' n v (h n v hv)

theorem extends_update {n : Nat} {v : V} (h : vals n = none ∨ vals n = some v) :
    Extends vals (Function.update vals n (some v)) := by
  intro k w hk
  by_cases hkn : k = n
  · subst hkn
    rcases h with h | h
    · rw [h] at hk; cases hk
    · rw [Function.update_self, ← h, hk]
  · rw [Function.update_of_ne hkn, hk]

namespace Valuation

variable {m : Valuation S V}

/-- Every entry of the history has the value its number is assigned. -/
def Assigns (m : Valuation S V) (vals : Nat → Option V) (f : m.Frame) (h : History S) : Prop :=
  ∀ e ∈ h.entries, ∃ v, vals e.num = some v ∧ m.rep f e.state v

theorem Assigns.mono {f : m.Frame} {h : History S} (ha : m.Assigns vals f h)
    (hext : Extends vals vals') : m.Assigns vals' f h := by
  intro e he
  obtain ⟨v, hv, hrep⟩ := ha e he
  exact ⟨v, hext _ _ hv, hrep⟩

theorem Assigns.sub {f : m.Frame} {h h' : History S} (ha : m.Assigns vals f h)
    (hsub : ∀ e ∈ h'.entries, e ∈ h.entries) : m.Assigns vals f h' :=
  fun e he => ha e (hsub e he)

/-! ## The sender -/

structure SenderSynced (m : Valuation S V) (vals : Nat → Option V) (cur : V)
    (s : TransportSender S) : Prop where
  states : ∃ f, m.rep f s.currentState cur ∧ m.Assigns vals f s.sentStates
  /-- Later numbers have later values. -/
  mono : ∀ {a b va vb}, vals a = some va → vals b = some vb → a ≤ b → m.le va vb
  top : ∀ {a v}, vals a = some v → m.le v cur
  used : ∀ {a v}, vals a = some v → a ≤ s.sentStates.last.num
  /-- Once the shutdown number has been used, the state is final. -/
  final : ∀ {v}, vals SHUTDOWN_NUM = some v → v = cur

namespace SenderSynced

variable {cur : V} {s s' : TransportSender S} {clock now n : Nat}

theorem of_frame (hsync : m.SenderSynced vals cur s) (hsent : s'.sentStates = s.sentStates)
    (hcur : s'.currentState = s.currentState) : m.SenderSynced vals cur s' := by
  obtain ⟨f, hrep, hassign⟩ := hsync.states
  exact ⟨⟨f, by rw [hcur]; exact hrep, by rw [hsent]; exact hassign⟩, hsync.mono, hsync.top,
    by rw [hsent]; exact hsync.used, hsync.final⟩

theorem edit (hsync : m.SenderSynced vals cur s) {state : S} {cur' : V}
    (hrep : ∀ f, m.rep f s.currentState cur → m.rep f state cur') (hle : m.le cur cur')
    (hrun : vals SHUTDOWN_NUM = none) : m.SenderSynced vals cur' (s.setCurrentState state) := by
  obtain ⟨f, hcur, hassign⟩ := hsync.states
  refine ⟨⟨f, hrep f hcur, hassign⟩, hsync.mono, fun h => m.le_trans (hsync.top h) hle,
    hsync.used, fun h => ?_⟩
  rw [hrun] at h
  cases h

theorem running (hsync : m.SenderSynced vals cur s) (hinv : SenderInv clock s)
    (hshut : s.shutdownInProgress = false) : vals SHUTDOWN_NUM = none := by
  cases hv : vals SHUTDOWN_NUM with
  | none => rfl
  | some v =>
      have hle := hsync.used hv
      have hmax := hinv.last_le
      exact absurd (Nat.le_antisymm hmax hle) (hinv.running hshut)

/-- Trimming moves the frame and keeps every value. The prefix that is cut off is
common to all states, since all values are at or above the value of the first one.
-/
theorem rationalizeStates (hsync : m.SenderSynced vals cur s)
    (hnums : s.sentStates.entries.Pairwise NumOrder) :
    m.SenderSynced vals cur s.rationalizeStates := by
  obtain ⟨hnum, -⟩ := TransportSender.rationalizeStates_last (s := s)
  obtain ⟨f, hcur, hassign⟩ := hsync.states
  refine ⟨?_, hsync.mono, hsync.top, by rw [hnum]; exact hsync.used, hsync.final⟩
  unfold TransportSender.rationalizeStates
  split
  · exact ⟨f, hcur, hassign⟩
  · next hpre =>
      rw [Bool.not_eq_true', Bool.not_eq_false] at hpre
      obtain ⟨vk, hvk, hk⟩ := hassign _ (History.first_mem _)
      obtain ⟨g, hg⟩ := m.trim hpre (m.clone hk)
      refine ⟨g, hg _ _ hcur (hsync.top hvk), fun x hx => ?_⟩
      obtain ⟨e, he, rfl⟩ := History.mem_mapState.mp hx
      obtain ⟨v, hv, hrep⟩ := hassign e he
      exact ⟨v, hv, hg _ _ hrep (hsync.mono hvk hv (History.first_le_num hnums he))⟩

theorem calculateTimers (hsync : m.SenderSynced vals cur s)
    (hnums : s.sentStates.entries.Pairwise NumOrder) (now timeout srttMs : Nat) :
    m.SenderSynced vals cur (s.calculateTimers now timeout srttMs) := by
  obtain ⟨hsent, hcur, -, -⟩ := @TransportSender.calculateTimers_frame _ _ s now timeout srttMs
  exact (hsync.rationalizeStates hnums).of_frame hsent hcur

theorem ack (hsync : m.SenderSynced vals cur s) (hinv : SenderInv clock s) (n : Nat) :
    m.SenderSynced vals cur (s.processAcknowledgmentThrough n) := by
  rcases processAcknowledgmentThrough_cases hinv n with h | ⟨-, hsent, hmem, -, hlast⟩
  · rw [h]; exact hsync
  · obtain ⟨f, hcur, hassign⟩ := hsync.states
    refine ⟨⟨f, ?_, ?_⟩, hsync.mono, hsync.top, ?_, hsync.final⟩
    · rw [(processAcknowledgmentThrough_frame n).1]; exact hcur
    · rw [hsent]
      exact hassign.sub fun e he => ((hmem e).mp he).1
    · rw [hsent, hlast]; exact hsync.used

/-- The number a send announces has no value yet, or the current one. A number is
announced again only for a state that equals the last one sent, or once shutdown
has begun; a fresh number is above all that have been used. -/
theorem announced (hsync : m.SenderSynced vals cur s) (hinv : SenderInv now s)
    {h : History S} (hrec : Recorded s now n h) : vals n = none ∨ vals n = some cur := by
  cases hrec with
  | again hnum hequal hshut =>
      obtain ⟨f, hcur, hassign⟩ := hsync.states
      obtain ⟨v, hv, hrep⟩ := hassign _ s.sentStates.last_mem
      rw [← hnum] at hv
      cases hs : s.shutdownInProgress with
      | true =>
          rw [hshut hs] at hv ⊢
          exact Or.inr (hsync.final hv ▸ hv)
      | false => exact Or.inr (m.equal hcur hrep (hsync.top hv) (hequal hs) ▸ hv)
  | fresh hnum =>
      cases hv : vals n with
      | none => exact Or.inl rfl
      | some v =>
          have hused := hsync.used hv
          rcases hinv.fresh_order hnum s.sentStates.last_mem with hlt | ⟨-, hn⟩
          · omega
          · rw [hn] at hv
            exact Or.inr (hsync.final hv ▸ rfl)

theorem recorded_last {s : TransportSender S} (hinv : SenderInv now s) {h : History S}
    (hrec : Recorded s now n h) : h.last.num = n ∧ s.sentStates.last.num ≤ n := by
  cases hrec with
  | again hnum _ _ =>
      rw [History.stampLast_last]
      exact ⟨hnum.symm, by omega⟩
  | fresh hnum =>
      rw [History.evict_last, History.push_last]
      refine ⟨rfl, ?_⟩
      rcases hinv.fresh_order hnum s.sentStates.last_mem with hlt | ⟨h₁, h₂⟩ <;> omega

/-- Recording the current state assigns its value to the number announced. The
number is the last one then and its value the largest, so the order of the values
is kept. -/
theorem recorded (hsync : m.SenderSynced vals cur s) (hinv : SenderInv now s)
    (hrec : Recorded s now n s'.sentStates) (hcur' : s'.currentState = s.currentState) :
    m.SenderSynced (Function.update vals n (some cur)) cur s' := by
  have hext := extends_update (hsync.announced hinv hrec)
  obtain ⟨f, hcur, hassign⟩ := hsync.states
  have hval : ∀ {a v}, Function.update vals n (some cur) a = some v →
      a = n ∧ v = cur ∨ vals a = some v := by
    intro a v h
    by_cases ha : a = n
    · subst ha
      rw [Function.update_self] at h
      exact Or.inl ⟨rfl, (Option.some.inj h).symm⟩
    · rw [Function.update_of_ne ha] at h
      exact Or.inr h
  -- the number announced is the new last one and no smaller than the old one
  have hlast := recorded_last hinv hrec
  refine ⟨⟨f, hcur' ▸ hcur, ?_⟩, ?_, ?_, ?_, ?_⟩
  · generalize s'.sentStates = h' at hrec
    cases hrec with
    | again hnum _ _ =>
        intro e he
        obtain ⟨e', he', hn, hst⟩ := History.mem_stampLast he
        rw [hn, hst]
        exact hassign.mono hext e' he'
    | fresh hnum =>
        intro e he
        have hmem := History.evict_sublist.mem he
        rw [History.push_entries, List.mem_append, List.mem_singleton] at hmem
        rcases hmem with hold | rfl
        · exact hassign.mono hext e hold
        · exact ⟨cur, Function.update_self .., m.clone hcur⟩
  · intro a b va vb ha hb hab
    rcases hval hb with ⟨-, hvb⟩ | holdb
    · rw [hvb]
      rcases hval ha with ⟨-, hva⟩ | holda
      · rw [hva]; exact m.le_refl _
      · exact hsync.top holda
    · rcases hval ha with ⟨han, hva⟩ | holda
      · -- `b` is no smaller than the number announced, so it is that number
        have hle := hsync.used holdb
        have hbn : b = n := by omega
        rw [hbn] at hb
        rw [Function.update_self] at hb
        rw [hva, Option.some.inj hb]
        exact m.le_refl _
      · exact hsync.mono holda holdb hab
  · intro a v h
    rcases hval h with ⟨-, rfl⟩ | h
    · exact m.le_refl _
    · exact hsync.top h
  · intro a v h
    rw [hlast.1]
    rcases hval h with ⟨rfl, -⟩ | h
    · exact Nat.le_refl _
    · exact Nat.le_trans (hsync.used h) hlast.2
  · intro v h
    rcases hval h with ⟨-, rfl⟩ | h
    · rfl
    · exact hsync.final h

/-- A tick assigns at most the number it announces. -/
theorem tick_recorded (hsync : m.SenderSynced vals cur s) (hinv : SenderInv clock s)
    (hnow : clock ≤ now) (hrange : now < CLOCK_RANGE) (timeout srttMs : Nat) (remote : Bool)
    (chaff : Bytes) :
    ((s.tick now timeout srttMs remote chaff).2 = none ∧
      m.SenderSynced vals cur (s.tick now timeout srttMs remote chaff).1) ∨
    ∃ inst ref k, (s.tick now timeout srttMs remote chaff).2 = some inst ∧
      m.SenderSynced vals cur (s.calculateTimers now timeout srttMs) ∧
      SenderInv now (s.calculateTimers now timeout srttMs) ∧
      Emission (s.calculateTimers now timeout srttMs)
        (s.tick now timeout srttMs remote chaff).1 now inst ref k ∧
      (vals k = none ∨ vals k = some cur) ∧
      m.SenderSynced (Function.update vals k (some cur)) cur
        (s.tick now timeout srttMs remote chaff).1 := by
  have ht := hsync.calculateTimers hinv.nums now timeout srttMs
  obtain ⟨hinv', -, hcase⟩ :=
    TransportSender.tick_cases hinv hnow hrange timeout srttMs remote chaff
  rcases hcase with ⟨hq, hnone⟩ | ⟨inst, ref, k, hsome, hem⟩
  · exact Or.inl ⟨hnone, ht.of_frame hq.sentStates hq.current⟩
  · exact Or.inr ⟨inst, ref, k, hsome, ht, hinv', hem, ht.announced hinv' hem.recorded,
      ht.recorded hinv' hem.recorded hem.current⟩

theorem new (start : Nat) {init : S} {f : m.Frame} {v : V} (hrep : m.rep f init v) :
    m.SenderSynced (fun n => if n = 0 then some v else none) v
      (TransportSender.new start init) := by
  have hval : ∀ {a w}, (if a = 0 then some v else none) = some w → a = 0 ∧ w = v := by
    intro a w h
    split at h
    · next ha => exact ⟨ha, (Option.some.inj h).symm⟩
    · cases h
  refine ⟨⟨f, hrep, fun e he => ?_⟩, ?_, ?_, ?_, ?_⟩
  · rw [List.mem_singleton.mp he]
    exact ⟨v, rfl, m.clone hrep⟩
  · intro a b va vb ha hb _
    rw [(hval ha).2, (hval hb).2]
    exact m.le_refl _
  · intro a w h
    rw [(hval h).2]
    exact m.le_refl _
  · intro a w h
    rw [(hval h).1]
    exact Nat.zero_le _
  · intro w h
    exact (hval h).2

end SenderSynced

end Valuation

namespace Meaning

variable {m : Meaning S V}

/-- Applying these bytes to a state of value `va` gives one of value `vc`. -/
def Transfers (m : Meaning S V) (diff : Bytes) (va vc : V) : Prop :=
  (diff = [] → va = vc) ∧
    ∀ g b s, m.rep g b va → applyString b diff = .ok s → m.rep g s vc

/-- An instruction names two numbers and carries the value of the one to the
value of the other. -/
def Carries (m : Meaning S V) (vals : Nat → Option V) (inst : Instruction) : Prop :=
  ∃ a n diff va vn, inst.oldNum = some a ∧ inst.newNum = some n ∧ inst.diff = some diff ∧
    vals a = some va ∧ vals n = some vn ∧ m.Transfers diff va vn

theorem Carries.mono {inst : Instruction} (h : m.Carries vals inst)
    (hext : Extends vals vals') : m.Carries vals' inst := by
  obtain ⟨a, n, diff, va, vn, h₁, h₂, h₃, ha, hn, ht⟩ := h
  exact ⟨a, n, diff, va, vn, h₁, h₂, h₃, hext _ _ ha, hext _ _ hn, ht⟩

/-- An emitted instruction carries the value of the entry it was diffed
against to the current one. -/
theorem carries {s s' : TransportSender S} {cur : V} {now n : Nat}
    (hsync : m.SenderSynced vals cur s) (hinv : SenderInv now s)
    {inst : Instruction} {ref : TimestampedState S} (hem : Emission s s' now inst ref n) :
    m.Carries (Function.update vals n (some cur)) inst := by
  have hext := extends_update (hsync.announced hinv hem.recorded)
  obtain ⟨f, hcur, hassign⟩ := hsync.states
  obtain ⟨va, hva, hrep⟩ := hassign ref hem.ref_mem
  have hle := hsync.top hva
  exact ⟨ref.num, n, _, va, cur, hem.oldNum, hem.newNum, hem.diff, hext _ _ hva,
    Function.update_self .., m.empty hrep hcur hle,
    fun g b s hb hs => m.apply hrep hcur hle hb hs⟩

/-- A tick assigns at most the number it announces, and what it sends carries. -/
theorem sender_tick {s : TransportSender S} {cur : V} {clock now : Nat}
    (hsync : m.SenderSynced vals cur s) (hinv : SenderInv clock s)
    (hnow : clock ≤ now) (hrange : now < CLOCK_RANGE) (timeout srttMs : Nat) (remote : Bool)
    (chaff : Bytes) :
    ((s.tick now timeout srttMs remote chaff).2 = none ∧
      m.SenderSynced vals cur (s.tick now timeout srttMs remote chaff).1) ∨
    ∃ inst k, (s.tick now timeout srttMs remote chaff).2 = some inst ∧
      inst.newNum = some k ∧ (vals k = none ∨ vals k = some cur) ∧
      (s.tick now timeout srttMs remote chaff).1.sentStates.last.num = k ∧
      m.SenderSynced (Function.update vals k (some cur)) cur
        (s.tick now timeout srttMs remote chaff).1 ∧
      m.Carries (Function.update vals k (some cur)) inst := by
  rcases hsync.tick_recorded hinv hnow hrange timeout srttMs remote chaff with
    hnone | ⟨inst, ref, k, hsome, ht, hinv', hem, hval, hrec⟩
  · exact Or.inl hnone
  · exact Or.inr ⟨inst, k, hsome, hem.newNum, hval,
      (Valuation.SenderSynced.recorded_last hinv' hem.recorded).1, hrec,
      carries ht hinv' hem⟩

/-! ## The receiver -/

structure ReceiverSynced (m : Meaning S V) (vals : Nat → Option V) (got : V)
    (r : Receiver S) : Prop where
  sorted : Sorted r.receivedStates
  states : ∃ g, m.Assigns vals g r.receivedStates ∧ m.rep g r.lastReceiverState got
  /-- The state last handed out was filed under a number no newer than the
  newest one. -/
  handed : ∃ k, k ≤ r.receivedStates.last.num ∧ vals k = some got

namespace ReceiverSynced

variable {got : V} {r : Receiver S}

theorem mono (hsync : m.ReceiverSynced vals got r) (hext : Extends vals vals') :
    m.ReceiverSynced vals' got r := by
  obtain ⟨hsorted, ⟨g, hassign, hgot⟩, k, hk, hvk⟩ := hsync
  exact ⟨hsorted, ⟨g, hassign.mono hext, hgot⟩, k, hk, hext _ _ hvk⟩

theorem lend {g : m.Frame} {h : History S} {i num : Nat} (hassign : m.Assigns vals g h)
    (hi : h.position num = some i) :
    m.Assigns vals g (h.lend i).2 ∧ ∃ v, vals num = some v ∧ m.rep g (h.lend i).1 v := by
  obtain ⟨hmem, hnum, hlt⟩ := History.position_some hi
  obtain ⟨v, hv, hrep⟩ := hassign _ hmem
  obtain ⟨hcopy, hsource⟩ := m.adopt hrep
  refine ⟨fun x hx => ?_, v, hnum ▸ hv, hcopy⟩
  rcases History.mem_setState hlt hx with rfl | hold
  · exact ⟨v, hv, hsource⟩
  · exact hassign x hold

theorem receive (hsync : m.ReceiverSynced vals got r) {oldNum newNum : Nat} {diff : Bytes}
    {va vn : V} (ha : vals oldNum = some va) (hn : vals newNum = some vn)
    (htrans : m.Transfers diff va vn) (now throwawayNum : Nat) :
    m.ReceiverSynced vals got (r.receive now oldNum newNum throwawayNum diff).1 := by
  obtain ⟨hsorted, ⟨g, hassign, hgot⟩, k, hk, hvk⟩ := hsync
  obtain ⟨hrec, hlastr⟩ := Receiver.receive_cases hsorted now oldNum newNum throwawayNum diff
  have hcull : m.Assigns vals g (r.receivedStates.cull throwawayNum) :=
    hassign.sub fun e he => (History.mem_cull.mp he).1
  generalize (r.receive now oldNum newNum throwawayNum diff).1 = r' at hrec hlastr ⊢
  generalize (r.receive now oldNum newNum throwawayNum diff).2 = outcome at hrec
  generalize hh : r'.receivedStates = h' at hrec
  have hle := hrec.last_le
  suffices hall : Sorted h' ∧ m.Assigns vals g h' by
    obtain ⟨h₁, h₂⟩ := hall
    rw [← hh] at h₁ h₂ hle
    exact ⟨h₁, ⟨g, h₂, hlastr ▸ hgot⟩, k, Nat.le_trans hk hle, hvk⟩
  cases hrec with
  | refused _ => exact ⟨hsorted, hassign⟩
  | culled _ _ _ => exact ⟨hsorted.cull _, hcull⟩
  | malformed i hi _ => exact ⟨(hsorted.cull _).setState i _, (lend hcull hi).1⟩
  | filed _ i hi state happly _ hsorted' hmem _ _ =>
      obtain ⟨hlent, v, hv, hcopy⟩ := lend hcull hi
      rw [ha] at hv
      cases hv
      have hstate : m.rep g state vn := by
        split at happly
        · next hempty =>
            cases happly
            rw [← htrans.1 (List.isEmpty_iff.mp hempty)]
            exact hcopy
        · exact htrans.2 g _ _ hcopy happly
      refine ⟨hsorted', fun x hx => ?_⟩
      rcases (hmem x).mp hx with rfl | hold
      · exact ⟨vn, hn, hstate⟩
      · exact hlent x hold

/-- What `get_remote_diff` diffs, and what it leaves behind: the value handed out
last and that of the newest state, in one frame; afterwards the second is the one
handed out last, in a frame moved by what was trimmed. -/
theorem getRemoteDiff (hsync : m.ReceiverSynced vals got r)
    (hmono : ∀ {a b va vb}, vals a = some va → vals b = some vb → a ≤ b → m.le va vb) :
    ∃ g v, vals r.receivedStates.last.num = some v ∧ m.le got v ∧
      m.rep g r.receivedStates.last.state v ∧ m.rep g r.lastReceiverState got ∧
      m.ReceiverSynced vals v r.getRemoteDiff.1 := by
  obtain ⟨hsorted, ⟨g, hassign, hgot⟩, k, hk, hvk⟩ := hsync
  obtain ⟨v, hv, hrep⟩ := hassign _ r.receivedStates.last_mem
  refine ⟨g, v, hv, hmono hvk hv hk, hrep, hgot, ?_⟩
  unfold Receiver.getRemoteDiff
  by_cases hpre : hasPrefix S = true
  · simp only [if_pos hpre]
    obtain ⟨vk, hvk', hk'⟩ := hassign _ (History.first_mem _)
    obtain ⟨g', hg'⟩ := m.trim hpre (m.clone hk')
    have hle : ∀ e ∈ r.receivedStates.entries, ∀ w, vals e.num = some w → m.le vk w :=
      fun e he w hw => hmono hvk' hw (hsorted.first_le he)
    refine ⟨hsorted.mapState _, ⟨g', fun x hx => ?_, ?_⟩, _, Nat.le_refl _, ?_⟩
    · obtain ⟨e, he, rfl⟩ := History.mem_mapState.mp hx
      obtain ⟨w, hw, hrepw⟩ := hassign e he
      exact ⟨w, hw, hg' _ _ hrepw (hle e he w hw)⟩
    · simp only [History.mapState_last]
      exact m.clone (hg' _ _ hrep (hle _ r.receivedStates.last_mem v hv))
    · simpa only [History.mapState_last] using hv
  · simp only [if_neg hpre]
    exact ⟨hsorted, ⟨g, hassign, m.clone hrep⟩, _, Nat.le_refl _, hv⟩

theorem new (now : Nat) {init : S} {g : m.Frame} {v : V} (hrep : m.rep g init v) :
    m.ReceiverSynced (fun n => if n = 0 then some v else none) v (Receiver.new now init) := by
  refine ⟨List.pairwise_singleton _ _, ⟨g, fun e he => ?_, hrep⟩, 0, Nat.le_refl _, rfl⟩
  rw [List.mem_singleton.mp he]
  exact ⟨v, rfl, m.clone hrep⟩

end ReceiverSynced

end Meaning

end Morsh
