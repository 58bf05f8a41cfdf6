import Morsh.Proofs.Session
import Morsh.Proofs.Delivery

/-!
# The acknowledged floor is always held by the peer

The receiver culls by the throwaway number, the sender by the ack number, and
both numbers may arrive late. Neither can do harm: a throwaway number on the
network never exceeds the sender's floor, because the floor only rises, and an
ack on the network that still reaches the floor names a state the peer still
holds, because the peer culls below the floor only.

`Floored` ties the two facts together for the direction from `x` to `y`: `y`
holds the floor of `x`, every ack on its way back that reaches the floor names a
state `y` holds, and no instruction on its way throws away more than the floor.
A step of the sender only raises the floor, to a number it was told is held; a
step of the receiver culls below a throwaway number, so it keeps the floor. The
two step lemmas first reduce an operation to one of these shapes (`of_sender`,
`of_receiver`), in which no code is left.
-/

namespace Morsh

open State

variable {M R E F : Type} [State M] [State R]

/-! ## What an operation does to the numbers held -/

omit [State R] in
theorem History.holds_mapState {h : History R} {f : R → R} {n : Nat} :
    (h.mapState f).holds n = h.holds n := by
  simp [History.holds, History.mapState, List.any_map, Function.comp_def]

theorem getRemoteDiff_holds {r : Receiver R} {n : Nat} :
    r.getRemoteDiff.1.receivedStates.holds n = r.receivedStates.holds n := by
  unfold Receiver.getRemoteDiff
  by_cases hpre : hasPrefix R = true
  · simp only [if_pos hpre, History.holds_mapState]
  · simp only [if_neg hpre]

/-- An instruction takes away nothing at or above its throwaway number, and the
newest number moves only for a new state. -/
theorem receive_holds {r : Receiver R} (hs : Sorted r.receivedStates)
    (now oldNum newNum throwawayNum : Nat) (diff : Bytes) :
    (∀ n, throwawayNum ≤ n → r.receivedStates.holds n = true →
      (r.receive now oldNum newNum throwawayNum diff).1.receivedStates.holds n = true) ∧
    ((∀ k, (r.receive now oldNum newNum throwawayNum diff).2 ≠ .ok (.newState k)) →
      (r.receive now oldNum newNum throwawayNum diff).1.receivedStates.last.num
        = r.receivedStates.last.num) ∧
    Sorted (r.receive now oldNum newNum throwawayNum diff).1.receivedStates := by
  obtain ⟨hrec, -⟩ := Receiver.receive_cases hs now oldNum newNum throwawayNum diff
  have hcull : ∀ n, throwawayNum ≤ n → r.receivedStates.holds n = true →
      (r.receivedStates.cull throwawayNum).holds n = true := by
    intro n hle hn
    obtain ⟨e, he, hen⟩ := History.holds_iff.mp hn
    exact History.holds_iff.mpr ⟨e, History.mem_cull.mpr ⟨he, by omega⟩, hen⟩
  have hlend : ∀ i n, (r.receivedStates.cull throwawayNum).holds n = true →
      ((r.receivedStates.cull throwawayNum).lend i).2.holds n = true := by
    intro i n hn
    obtain ⟨e, he, hen⟩ := History.holds_iff.mp hn
    have hmap : n ∈ ((r.receivedStates.cull throwawayNum).lend i).2.entries.map (·.num) := by
      rw [History.lend, History.setState_nums, ← hen]
      exact List.mem_map_of_mem he
    obtain ⟨e', he', hen'⟩ := List.mem_map.mp hmap
    exact History.holds_iff.mpr ⟨e', he', hen'⟩
  generalize (r.receive now oldNum newNum throwawayNum diff).1.receivedStates = h' at hrec ⊢
  generalize (r.receive now oldNum newNum throwawayNum diff).2 = outcome at hrec ⊢
  cases hrec with
  | refused _ => exact ⟨fun _ _ hn => hn, fun _ => rfl, hs⟩
  | culled _ _ _ => exact ⟨hcull, fun _ => by rw [History.cull_last], hs.cull _⟩
  | malformed i _ _ =>
      refine ⟨fun n hle hn => hlend i n (hcull n hle hn), fun _ => ?_, (hs.cull _).setState i _⟩
      rw [History.lend, History.setState_last, History.cull_last]
  | filed _ i _ state _ _ hsorted hmem outcome hwhere =>
      refine ⟨fun n hle hn => ?_, fun hno => ?_, hsorted⟩
      · obtain ⟨e, he, hen⟩ := History.holds_iff.mp (hlend i n (hcull n hle hn))
        exact History.holds_iff.mpr ⟨e, (hmem e).mpr (Or.inr he), hen⟩
      · rcases hwhere with ⟨hout, -, -⟩ | ⟨-, -, hlast⟩
        · exact absurd (congrArg Except.ok hout) (hno _)
        · exact hlast

/-! ## The invariant -/

namespace Endpoint

/-- The acknowledged floor: the number of the oldest state the sender keeps. -/
def floor (x : Endpoint M R E) : Nat := x.transport.sender.sentStates.first.num

def received (y : Endpoint R M F) : History M := y.transport.receiver.receivedStates

end Endpoint

/-- The invariant of the direction from `x` to `y`. -/
structure Floored (x : Endpoint M R E) (y : Endpoint R M F) : Prop where
  inv : SenderInv x.clock x.transport.sender
  sorted : Sorted y.received
  held : y.received.holds x.floor = true
  thrown : ∀ inst ∈ x.sent, ∃ t, inst.throwawayNum = some t ∧ t ≤ x.floor
  ordered : ∀ inst ∈ x.sent, ∃ t old, inst.throwawayNum = some t ∧ inst.oldNum = some old ∧
    t ≤ old
  /-- An ack that still reaches the floor names a state still held. -/
  acked : ∀ inst ∈ y.sent, x.floor ≤ inst.ackNum.getD 0 →
    y.received.holds (inst.ackNum.getD 0) = true
  newest : y.transport.sender.ackNum = y.received.last.num
  /-- A floor stays held until an instruction with a later one is processed. -/
  reference : ∀ inst ∈ x.sent, inst.oldNum = inst.throwawayNum →
    (∀ d ∈ y.processed, d.throwawayNum.getD 0 ≤ inst.throwawayNum.getD 0) →
    y.received.holds (inst.oldNum.getD 0) = true

namespace Floored

variable {x x' : Endpoint M R E} {y y' : Endpoint R M F} {act : M → E → M} {act' : R → F → R}

omit [State M] [State R] in
/-- The sender's side moved without raising the floor, and sent these. -/
theorem of_sender (h : Floored x y) (sent : List Instruction)
    (hinv : SenderInv x'.clock x'.transport.sender) (hfloor : x'.floor = x.floor)
    (hsent : x'.sent = x.sent ++ sent)
    (hnew : ∀ inst ∈ sent, inst.throwawayNum = some x.floor ∧
      ∃ old, inst.oldNum = some old ∧ x.floor ≤ old) : Floored x' y := by
  refine ⟨hinv, h.sorted, hfloor ▸ h.held, fun inst hi => ?_, fun inst hi => ?_,
    fun inst hi hle => h.acked inst hi (hfloor ▸ hle), h.newest, fun inst hi hold hd => ?_⟩
  · rw [hsent, List.mem_append] at hi
    rw [hfloor]
    rcases hi with hi | hi
    · exact h.thrown inst hi
    · exact ⟨x.floor, (hnew inst hi).1, Nat.le_refl _⟩
  · rw [hsent, List.mem_append] at hi
    rcases hi with hi | hi
    · exact h.ordered inst hi
    · obtain ⟨hthrow, old, hold, hle⟩ := hnew inst hi
      exact ⟨x.floor, old, hthrow, hold, hle⟩
  · rw [hsent, List.mem_append] at hi
    rcases hi with hi | hi
    · exact h.reference inst hi hold hd
    · rw [hold, (hnew inst hi).1]
      exact h.held

theorem sender_step (h : Floored x y) (hstep : x.Stepped act y.sent x') : Floored x' y := by
  cases hstep with
  | idle connection =>
      exact ⟨h.inv, h.sorted, h.held, h.thrown, h.ordered, h.acked, h.newest, h.reference⟩
  | edit hrun e =>
      exact h.of_sender [] (h.inv.of_frame rfl rfl fun hs => hs) rfl
        (List.append_nil _).symm (by simp)
  | tick now timeout srttMs remote chaff connection hnow hrange =>
      obtain ⟨hfirst, -, hnew⟩ := @TransportSender.tick_floor _ _ _ _ now timeout
        srttMs remote chaff h.inv hnow hrange
      obtain ⟨-, hinv, -⟩ := TransportSender.tick_cases h.inv hnow hrange timeout srttMs remote
        chaff
      exact h.of_sender _ hinv hfirst rfl fun inst hi =>
        ⟨(hnew inst hi).1, (hnew inst hi).2.2⟩
  | wait now timeout srttMs remote hnow hrange =>
      have hinv := h.inv.calculateTimers hnow hrange timeout srttMs
      refine h.of_sender [] ?_ TransportSender.waitTimeMs_floor.1
        (List.append_nil _).symm (by simp)
      unfold TransportSender.waitTimeMs
      simp only []
      split <;> exact hinv
  | shutdown now =>
      refine h.of_sender [] (h.inv.startShutdown now) ?_ (List.append_nil _).symm
        (by simp)
      simp only [Endpoint.floor, TransportSender.startShutdown]
      split <;> rfl
  | process connection now inst hmem =>
      by_cases hver : inst.protocolVersion = some MORSH_PROTOCOL_VERSION
      · obtain ⟨hsent, -, hshut, hnext, -⟩ := @processInstruction_sender _ _ _
          { x.transport with connection := connection } now inst hver
        obtain ⟨-, hshut', -, hnext'⟩ :=
          processAcknowledgmentThrough_frame (s := x.transport.sender) (inst.ackNum.getD 0)
        have hinv := (h.inv.ack (inst.ackNum.getD 0)).of_frame hsent (hnext.trans hnext'.symm)
          (fun hs => by rw [hshut', ← hshut]; exact hs)
        rcases processAcknowledgmentThrough_cases h.inv (inst.ackNum.getD 0) with
          hsame | ⟨hholds, hcut, -, hfirst, -⟩
        · refine h.of_sender [] hinv ?_ (List.append_nil _).symm (by simp)
          simp only [Endpoint.floor, hsent, hsame]
        · -- the floor rises to a number the peer acknowledged, so it holds it
          obtain ⟨e, he, hen⟩ := History.holds_iff.mp hholds
          have hge : x.floor ≤ inst.ackNum.getD 0 :=
            hen ▸ History.first_le_num h.inv.nums he
          have hrise : ({ x with
              transport := ({ x.transport with connection := connection }.processInstruction now
                inst).1
              processed := x.processed ++ [inst] } : Endpoint M R E).floor
              = inst.ackNum.getD 0 := by
            simp only [Endpoint.floor, hsent, hcut, hfirst]
          refine ⟨hinv, h.sorted, ?_, fun i hi => ?_, h.ordered, fun i hi hle => ?_, h.newest,
            h.reference⟩
          · rw [hrise]; exact h.acked inst hmem hge
          · obtain ⟨t, ht, hle⟩ := h.thrown i hi
            exact ⟨t, ht, by omega⟩
          · exact h.acked i hi (by omega)
      · simp only [processInstruction_mismatch hver]
        exact ⟨h.inv, h.sorted, h.held, h.thrown, h.ordered, h.acked, h.newest, h.reference⟩
  | diff => exact ⟨h.inv, h.sorted, h.held, h.thrown, h.ordered, h.acked, h.newest, h.reference⟩

omit [State M] [State R] in
/-- The receiver's side kept every number at or above the floor, and sent
these. -/
theorem of_receiver (h : Floored x y) (sent processed : List Instruction)
    (hsorted : Sorted y'.received) (hsent : y'.sent = y.sent ++ sent)
    (hnew : ∀ inst ∈ sent, inst.ackNum = some y.received.last.num)
    (hprocessed : y'.processed = y.processed ++ processed)
    (hkeep : ∀ n, (∀ d ∈ processed, d.throwawayNum.getD 0 ≤ n) → y.received.holds n = true →
      y'.received.holds n = true)
    (hthrown : ∀ d ∈ processed, d.throwawayNum.getD 0 ≤ x.floor)
    (hnewest : y'.transport.sender.ackNum = y'.received.last.num) : Floored x y' := by
  have habove : ∀ n, x.floor ≤ n → y.received.holds n = true → y'.received.holds n = true :=
    fun n hn hh => hkeep n (fun d hd => Nat.le_trans (hthrown d hd) hn) hh
  refine ⟨h.inv, hsorted, habove _ (Nat.le_refl _) h.held, h.thrown, h.ordered,
    fun inst hi hle => habove _ hle ?_, hnewest, fun inst hi hold hd => ?_⟩
  · rw [hsent, List.mem_append] at hi
    rcases hi with hi | hi
    · exact h.acked inst hi hle
    · rw [hnew inst hi]
      exact History.holds_iff.mpr ⟨_, History.last_mem _, rfl⟩
  · rw [hprocessed] at hd
    refine hkeep _ (fun d hdm => ?_) (h.reference inst hi hold fun d hdm =>
      hd d (List.mem_append_left _ hdm))
    rw [hold]
    exact hd d (List.mem_append_right _ hdm)

theorem receiver_step (h : Floored x y) (hinv : SenderInv y.clock y.transport.sender)
    (hstep : y.Stepped act' x.sent y') : Floored x y' := by
  have hstill : ∀ y' : Endpoint R M F, y'.received = y.received →
      y'.transport.sender.ackNum = y.transport.sender.ackNum → y'.sent = y.sent →
      y'.processed = y.processed → Floored x y' := by
    intro y' hrec hack hsent hproc
    exact h.of_receiver [] [] (hrec ▸ h.sorted) (by simpa using hsent)
      (by simp) (by simpa using hproc) (fun n _ hn => hrec ▸ hn) (by simp)
      (by rw [hack, hrec]; exact h.newest)
  cases hstep with
  | idle connection => exact hstill _ rfl rfl rfl rfl
  | edit hrun e => exact hstill _ rfl rfl rfl rfl
  | tick now timeout srttMs remote chaff connection hnow hrange =>
      obtain ⟨-, hack, hnew⟩ := @TransportSender.tick_floor _ _ _ _ now timeout
        srttMs remote chaff hinv hnow hrange
      refine h.of_receiver _ [] h.sorted rfl (fun inst hi => ?_)
        (List.append_nil _).symm (fun n _ hn => hn) (by simp) (hack.trans h.newest)
      rw [(hnew inst hi).2.1, h.newest]
  | wait now timeout srttMs remote hnow hrange =>
      exact hstill _ rfl TransportSender.waitTimeMs_floor.2 rfl rfl
  | shutdown now =>
      refine hstill _ rfl ?_ rfl rfl
      simp only [TransportSender.startShutdown]
      split <;> rfl
  | process connection now inst hmem =>
      by_cases hver : inst.protocolVersion = some MORSH_PROTOCOL_VERSION
      · obtain ⟨-, -, -, -, hack⟩ := @processInstruction_sender _ _ _
          { y.transport with connection := connection } now inst hver
        obtain ⟨hrec, hout⟩ := @processInstruction_receiver _ _ _
          { y.transport with connection := connection } now inst hver
        obtain ⟨hkeep, hlast, hsorted⟩ := receive_holds h.sorted now (inst.oldNum.getD 0)
          (inst.newNum.getD 0) (inst.throwawayNum.getD 0) (inst.diff.getD [])
        refine h.of_receiver [] [inst] ?_ (List.append_nil _).symm
          (by simp) rfl (fun n hn hh => ?_) (fun d hd => ?_) ?_
        · simp only [Endpoint.received, hrec]; exact hsorted
        · simp only [Endpoint.received, hrec]
          exact hkeep n (hn inst (List.mem_singleton_self _)) hh
        · obtain ⟨t, ht, hle⟩ := h.thrown inst hmem
          rw [List.mem_singleton.mp hd, ht]
          exact hle
        · rcases hack with ⟨k, -, hset⟩ | ⟨hno, hset⟩
          · exact hset
          · rw [hset]
            simp only [Endpoint.received, hrec]
            rw [hout] at hno
            exact h.newest.trans (hlast hno).symm
      · refine h.of_receiver [] [inst] ?_ (List.append_nil _).symm
          (by simp) rfl (fun n _ hh => ?_) (fun d hd => ?_) ?_
        · simp only [Endpoint.received, processInstruction_mismatch hver]; exact h.sorted
        · simp only [Endpoint.received, processInstruction_mismatch hver]; exact hh
        · obtain ⟨t, ht, hle⟩ := h.thrown inst hmem
          rw [List.mem_singleton.mp hd, ht]
          exact hle
        · simp only [Endpoint.received, processInstruction_mismatch hver]; exact h.newest
  | diff =>
      refine h.of_receiver [] [] ?_ (List.append_nil _).symm (by simp)
        (List.append_nil _).symm (fun n _ hn => ?_) (by simp) ?_
      · simp only [Endpoint.received, Receiver.getRemoteDiff]
        split
        · exact Sorted.mapState h.sorted _
        · exact h.sorted
      · simp only [Endpoint.received, getRemoteDiff_holds]; exact hn
      · simp only [Endpoint.received, Receiver.getRemoteDiff_num]; exact h.newest

theorem start {now remoteNow : Nat} (hrange : now < CLOCK_RANGE) (connection remoteConnection :
    Connection) (init peerInit : M) (remoteInit remotePeerInit : R) :
    Floored (Endpoint.start (E := E) now connection init remotePeerInit)
      (Endpoint.start (E := F) remoteNow remoteConnection remoteInit peerInit) :=
  ⟨.new hrange init, List.pairwise_singleton _ _, rfl, by simp [Endpoint.start],
    by simp [Endpoint.start], by simp [Endpoint.start], rfl, by simp [Endpoint.start]⟩

end Floored

end Morsh
