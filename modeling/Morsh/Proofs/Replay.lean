import Morsh.Network.ConnectionRun
import Morsh.Proofs.Nonces

/-!
# Replays change neither address nor timing

A datagram opens to the same packet whenever it arrives, and once it has been
processed its number is below what the connection takes for fresh. So a copy
reaches the assembler and nothing else, and the run goes on as if it had not
come. What the server sends to is where the first arrival of the highest number
came from.

`SameTarget` is what a replay cannot change: everything of a connection but its
assembler and what only sending touches. One delivery to two such connections
leaves them such and gives both the same sample of the round trip, and a delivery
of something already processed leaves a connection such by itself, because its
number is below the bar. Putting the copies in is an inductive relation between
two lists of arrivals, and the theorem an induction over it, with the datagrams
processed so far carried along.
-/

namespace Morsh

open UdpConnection

variable {Cipher Addr : Type}

/-! ## The first of the highest -/

section Highest

variable {α : Type}

/-- `a` is the first element of the highest number, among those that have one. -/
def FirstOfHighest (number : α → Option Nat) (l : List α) (a : α) : Prop :=
  ∃ before after n, l = before ++ a :: after ∧ number a = some n ∧
    (∀ b ∈ before, ∀ m, number b = some m → m < n) ∧
    ∀ b ∈ after, ∀ m, number b = some m → m ≤ n

variable {number : α → Option Nat}

theorem FirstOfHighest.le {l : List α} {a b : α} {m n : Nat} (h : FirstOfHighest number l a)
    (hn : number a = some n) (hb : b ∈ l) (hm : number b = some m) : m ≤ n := by
  obtain ⟨before, after, n', rfl, hn', hbefore, hafter⟩ := h
  obtain rfl := Option.some.inj (hn.symm.trans hn')
  rcases List.mem_append.mp hb with hb | hb
  · exact Nat.le_of_lt (hbefore b hb m hm)
  · rcases List.mem_cons.mp hb with rfl | hb
    · exact Nat.le_of_eq (Option.some.inj (hm.symm.trans hn))
    · exact hafter b hb m hm

/-- There is one unless no element has a number. The induction is from the end:
the last element takes over only when it beats all before it. -/
theorem exists_firstOfHighest (number : α → Option Nat) (l : List α) :
    (∀ b ∈ l, number b = none) ∨ ∃ a, FirstOfHighest number l a := by
  induction l using List.reverseRecOn with
  | nil => exact .inl fun b hb => absurd hb List.not_mem_nil
  | append_singleton l x ih =>
      cases hx : number x with
      | none =>
          rcases ih with hnone | ⟨a, before, after, n, rfl, hn, hbefore, hafter⟩
          · refine .inl fun b hb => ?_
            rcases List.mem_append.mp hb with hb | hb
            · exact hnone b hb
            · rw [List.mem_singleton.mp hb, hx]
          · refine .inr ⟨a, before, after ++ [x], n, by simp, hn, hbefore, fun b hb m hm => ?_⟩
            rcases List.mem_append.mp hb with hb | hb
            · exact hafter b hb m hm
            · rw [List.mem_singleton.mp hb, hx] at hm
              cases hm
      | some m =>
          -- `x` takes over when it beats all before it
          by_cases hbeats : ∀ b ∈ l, ∀ k, number b = some k → k < m
          · exact .inr ⟨x, l, [], m, rfl, hx, hbeats, by simp⟩
          · rcases ih with hnone | ⟨a, ha⟩
            · exact absurd (fun b hb k hk => by rw [hnone b hb] at hk; cases hk) hbeats
            · have hfirst := ha
              obtain ⟨before, after, n, rfl, hn, hbefore, hafter⟩ := ha
              refine .inr ⟨a, before, after ++ [x], n, by simp, hn, hbefore, fun b hb k hk => ?_⟩
              rcases List.mem_append.mp hb with hb | hb
              · exact hafter b hb k hk
              · rw [List.mem_singleton.mp hb, hx] at hk
                cases hk
                by_contra hmn
                exact hbeats fun b hb k hk =>
                  Nat.lt_of_le_of_lt (hfirst.le hn hb hk) (Nat.not_le.mp hmn)

end Highest

/-! ## What one delivery does -/

section Delivery

variable [Crypto.Ocb3 Cipher]

/-- The number of an authentic, well-formed datagram. -/
def UdpConnection.seqOf (c : UdpConnection Cipher Addr) (data : Bytes) : Option Nat :=
  (c.openPacket data).toOption.map (·.seq)

/-- The sample a delivery hands to the estimator. -/
def UdpConnection.sampleTaken (c : UdpConnection Cipher Addr) (a : Arrival Addr) : Option Nat :=
  match c.openPacket a.data with
  | .error _ => none
  | .ok p =>
      if p.seq < c.expectedReceiverSeq then none
      else rttSample a.clocks.sinceEpochMs p.timestampReply

variable {c d : UdpConnection Cipher Addr} {a : Arrival Addr} {p : Packet} {n : Nat}

theorem UdpConnection.openPacket_of_seqOf (h : c.seqOf a.data = some n) :
    ∃ p, c.openPacket a.data = .ok p ∧ p.seq = n := by
  cases hopen : c.openPacket a.data with
  | error e => rw [seqOf, hopen] at h; cases h
  | ok p => rw [seqOf, hopen] at h; exact ⟨p, rfl, Option.some.inj h⟩

theorem UdpConnection.seqOf_of_openPacket {data : Bytes} (h : c.openPacket data = .ok p) :
    c.seqOf data = some p.seq := by
  rw [seqOf, h]
  rfl

omit [Crypto.Ocb3 Cipher] in
/-- Field by field, what a fresh packet does. -/
theorem UdpConnection.freshen_eq (c : UdpConnection Cipher Addr) (p : Packet) (peer : Addr)
    (clocks : Clocks) (heardAt : Nat) :
    c.freshen p peer clocks heardAt =
      { c with
        expectedReceiverSeq := p.seq + 1
        savedTimestamp := if p.timestamp ≠ NO_TIMESTAMP then p.timestamp else c.savedTimestamp
        savedTimestampReceivedAt :=
          if p.timestamp ≠ NO_TIMESTAMP then clocks.now else c.savedTimestampReceivedAt
        rtt := (rttSample clocks.sinceEpochMs p.timestampReply).elim c.rtt c.rtt.update
        lastHeard := heardAt
        hasRemoteAddr := true
        remoteAddr := if c.server then some peer else c.remoteAddr } := by
  cases hrtt : rttSample clocks.sinceEpochMs p.timestampReply <;>
    by_cases hts : p.timestamp ≠ NO_TIMESTAMP <;>
    by_cases hserver : c.server = true <;>
    simp [freshen, recordRtt, hrtt, hts, hserver]

theorem UdpConnection.openPacket_congr (hsession : d.session = c.session)
    (hserver : d.server = c.server) (data : Bytes) : d.openPacket data = c.openPacket data := by
  rw [openPacket, openPacket, hsession, hserver]

variable [Zlib] [ProstMessage Instruction]

/-- A datagram that does not open, or not to a fresh packet, reaches nothing but
the assembler. -/
theorem UdpConnection.deliver_stale (h : ∀ n, c.seqOf a.data = some n → n < c.expectedReceiverSeq) :
    ∃ assembler, c.deliver a = { c with assembler := assembler } := by
  rw [deliver, processIncoming]
  split
  · exact ⟨c.assembler, rfl⟩
  · next p hopen =>
      rw [if_pos (h p.seq (seqOf_of_openPacket hopen))]
      exact ⟨_, rfl⟩

theorem UdpConnection.deliver_fresh (h : c.openPacket a.data = .ok p)
    (hfresh : c.expectedReceiverSeq ≤ p.seq) :
    ∃ assembler,
      c.deliver a = { c.freshen p a.peer a.clocks a.heardAt with assembler := assembler } := by
  rw [deliver, processIncoming, h]
  simp only [if_neg (Nat.not_lt.mpr hfresh)]
  exact ⟨_, rfl⟩

/-! ## Two connections a replay cannot tell apart -/

omit [Crypto.Ocb3 Cipher] [Zlib] [ProstMessage Instruction] in
/-- The same in everything but the assembler and what only sending touches:
where to send, what counts as fresh, which timestamp to echo, the estimate of
the round trip. -/
structure SameTarget (c d : UdpConnection Cipher Addr) : Prop where
  session : d.session = c.session
  server : d.server = c.server
  remoteAddr : d.remoteAddr = c.remoteAddr
  hasRemoteAddr : d.hasRemoteAddr = c.hasRemoteAddr
  expectedReceiverSeq : d.expectedReceiverSeq = c.expectedReceiverSeq
  savedTimestamp : d.savedTimestamp = c.savedTimestamp
  savedTimestampReceivedAt : d.savedTimestampReceivedAt = c.savedTimestampReceivedAt
  rtt : d.rtt = c.rtt
  lastHeard : d.lastHeard = c.lastHeard

omit [Crypto.Ocb3 Cipher] [Zlib] [ProstMessage Instruction] in
theorem SameTarget.refl (c : UdpConnection Cipher Addr) : SameTarget c c :=
  ⟨rfl, rfl, rfl, rfl, rfl, rfl, rfl, rfl, rfl⟩

omit [Crypto.Ocb3 Cipher] [Zlib] [ProstMessage Instruction] in
theorem SameTarget.trans {e : UdpConnection Cipher Addr} (h : SameTarget c d)
    (h' : SameTarget d e) : SameTarget c e where
  session := h'.session.trans h.session
  server := h'.server.trans h.server
  remoteAddr := h'.remoteAddr.trans h.remoteAddr
  hasRemoteAddr := h'.hasRemoteAddr.trans h.hasRemoteAddr
  expectedReceiverSeq := h'.expectedReceiverSeq.trans h.expectedReceiverSeq
  savedTimestamp := h'.savedTimestamp.trans h.savedTimestamp
  savedTimestampReceivedAt := h'.savedTimestampReceivedAt.trans h.savedTimestampReceivedAt
  rtt := h'.rtt.trans h.rtt
  lastHeard := h'.lastHeard.trans h.lastHeard

omit [Crypto.Ocb3 Cipher] [Zlib] [ProstMessage Instruction] in
theorem SameTarget.freshen (h : SameTarget c d) (p : Packet) (a : Arrival Addr) :
    SameTarget (c.freshen p a.peer a.clocks a.heardAt) (d.freshen p a.peer a.clocks a.heardAt) := by
  rw [freshen_eq, freshen_eq]
  exact {
    session := h.session
    server := h.server
    remoteAddr := by simp only [h.server, h.remoteAddr]
    hasRemoteAddr := rfl
    expectedReceiverSeq := rfl
    savedTimestamp := by simp only [h.savedTimestamp]
    savedTimestampReceivedAt := by simp only [h.savedTimestampReceivedAt]
    rtt := by simp only [h.rtt]
    lastHeard := rfl }

omit [Crypto.Ocb3 Cipher] [Zlib] [ProstMessage Instruction] in
theorem SameTarget.of_assembler (c : UdpConnection Cipher Addr) (assembler : FragmentAssembly) :
    SameTarget c { c with assembler := assembler } :=
  ⟨rfl, rfl, rfl, rfl, rfl, rfl, rfl, rfl, rfl⟩

theorem UdpConnection.deliver_same_of_stale
    (h : ∀ n, c.seqOf a.data = some n → n < c.expectedReceiverSeq) :
    SameTarget c (c.deliver a) := by
  obtain ⟨assembler, hdeliver⟩ := deliver_stale h
  rw [hdeliver]
  exact .of_assembler c assembler

/-- One delivery to either leaves them alike, and gives both one sample. They read
the datagram alike, and what a fresh one sets is computed from the packet and the
time alone. -/
theorem SameTarget.deliver (h : SameTarget c d) (a : Arrival Addr) :
    SameTarget (c.deliver a) (d.deliver a) ∧ d.sampleTaken a = c.sampleTaken a := by
  have hopen := openPacket_congr h.session h.server a.data
  have hsample : d.sampleTaken a = c.sampleTaken a := by
    rw [sampleTaken, sampleTaken, hopen, h.expectedReceiverSeq]
  refine ⟨?_, hsample⟩
  by_cases hstale : ∀ n, c.seqOf a.data = some n → n < c.expectedReceiverSeq
  · have hstale' : ∀ n, d.seqOf a.data = some n → n < d.expectedReceiverSeq := by
      rwa [seqOf, hopen, h.expectedReceiverSeq]
    obtain ⟨assembler, hc⟩ := deliver_stale hstale
    obtain ⟨assembler', hd⟩ := deliver_stale hstale'
    rw [hc, hd]
    exact ⟨h.session, h.server, h.remoteAddr, h.hasRemoteAddr, h.expectedReceiverSeq,
      h.savedTimestamp, h.savedTimestampReceivedAt, h.rtt, h.lastHeard⟩
  · obtain ⟨n, hseq, hfresh⟩ : ∃ n, c.seqOf a.data = some n ∧ c.expectedReceiverSeq ≤ n := by
      by_contra hno
      exact hstale fun n hn => Nat.lt_of_not_le fun hle => hno ⟨n, hn, hle⟩
    obtain ⟨p, hp, rfl⟩ := openPacket_of_seqOf hseq
    obtain ⟨assembler, hc⟩ := deliver_fresh hp hfresh
    obtain ⟨assembler', hd⟩ := deliver_fresh (hopen.trans hp) (h.expectedReceiverSeq ▸ hfresh)
    rw [hc, hd]
    have hfreshen := h.freshen p a
    exact ⟨hfreshen.session, hfreshen.server, hfreshen.remoteAddr, hfreshen.hasRemoteAddr,
      hfreshen.expectedReceiverSeq, hfreshen.savedTimestamp, hfreshen.savedTimestampReceivedAt,
      hfreshen.rtt, hfreshen.lastHeard⟩

/-- A fresh packet raises the bar to just above its number; nothing else moves
it. -/
theorem UdpConnection.deliver_expected (c : UdpConnection Cipher Addr) (a : Arrival Addr) :
    ((∀ n, c.seqOf a.data = some n → n < c.expectedReceiverSeq) ∧ SameTarget c (c.deliver a)) ∨
      ∃ n, c.seqOf a.data = some n ∧ c.expectedReceiverSeq ≤ n ∧
        (c.deliver a).expectedReceiverSeq = n + 1 ∧
        (c.deliver a).remoteAddr = (if c.server then some a.peer else c.remoteAddr) := by
  by_cases hstale : ∀ n, c.seqOf a.data = some n → n < c.expectedReceiverSeq
  · exact .inl ⟨hstale, deliver_same_of_stale hstale⟩
  · obtain ⟨n, hseq, hfresh⟩ : ∃ n, c.seqOf a.data = some n ∧ c.expectedReceiverSeq ≤ n := by
      by_contra hno
      exact hstale fun n hn => Nat.lt_of_not_le fun hle => hno ⟨n, hn, hle⟩
    obtain ⟨p, hp, rfl⟩ := openPacket_of_seqOf hseq
    obtain ⟨assembler, hc⟩ := deliver_fresh hp hfresh
    exact .inr ⟨p.seq, hseq, hfresh, by rw [hc, freshen_eq], by rw [hc, freshen_eq]⟩

theorem UdpConnection.deliver_frame (c : UdpConnection Cipher Addr) (a : Arrival Addr) :
    (c.deliver a).session = c.session ∧ (c.deliver a).server = c.server :=
  have h := c.processIncoming_frame a.data a.peer a.clocks a.heardAt
  ⟨h.2.2, h.1⟩

theorem UdpConnection.deliver_seqOf (c : UdpConnection Cipher Addr) (a : Arrival Addr)
    (data : Bytes) : (c.deliver a).seqOf data = c.seqOf data := by
  rw [seqOf, seqOf, openPacket_congr (c.deliver_frame a).1 (c.deliver_frame a).2]

/-! ## Runs -/

/-- The samples a run hands to the estimator, in order. -/
def UdpConnection.samples (c : UdpConnection Cipher Addr) : List (Arrival Addr) → List Nat
  | [] => []
  | a :: rest => (c.sampleTaken a).toList ++ (c.deliver a).samples rest

omit [Crypto.Ocb3 Cipher] [Zlib] [ProstMessage Instruction] in
/-- The second list is the first with copies put in of datagrams processed
before: from any address and at any time. -/
inductive WithReplays : List Bytes → List (Arrival Addr) → List (Arrival Addr) → Prop where
  | nil (processed : List Bytes) : WithReplays processed [] []
  | arrival {processed : List Bytes} {xs ys : List (Arrival Addr)} (a : Arrival Addr) :
      WithReplays (a.data :: processed) xs ys → WithReplays processed (a :: xs) (a :: ys)
  | replay {processed : List Bytes} {xs ys : List (Arrival Addr)} (a : Arrival Addr) :
      a.data ∈ processed → WithReplays processed xs ys → WithReplays processed xs (a :: ys)

/-- None of the datagrams would be fresh any more. -/
def UdpConnection.Processed (c : UdpConnection Cipher Addr) (processed : List Bytes) : Prop :=
  ∀ data ∈ processed, ∀ n, c.seqOf data = some n → n < c.expectedReceiverSeq

theorem UdpConnection.Processed.deliver {processed : List Bytes} (h : c.Processed processed)
    (a : Arrival Addr) : (c.deliver a).Processed (a.data :: processed) := by
  intro data hdata n hn
  rw [deliver_seqOf] at hn
  rcases c.deliver_expected a with ⟨hstale, hsame⟩ | ⟨m, hseq, hfresh, hexpected, -⟩
  · rw [hsame.expectedReceiverSeq]
    rcases List.mem_cons.mp hdata with rfl | hdata
    · exact hstale n hn
    · exact h data hdata n hn
  · rw [hexpected]
    rcases List.mem_cons.mp hdata with rfl | hdata
    · cases hseq.symm.trans hn
      exact Nat.lt_succ_self _
    · exact Nat.lt_succ_of_le (Nat.le_trans (Nat.le_of_lt (h data hdata n hn)) hfresh)

/-- The two runs side by side, from connections that are alike. An arrival is
delivered to both; a replay only to the second, where it is stale and changes
nothing that is compared. -/
theorem deliverAll_same {processed : List Bytes} {xs ys : List (Arrival Addr)}
    (h : WithReplays processed xs ys) (hsame : SameTarget c d) (hdone : c.Processed processed) :
    SameTarget (c.deliverAll xs) (d.deliverAll ys) ∧ d.samples ys = c.samples xs := by
  induction h generalizing c d with
  | nil => exact ⟨hsame, rfl⟩
  | arrival a _ ih =>
      obtain ⟨hsame', hsample⟩ := hsame.deliver a
      obtain ⟨hrun, hsamples⟩ := ih hsame' (hdone.deliver a)
      exact ⟨hrun, by rw [samples, samples, hsample, hsamples]⟩
  | replay a hseen _ ih =>
      have hseq : d.seqOf a.data = c.seqOf a.data := by
        rw [seqOf, seqOf, openPacket_congr hsame.session hsame.server]
      have hstale : ∀ n, d.seqOf a.data = some n → n < d.expectedReceiverSeq := by
        rw [hseq, hsame.expectedReceiverSeq]
        exact hdone a.data hseen
      obtain ⟨hrun, hsamples⟩ := ih (hsame.trans (deliver_same_of_stale hstale)) hdone
      have hnone : d.sampleTaken a = none := by
        rw [sampleTaken]
        split
        · rfl
        · next p hopen => exact if_pos (hstale p.seq (seqOf_of_openPacket hopen))
      exact ⟨hrun, by rw [samples, hnone, hsamples]; rfl⟩

theorem UdpConnection.deliverAll_expected_le (c : UdpConnection Cipher Addr)
    (as : List (Arrival Addr)) (hc : c.expectedReceiverSeq ≤ n)
    (has : ∀ a ∈ as, ∀ m, c.seqOf a.data = some m → m < n) :
    (c.deliverAll as).expectedReceiverSeq ≤ n := by
  induction as generalizing c with
  | nil => exact hc
  | cons a as ih =>
      refine ih (c.deliver a) ?_ fun b hb m hm => ?_
      · rcases c.deliver_expected a with ⟨-, hsame⟩ | ⟨m, hseq, -, hexpected, -⟩
        · exact hsame.expectedReceiverSeq ▸ hc
        · exact hexpected ▸ has a List.mem_cons_self m hseq
      · rw [deliver_seqOf] at hm
        exact has b (List.mem_cons_of_mem _ hb) m hm

theorem UdpConnection.deliverAll_same_of_stale (c : UdpConnection Cipher Addr)
    (as : List (Arrival Addr))
    (has : ∀ a ∈ as, ∀ m, c.seqOf a.data = some m → m < c.expectedReceiverSeq) :
    SameTarget c (c.deliverAll as) := by
  induction as generalizing c with
  | nil => exact .refl c
  | cons a as ih =>
      have hsame := deliver_same_of_stale (has a List.mem_cons_self)
      refine hsame.trans (ih (c.deliver a) fun b hb m hm => ?_)
      rw [deliver_seqOf] at hm
      rw [hsame.expectedReceiverSeq]
      exact has b (List.mem_cons_of_mem _ hb) m hm

theorem UdpConnection.deliverAll_frame (c : UdpConnection Cipher Addr) (as : List (Arrival Addr)) :
    (c.deliverAll as).session = c.session ∧ (c.deliverAll as).server = c.server := by
  induction as generalizing c with
  | nil => exact ⟨rfl, rfl⟩
  | cons a as ih =>
      obtain ⟨hsession, hserver⟩ := ih (c.deliver a)
      exact ⟨hsession.trans (c.deliver_frame a).1, hserver.trans (c.deliver_frame a).2⟩

theorem UdpConnection.deliverAll_seqOf (c : UdpConnection Cipher Addr) (as : List (Arrival Addr))
    (data : Bytes) : (c.deliverAll as).seqOf data = c.seqOf data := by
  rw [seqOf, seqOf, openPacket_congr (c.deliverAll_frame as).1 (c.deliverAll_frame as).2]

/-- A server that expects anything sends to where the first of the highest came
from. -/
theorem UdpConnection.deliverAll_target {as : List (Arrival Addr)} (hserver : c.server = true)
    (hexpected : c.expectedReceiverSeq = 0)
    (ha : FirstOfHighest (fun b : Arrival Addr => c.seqOf b.data) as a) :
    (c.deliverAll as).remoteAddr = some a.peer := by
  obtain ⟨before, after, n, rfl, hn, hbefore, hafter⟩ := ha
  -- the bar is at or below `n` when `a` comes, and above all that follows it
  have hbar := c.deliverAll_expected_le before (hexpected ▸ Nat.zero_le n) hbefore
  have hseq : (c.deliverAll before).seqOf a.data = some n :=
    (c.deliverAll_seqOf before a.data).trans hn
  rcases (c.deliverAll before).deliver_expected a with ⟨hstale, -⟩ | ⟨m, hm, -, hnext, htarget⟩
  · exact absurd (hstale n hseq) (Nat.not_lt.mpr hbar)
  · cases hseq.symm.trans hm
    have hrest := ((c.deliverAll before).deliver a).deliverAll_same_of_stale after
      fun b hb m hm => by
        rw [deliver_seqOf, deliverAll_seqOf] at hm
        rw [hnext]
        exact Nat.lt_succ_of_le (hafter b hb m hm)
    have hsplit : c.deliverAll (before ++ a :: after)
        = ((c.deliverAll before).deliver a).deliverAll after := by
      rw [deliverAll, List.foldl_append]
      rfl
    rw [hsplit, hrest.remoteAddr, htarget, (c.deliverAll_frame before).2, if_pos hserver]

/-- Copies of what a server has processed leave its target, its sequence check,
its timestamp and the samples of the round trip as they would be without them;
and the target is where the first arrival of the highest number came from. -/
theorem replays_change_nothing (c : UdpConnection Cipher Addr) (session : Crypto.Session Cipher)
    (socket : Addr) (now : Nat) :
    (∀ {xs ys : List (Arrival Addr)}, WithReplays [] xs ys →
      (c.deliverAll ys).remoteAddr = (c.deliverAll xs).remoteAddr ∧
      (c.deliverAll ys).hasRemoteAddr = (c.deliverAll xs).hasRemoteAddr ∧
      (c.deliverAll ys).expectedReceiverSeq = (c.deliverAll xs).expectedReceiverSeq ∧
      (c.deliverAll ys).savedTimestamp = (c.deliverAll xs).savedTimestamp ∧
      (c.deliverAll ys).savedTimestampReceivedAt = (c.deliverAll xs).savedTimestampReceivedAt ∧
      c.samples ys = c.samples xs ∧ (c.deliverAll ys).rtt = (c.deliverAll xs).rtt) ∧
    ∀ (as : List (Arrival Addr)) (addr : Addr),
      let fresh := build socket session true now
      (fresh.deliverAll as).remoteAddr = some addr ↔
        ∃ a, FirstOfHighest (fun b : Arrival Addr => fresh.seqOf b.data) as a ∧ a.peer = addr := by
  constructor
  · intro xs ys h
    obtain ⟨hsame, hsamples⟩ := deliverAll_same h (.refl c) fun _ hdata => by cases hdata
    exact ⟨hsame.remoteAddr, hsame.hasRemoteAddr, hsame.expectedReceiverSeq,
      hsame.savedTimestamp, hsame.savedTimestampReceivedAt, hsamples, hsame.rtt⟩
  · intro as addr fresh
    constructor
    · intro htarget
      rcases exists_firstOfHighest (fun b : Arrival Addr => fresh.seqOf b.data) as
        with hnone | ⟨a, ha⟩
      · -- nothing opened, so nothing was attached
        have hsame := fresh.deliverAll_same_of_stale as fun b hb m hm => by
          rw [hnone b hb] at hm
          cases hm
        rw [hsame.remoteAddr] at htarget
        cases htarget
      · rw [deliverAll_target rfl rfl ha] at htarget
        exact ⟨a, ha, Option.some.inj htarget⟩
    · rintro ⟨a, ha, rfl⟩
      exact deliverAll_target rfl rfl ha

end Delivery

section Witness

/-- A packet as the wire carries it. -/
def packetOf (msg : Crypto.Message) : Bytes :=
  ((Crypto.Session.new zeroKey : Crypto.Session Bytes).encrypt msg).2.getD []

/-- The client's two packets, the second 40 ms after the timestamp it echoes. -/
def genuine : List (Arrival Nat) :=
  [⟨packetOf firstMessage, 12345, ⟨1700000000000, 5⟩, 5⟩,
    ⟨packetOf secondMessage, 23456, ⟨1700000000040, 9⟩, 9⟩]

/-- The same with each replayed from elsewhere. -/
def replayed : List (Arrival Nat) :=
  [⟨packetOf firstMessage, 12345, ⟨1700000000000, 5⟩, 5⟩,
    ⟨packetOf firstMessage, 666, ⟨1700000000001, 6⟩, 6⟩,
    ⟨packetOf secondMessage, 23456, ⟨1700000000040, 9⟩, 9⟩,
    ⟨packetOf secondMessage, 666, ⟨1700000000090, 10⟩, 10⟩,
    ⟨packetOf firstMessage, 667, ⟨1700000000091, 11⟩, 11⟩]

theorem replayed_genuine : WithReplays [] genuine replayed :=
  .arrival _ <| .replay _ List.mem_cons_self <| .arrival _ <|
    .replay _ List.mem_cons_self <|
      .replay _ (List.mem_cons_of_mem _ List.mem_cons_self) <| .nil _

theorem replays_change_nothing_here :
    let server : UdpConnection Bytes Nat := build 60001 (.new zeroKey) true 0
    (server.deliverAll replayed).remoteAddr = some 23456 ∧
      server.samples replayed = [40] := by
  intro server
  have h := (replays_change_nothing server (.new zeroKey) 60001 0).1 replayed_genuine
  have htarget : (server.deliverAll genuine).remoteAddr = some 23456 := by decide +kernel
  have hsamples : server.samples genuine = [40] := by decide +kernel
  exact ⟨h.1.trans htarget, h.2.2.2.2.2.1.trans hsamples⟩

end Witness

end Morsh
