import Morsh.Proofs.Replay

/-!
# The round trip in an echoed timestamp

An end stamps a packet, the other end echoes the stamp advanced by the time it
held it, and the difference to the clock on arrival is the time on the network.
All three values wrap at 16 bits, each by itself, and the value 0xFFFF is taken
for "none", so that a clock that shows it is read as 0, a millisecond ahead.

Each of the three values is a whole number of periods away from what it stands
for, so modulo 2^16 the difference is the one wanted, and it is exact as long as
it fits: a signed 16-bit difference holds what is less than half a period. The
cases that remain are the reserved values. A clock that shows 0xFFFF is stamped 0,
which adds a millisecond; a stamp of 0 is taken for none by the end that holds it,
and an echo of 0xFFFF for none by the end that asked.
-/

namespace Morsh

variable {Cipher Addr : Type}

/-! ## The three values -/

theorem timestamp16_eq (ms : Nat) :
    timestamp16 ms = if ms % 65536 = 65535 then 0 else ms % 65536 := by
  have hwide : ms % 2 ^ 64 % 65536 = ms % 65536 := Nat.mod_mod_of_dvd ms (by decide)
  simp only [timestamp16, NO_TIMESTAMP, hwide]

theorem timestamp16_lt (ms : Nat) : timestamp16 ms < 65535 := by
  rw [timestamp16_eq]
  split <;> omega

theorem timestampDiff_eq {a b : Nat} {d k : Int} (h : (a : Int) - b = d + 65536 * k)
    (hlow : -32768 ≤ d) (hhigh : d < 32768) : timestampDiff a b = d := by
  rw [timestampDiff, h]
  change (d + ((65536 : Nat) : Int) * k).bmod 65536 = d
  rw [Int.add_mul_bmod_self_left]
  exact Int.bmod_eq_of_le hlow hhigh

/-- The clock on arrival against the echo: exact, unless the clock shows the
value that is not sent. -/
theorem timestampDiff_echo {t n h : Nat} (hn : n ≤ 32766) :
    (n : Int) ≤ timestampDiff (timestamp16 (t + n + h)) ((t + h) % 65536) ∧
      timestampDiff (timestamp16 (t + n + h)) ((t + h) % 65536) ≤ n + 1 := by
  rw [timestamp16_eq]
  have harrived := Nat.div_add_mod (t + n + h) 65536
  have hechoed := Nat.div_add_mod (t + h) 65536
  split
  · next hlast =>
      -- the clock is read one millisecond ahead, in the next period
      have hdiff : timestampDiff 0 ((t + h) % 65536) = n + 1 :=
        timestampDiff_eq (k := ((t + h) / 65536 : Nat) - ((t + n + h) / 65536 : Nat) - 1)
          (by push_cast; omega) (by omega) (by omega)
      rw [hdiff]
      omega
  · have hdiff : timestampDiff ((t + n + h) % 65536) ((t + h) % 65536) = n :=
      timestampDiff_eq (k := ((t + h) / 65536 : Nat) - ((t + n + h) / 65536 : Nat))
        (by push_cast; omega) (by omega) (by omega)
    rw [hdiff]
    omega

namespace UdpConnection

/-- A saved stamp comes back advanced by the hold time; 0 stands for none. -/
theorem timestampReply_eq {c : UdpConnection Cipher Addr} {now t h : Nat}
    (hsaved : c.savedTimestamp = timestamp16 t)
    (hheld : (now - c.savedTimestampReceivedAt) / 1000000 = h) (hh : h < 1000) :
    c.timestampReply now
      = if timestamp16 t = 0 then NO_TIMESTAMP else (t + h) % 65536 := by
  simp only [timestampReply, hheld, hh, hsaved, true_and]
  by_cases hzero : timestamp16 t = 0
  · rw [if_pos hzero, if_neg (not_not.mpr hzero)]
  · rw [if_neg hzero, if_pos hzero]
    rw [timestamp16_eq] at hzero ⊢
    split at hzero
    · exact absurd rfl hzero
    · next hlast =>
        rw [if_neg hlast]
        omega

theorem timestampReply_lt (c : UdpConnection Cipher Addr) (now : Nat) :
    c.timestampReply now < 2 ^ 16 := by
  simp only [timestampReply]
  split
  · exact Nat.mod_lt _ (by decide)
  · decide

/-! ## On the wire -/

variable [Crypto.Ocb3 Cipher]

/-- What is opened is what was stamped. -/
theorem openPacket_stamps {c d : UdpConnection Cipher Addr} {data : Bytes} {nonce : Crypto.Nonce}
    {clocks : Clocks} {f : Fragment} {p : Packet}
    (hdecrypt : c.session.decrypt data = .ok ⟨nonce, d.plaintext clocks f⟩)
    (hopen : c.openPacket data = .ok p) :
    p.timestamp = timestamp16 clocks.sinceEpochMs ∧
      p.timestampReply = d.timestampReply clocks.now := by
  have hstamp : timestamp16 clocks.sinceEpochMs % 256 ^ 2 = timestamp16 clocks.sinceEpochMs :=
    Nat.mod_eq_of_lt (Nat.lt_trans (timestamp16_lt _) (by decide))
  have hreply : d.timestampReply clocks.now % 256 ^ 2 = d.timestampReply clocks.now :=
    Nat.mod_eq_of_lt (d.timestampReply_lt _)
  have hfirst : (d.plaintext clocks f).take 2
      = BigEndian.encode 2 (timestamp16 clocks.sinceEpochMs) := by
    rw [plaintext, List.append_assoc]
    exact List.take_left' (BigEndian.length_encode _ _)
  have hsecond : ((d.plaintext clocks f).drop 2).take 2
      = BigEndian.encode 2 (d.timestampReply clocks.now) := by
    rw [plaintext, List.append_assoc, List.drop_left' (BigEndian.length_encode _ _)]
    exact List.take_left' (BigEndian.length_encode _ _)
  simp only [openPacket, hdecrypt] at hopen
  split at hopen
  · cases hopen
  · split at hopen
    · cases hopen
    · split at hopen
      · cases hopen
      · cases hopen
        simp only [hfirst, hsecond, BigEndian.decode_encode, hstamp, hreply, and_self]

variable [Zlib] [ProstMessage Instruction]

/-- `stamper` stamps a packet at `t`; `holder` opens it and, as `replier`, echoes
the stamp `h` milliseconds later; the echo reaches `asker` after `n` milliseconds
on the network. In between the ends do what they like, but no newer stamp reaches
the one that holds this one. -/
structure RoundTrip (t h n : Nat) (stamper holder replier asker : UdpConnection Cipher Addr)
    (stamped sent : Clocks) (there back : Arrival Addr) : Prop where
  stampedAt : stamped.sinceEpochMs = t
  carried : ∃ nonce f, holder.session.decrypt there.data = .ok ⟨nonce, stamper.plaintext stamped f⟩
  fresh : ∃ p, holder.openPacket there.data = .ok p ∧ holder.expectedReceiverSeq ≤ p.seq
  saved : replier.savedTimestamp = (holder.deliver there).savedTimestamp ∧
    replier.savedTimestampReceivedAt = (holder.deliver there).savedTimestampReceivedAt
  held : (sent.now - there.clocks.now) / 1000000 = h
  carriedBack : ∃ nonce g, asker.session.decrypt back.data = .ok ⟨nonce, replier.plaintext sent g⟩
  freshBack : ∃ q, asker.openPacket back.data = .ok q ∧ asker.expectedReceiverSeq ≤ q.seq
  arrived : back.clocks.sinceEpochMs = t + n + h

variable {t h n : Nat} {stamper holder replier asker : UdpConnection Cipher Addr}
  {stamped sent : Clocks} {there back : Arrival Addr}

theorem RoundTrip.saved_eq
    (hr : RoundTrip t h n stamper holder replier asker stamped sent there back) :
    replier.savedTimestamp = timestamp16 t ∧
      replier.savedTimestampReceivedAt = there.clocks.now := by
  obtain ⟨nonce, f, hdecrypt⟩ := hr.carried
  obtain ⟨p, hopen, hfresh⟩ := hr.fresh
  obtain ⟨assembler, hdeliver⟩ := deliver_fresh (a := there) hopen hfresh
  have hstamp := (openPacket_stamps hdecrypt hopen).1
  rw [hr.stampedAt] at hstamp
  have hsome : p.timestamp ≠ NO_TIMESTAMP := by
    rw [hstamp]
    exact Nat.ne_of_lt (timestamp16_lt t)
  rw [hr.saved.1, hr.saved.2, hdeliver, freshen_eq]
  exact ⟨(if_pos hsome).trans hstamp, if_pos hsome⟩

theorem RoundTrip.sampleTaken
    (hr : RoundTrip t h n stamper holder replier asker stamped sent there back) :
    asker.sampleTaken back = rttSample (t + n + h) (replier.timestampReply sent.now) ∧
      (asker.deliver back).rtt = (asker.sampleTaken back).elim asker.rtt asker.rtt.update := by
  obtain ⟨nonce, g, hdecrypt⟩ := hr.carriedBack
  obtain ⟨q, hopen, hfresh⟩ := hr.freshBack
  obtain ⟨assembler, hdeliver⟩ := deliver_fresh (a := back) hopen hfresh
  have hreply := (openPacket_stamps hdecrypt hopen).2
  have hsample : asker.sampleTaken back
      = rttSample (t + n + h) (replier.timestampReply sent.now) := by
    simp only [UdpConnection.sampleTaken, hopen, if_neg (Nat.not_lt.mpr hfresh), hr.arrived, hreply]
  rw [hdeliver, freshen_eq, hsample, hr.arrived, hreply]
  exact ⟨rfl, rfl⟩

/-- The sample of an echoed timestamp is the time on the network, give or take a
millisecond; a stamp of 0 and an echo of 0xFFFF give none, and neither does a
round trip of five seconds. -/
theorem echo_measures_round_trip
    (hr : RoundTrip t h n stamper holder replier asker stamped sent there back)
    (hh : h < 1000) (hn : 1 ≤ n ∧ n ≤ 32766) :
    let echo := replier.timestampReply sent.now
    let rtt := timestampDiff (timestamp16 back.clocks.sinceEpochMs) echo
    (timestamp16 t = 0 ∨ echo = NO_TIMESTAMP → asker.sampleTaken back = none) ∧
    (¬(timestamp16 t = 0 ∨ echo = NO_TIMESTAMP) →
      (n : Int) ≤ rtt ∧ rtt ≤ n + 1 ∧
      asker.sampleTaken back = if 1 ≤ rtt ∧ rtt ≤ 4999 then some rtt.toNat else none) ∧
    (asker.deliver back).rtt = (asker.sampleTaken back).elim asker.rtt asker.rtt.update := by
  intro echo rtt
  obtain ⟨hsaved, hat⟩ := hr.saved_eq
  obtain ⟨hsample, hrtt⟩ := hr.sampleTaken
  have hecho : echo = if timestamp16 t = 0 then NO_TIMESTAMP else (t + h) % 65536 :=
    timestampReply_eq hsaved (by rw [hat]; exact hr.held) hh
  refine ⟨fun hnone => ?_, fun hsome => ?_, hrtt⟩
  · have hmissing : echo = NO_TIMESTAMP := by
      rcases hnone with hzero | hmissing
      · rw [hecho, if_pos hzero]
      · exact hmissing
    rw [hsample, rttSample]
    exact if_pos hmissing
  · obtain ⟨hstamp, hpresent⟩ := not_or.mp hsome
    rw [if_neg hstamp] at hecho
    have hnear : (n : Int) ≤ rtt ∧ rtt ≤ n + 1 := by
      have hdiff : rtt = timestampDiff (timestamp16 (t + n + h)) ((t + h) % 65536) := by
        rw [← hr.arrived, ← hecho]
      rw [hdiff]
      exact timestampDiff_echo hn.2
    refine ⟨hnear.1, hnear.2, ?_⟩
    rw [hsample, rttSample, if_neg hpresent, ← hr.arrived]
    change (if 0 < rtt ∧ rtt < 5000 then some rtt.toNat else none) = _
    exact if_congr (by omega) rfl rfl

end UdpConnection

section Witness

open UdpConnection

def stampedHere : Arrival Nat := ⟨packetOf serverMessage, 60001, ⟨1700000000000, 0⟩, 0⟩

def echoedHere : Arrival Nat := ⟨packetOf secondMessage, 40000, ⟨1700000000040, 0⟩, 0⟩

def askerHere : UdpConnection Bytes Nat := build 60001 (.new zeroKey) true 0

def holderHere : UdpConnection Bytes Nat := build 40000 (.new zeroKey) false 0

/-- The server's stamp, echoed by the client at once and back after 40 ms. -/
theorem UdpConnection.echo_measures_round_trip_here :
    askerHere.sampleTaken echoedHere = some 40 ∧
      timestampDiff (timestamp16 1700000000040) 26624 ≤ 40 + 1 := by
  have hr : RoundTrip 1700000000000 0 40 askerHere holderHere (holderHere.deliver stampedHere)
      askerHere ⟨1700000000000, 0⟩ ⟨1700000000020, 0⟩ stampedHere echoedHere := by
    refine ⟨rfl, ⟨.fromVal TO_CLIENT_BIT, firstFragment, ?_⟩, ?_, ⟨rfl, rfl⟩, by decide,
      ⟨.fromVal 1, secondFragment, ?_⟩, ?_, rfl⟩
    · decide +kernel
    · exact ⟨⟨0, 26624, NO_TIMESTAMP, firstFragment⟩, by decide +kernel, Nat.zero_le _⟩
    · decide +kernel
    · exact ⟨⟨1, 26644, 26624, secondFragment⟩, by decide +kernel, Nat.zero_le _⟩
  have hecho : (holderHere.deliver stampedHere).timestampReply 0 = 26624 := by decide +kernel
  have h := (echo_measures_round_trip hr (by decide) (by decide)).2.1
  rw [hecho] at h
  exact ⟨by decide +kernel, (h (by decide)).2.1⟩

end Witness

end Morsh
