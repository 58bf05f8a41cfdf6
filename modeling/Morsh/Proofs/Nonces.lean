import Mathlib.Data.List.Nodup
import Mathlib.Data.Nat.Bitwise
import Morsh.Network.ConnectionRun
import Morsh.Proofs.Fragment
import Morsh.Statesync.Wire

/-!
# No nonce is used twice

A side spends its sequence numbers upwards, one for each packet it seals, so
the nonces of one side differ; the direction bit, which the counter never
reaches, keeps the two sides apart. That it never reaches it is the block
counter's doing: a packet holds at least a header, so each costs a block, and
the session returns nothing past 2^47 of them.

`Seals` describes a call by its effect on the counters and composes, so the loop
of `send`, a failed send in the middle of it and a panic are all covered by one
statement: what has been sealed is under increasing numbers from the first spent
to the bound. The record of a side is then the concatenation of these ranges
(`Counted`), without a number twice. Two sides of one key keep apart by the
direction bit, whatever the order in which their calls are made.
-/

namespace Morsh

open BigEndian

/-- The nonce a datagram shows. -/
def wireNonce (data : Bytes) : Nat := decode (data.take 8)

/-- The nonce value a side uses with a sequence number. -/
def nonceAt (server : Bool) (seq : Nat) : Nat :=
  if server then TO_CLIENT_BIT ||| seq else seq

variable {server : Bool} {seq m n : Nat}

theorem nonceAt_eq (h : seq < 2 ^ 63) :
    nonceAt server seq = (if server then 2 ^ 63 else 0) + seq := by
  cases server with
  | false => rw [nonceAt, if_neg Bool.false_ne_true, if_neg Bool.false_ne_true, Nat.zero_add]
  | true =>
      have hor := Nat.two_pow_add_eq_or_of_lt h 1
      rw [Nat.mul_one] at hor
      rw [nonceAt, if_pos rfl, if_pos rfl, TO_CLIENT_BIT, hor]

theorem nonceAt_lt (h : seq < 2 ^ 63) : nonceAt server seq < 2 ^ 64 := by
  rw [nonceAt_eq h]
  split <;> omega

theorem nonceAt_direction (h : seq < 2 ^ 63) :
    nonceAt server seq &&& TO_CLIENT_BIT = if server then TO_CLIENT_BIT else 0 := by
  have hclear : seq.testBit 63 = false := Nat.testBit_lt_two_pow h
  rw [nonceAt, TO_CLIENT_BIT, Nat.and_two_pow]
  cases server with
  | false =>
      rw [if_neg Bool.false_ne_true, if_neg Bool.false_ne_true, hclear, Bool.toNat_false,
        Nat.zero_mul]
  | true =>
      rw [if_pos rfl, if_pos rfl, Nat.testBit_or, Nat.testBit_two_pow_self, Bool.true_or,
        Bool.toNat_true, Nat.one_mul]

theorem nonceAt_seq (h : seq < 2 ^ 63) : nonceAt server seq % TO_CLIENT_BIT = seq := by
  rw [nonceAt_eq h, TO_CLIENT_BIT]
  split <;> omega

section Sealing

variable {Cipher Addr : Type}

/-- What a side can still afford: no more packets than blocks, under the
session's limit. -/
def UdpConnection.InBudget (c : UdpConnection Cipher Addr) : Prop :=
  c.sendSeq ≤ c.session.blocksEncrypted ∧ c.session.blocksEncrypted < 2 ^ 47

/-- The datagrams were sealed under strictly increasing sequence numbers, from
`first` on and below `bound`. -/
def SealedUnder (server : Bool) (first bound : Nat) (produced : List Bytes) : Prop :=
  ∃ seqs : List Nat, produced.map wireNonce = seqs.map (nonceAt server) ∧
    seqs.Pairwise (· < ·) ∧ ∀ n ∈ seqs, first ≤ n ∧ n < bound

/-- All that a call does to the numbers: it seals packets under the next ones,
and pays for them unless it panics. -/
structure Seals (c : UdpConnection Cipher Addr) (produced : List Bytes)
    (c' : UdpConnection Cipher Addr) (panicked : Bool) : Prop where
  server : c'.server = c.server
  counter : c.sendSeq ≤ c'.sendSeq
  limit : c.InBudget → c'.sendSeq ≤ 2 ^ 47
  budget : panicked = false → c.InBudget → c'.InBudget
  nonces : c.InBudget → SealedUnder c.server c.sendSeq c'.sendSeq produced

variable {c c' c'' : UdpConnection Cipher Addr} {ds es : List Bytes} {panicked : Bool}

theorem SealedUnder.append {a b d : Nat} (hab : a ≤ b) (hbd : b ≤ d)
    (hds : SealedUnder server a b ds) (hes : SealedUnder server b d es) :
    SealedUnder server a d (ds ++ es) := by
  obtain ⟨xs, hxs, hxsorted, hxrange⟩ := hds
  obtain ⟨ys, hys, hysorted, hyrange⟩ := hes
  refine ⟨xs ++ ys, by rw [List.map_append, List.map_append, hxs, hys], ?_, ?_⟩
  · refine List.pairwise_append.mpr ⟨hxsorted, hysorted, fun x hx y hy => ?_⟩
    exact Nat.lt_of_lt_of_le (hxrange x hx).2 (hyrange y hy).1
  · intro n hn
    rcases List.mem_append.mp hn with hx | hy
    · exact ⟨(hxrange n hx).1, Nat.lt_of_lt_of_le (hxrange n hx).2 hbd⟩
    · exact ⟨Nat.le_trans hab (hyrange n hy).1, (hyrange n hy).2⟩

theorem Seals.of_frame (hserver : c'.server = c.server) (hseq : c'.sendSeq = c.sendSeq)
    (hsession : c'.session = c.session) : Seals c [] c' panicked where
  server := hserver
  counter := hseq.ge
  limit h := hseq ▸ Nat.le_of_lt (Nat.lt_of_le_of_lt h.1 h.2)
  budget _ h := by
    rw [UdpConnection.InBudget, hseq, hsession]
    exact h
  nonces _ := ⟨[], rfl, .nil, by simp⟩

theorem Seals.trans (h : Seals c ds c' false) (h' : Seals c' es c'' panicked) :
    Seals c (ds ++ es) c'' panicked where
  server := h'.server.trans h.server
  counter := h.counter.trans h'.counter
  limit hc := h'.limit (h.budget rfl hc)
  budget hp hc := h'.budget hp (h.budget rfl hc)
  nonces hc := by
    have hes := h'.nonces (h.budget rfl hc)
    rw [h.server] at hes
    exact (h.nonces hc).append h.counter h'.counter hes

variable [Crypto.Ocb3 Cipher]

open UdpConnection

omit [Crypto.Ocb3 Cipher] in
theorem UdpConnection.length_plaintext (c : UdpConnection Cipher Addr) (clocks : Clocks)
    (frag : Fragment) : 14 ≤ (c.plaintext clocks frag).length := by
  simp only [plaintext, Fragment.toBytes, List.length_append, length_encode]
  omega

theorem UdpConnection.encryptFragment_some {clocks : Clocks} {frag : Fragment} {wire : Bytes}
    (h : c.encryptFragment clocks frag = (c', some wire)) :
    c.session.encrypt ⟨.fromVal c.nonceVal, c.plaintext clocks frag⟩
      = (c'.session, some wire) := by
  obtain ⟨rfl, hwire⟩ := Prod.mk.inj h
  exact Prod.ext rfl hwire

/-- A packet that is returned cost at least a block, and left the session under
its limit. -/
theorem UdpConnection.encryptFragment_blocks {clocks : Clocks} {frag : Fragment} {wire : Bytes}
    (h : c.encryptFragment clocks frag = (c', some wire)) :
    c.session.blocksEncrypted < c'.session.blocksEncrypted ∧
      c'.session.blocksEncrypted < 2 ^ 47 := by
  obtain ⟨-, -, hblocks, hlimit⟩ := Crypto.Session.encrypt_some (encryptFragment_some h)
  have hlen := c.length_plaintext clocks frag
  simp only at hblocks
  omega

theorem UdpConnection.encryptFragment_nonce {clocks : Clocks} {frag : Fragment} {wire : Bytes}
    (h : c.encryptFragment clocks frag = (c', some wire)) (hseq : c.sendSeq < 2 ^ 63) :
    wireNonce wire = nonceAt c.server c.sendSeq := by
  obtain ⟨hhead, -⟩ := Crypto.Session.encrypt_some (encryptFragment_some h)
  rw [wireNonce, hhead, Crypto.Nonce.ccStr_fromVal, decode_encode]
  exact Nat.mod_eq_of_lt (nonceAt_lt hseq)

theorem UdpConnection.encryptFragment_seals (c : UdpConnection Cipher Addr) (clocks : Clocks)
    (frag : Fragment) :
    Seals c (c.encryptFragment clocks frag).2.toList (c.encryptFragment clocks frag).1
      (c.encryptFragment clocks frag).2.isNone := by
  have hcounter : (c.encryptFragment clocks frag).1.sendSeq = c.sendSeq + 1 := rfl
  refine ⟨rfl, by omega, fun h => ?_, fun hp h => ?_, fun h => ?_⟩
  · have := h.1
    have := h.2
    omega
  · obtain ⟨wire, hwire⟩ := Option.isSome_iff_exists.mp
      (by rwa [← Option.not_isNone, Bool.not_eq_true'])
    have hpair : c.encryptFragment clocks frag = ((c.encryptFragment clocks frag).1, some wire) :=
      Prod.ext rfl hwire
    have hblocks := encryptFragment_blocks hpair
    have := h.1
    exact ⟨by omega, hblocks.2⟩
  · cases hwire : (c.encryptFragment clocks frag).2 with
    | none => exact ⟨[], rfl, .nil, by simp⟩
    | some wire =>
        have hseq : c.sendSeq < 2 ^ 63 := by
          have := h.1
          have := h.2
          omega
        refine ⟨[c.sendSeq], ?_, List.pairwise_singleton _ _, ?_⟩
        · simpa using encryptFragment_nonce (Prod.ext rfl hwire) hseq
        · intro n hn
          rw [List.mem_singleton.mp hn]
          omega

/-- The loop of `send`, wherever it stops. -/
theorem UdpConnection.sendFragments_seals (c : UdpConnection Cipher Addr)
    (os : Nat → Clocks × Except String Unit) (frags : List Fragment) :
    Seals c (c.sendFragments os frags).produced (c.sendFragments os frags).connection
      (c.sendFragments os frags).result.isNone := by
  induction frags generalizing c os with
  | nil => exact .of_frame rfl rfl rfl
  | cons frag frags ih =>
      have hfirst := c.encryptFragment_seals (os 0).1 frag
      rw [sendFragments]
      split
      · next heq => rw [heq] at hfirst; exact hfirst
      · next next wire heq =>
          rw [heq] at hfirst
          split
          · exact hfirst
          · exact hfirst.trans (ih next _)

variable [Zlib] [ProstMessage Instruction]

theorem UdpConnection.send_seals (c : UdpConnection Cipher Addr)
    (os : Nat → Clocks × Except String Unit) (inst : Instruction) :
    Seals c (c.send os inst).produced (c.send os inst).connection
      (c.send os inst).result.isNone := by
  rw [send]
  split
  · exact .of_frame rfl rfl rfl
  · split
    · exact .of_frame rfl rfl rfl
    · exact .of_frame rfl rfl rfl
    · next fragger frags _ =>
        exact (Seals.of_frame rfl rfl rfl : Seals c [] { c with fragger := fragger } false).trans
          (sendFragments_seals _ os frags)

theorem UdpConnection.processIncoming_frame (c : UdpConnection Cipher Addr) (data : Bytes)
    (peer : Addr) (clocks : Clocks) (heardAt : Nat) :
    (c.processIncoming data peer clocks heardAt).1.server = c.server ∧
      (c.processIncoming data peer clocks heardAt).1.sendSeq = c.sendSeq ∧
      (c.processIncoming data peer clocks heardAt).1.session = c.session := by
  rw [processIncoming]
  split
  · exact ⟨rfl, rfl, rfl⟩
  · split
    · exact ⟨rfl, rfl, rfl⟩
    · simp only [addFragment, freshen, recordRtt]
      split <;> split <;> split <;> exact ⟨rfl, rfl, rfl⟩

omit [Crypto.Ocb3 Cipher] [Zlib] [ProstMessage Instruction] in
theorem UdpConnection.hopPort_frame (c : UdpConnection Cipher Addr) (socket : Except String Addr)
    (now : Nat) :
    (c.hopPort socket now).1.server = c.server ∧ (c.hopPort socket now).1.sendSeq = c.sendSeq ∧
      (c.hopPort socket now).1.session = c.session := by
  cases socket <;> exact ⟨rfl, rfl, rfl⟩

/-- Every call, whatever it was: what it adds to the record is what it sealed.
Only sending seals; the other calls leave the direction, the counter and the
session alone. -/
theorem ConnectionEnd.perform_seals (e : ConnectionEnd Cipher Addr) (op : ConnectionOp Addr) :
    ∃ ds, (e.perform op).produced = e.produced ++ ds ∧
      Seals e.connection ds (e.perform op).connection (e.perform op).panicked := by
  cases op with
  | encryptFragment clocks frag =>
      exact ⟨_, rfl, e.connection.encryptFragment_seals clocks frag⟩
  | send os inst => exact ⟨_, rfl, e.connection.send_seals os inst⟩
  | processIncoming data peer clocks heardAt =>
      obtain ⟨hserver, hseq, hsession⟩ :=
        e.connection.processIncoming_frame data peer clocks heardAt
      exact ⟨[], (List.append_nil _).symm, .of_frame hserver hseq hsession⟩
  | hopPort socket now =>
      obtain ⟨hserver, hseq, hsession⟩ := e.connection.hopPort_frame socket now
      exact ⟨[], (List.append_nil _).symm, .of_frame hserver hseq hsession⟩
  | setRemoteAddr | setLastRoundtripSuccess | recordRtt =>
      exact ⟨[], (List.append_nil _).symm, .of_frame rfl rfl rfl⟩

/-- A side of a run: still the side it was built as, within its budget while it
lives, with everything it sealed under the numbers it has spent. -/
structure ConnectionEnd.Counted (server : Bool) (e : ConnectionEnd Cipher Addr) : Prop where
  side : e.connection.server = server
  limit : e.connection.sendSeq ≤ 2 ^ 47
  budget : e.panicked = false → e.connection.InBudget
  nonces : SealedUnder server 0 e.connection.sendSeq e.produced

theorem ConnectionEnd.Counted.step {e e' : ConnectionEnd Cipher Addr} {op : ConnectionOp Addr}
    (h : e.Counted server) (hstep : e.step op = some e') : e'.Counted server := by
  rw [ConnectionEnd.step] at hstep
  split at hstep
  · cases hstep
  · next halive =>
      cases hstep
      have hbudget := h.budget (Bool.eq_false_iff.mpr halive)
      obtain ⟨ds, hproduced, hseals⟩ := e.perform_seals op
      have hnew := hseals.nonces hbudget
      rw [h.side] at hnew
      exact {
        side := hseals.server.trans h.side
        limit := hseals.limit hbudget
        budget := fun hp => hseals.budget hp hbudget
        nonces := hproduced ▸ h.nonces.append (Nat.zero_le _) hseals.counter hnew }

omit [Zlib] [ProstMessage Instruction] in
theorem ConnectionEnd.Counted.start (key : Bytes) (socket : Addr) (server : Bool) (now : Nat) :
    (⟨.build socket (.new key) server now, [], false⟩ : ConnectionEnd Cipher Addr).Counted server :=
  ⟨rfl, Nat.zero_le _, fun _ => ⟨Nat.le_refl 0, Nat.two_pow_pos 47⟩, [], rfl, .nil, by simp⟩

structure ConnectionPair.Counted (p : ConnectionPair Cipher Addr) : Prop where
  client : p.client.Counted false
  server : p.server.Counted true

omit [Zlib] [ProstMessage Instruction] in
theorem ConnectionPair.Counted.start (key : Bytes) (clientSocket serverSocket : Addr) (now : Nat) :
    (ConnectionPair.start key clientSocket serverSocket now
      : ConnectionPair Cipher Addr).Counted where
  client := .start key clientSocket false now
  server := .start key serverSocket true now

theorem ConnectionPair.Counted.step {p p' : ConnectionPair Cipher Addr}
    {op : Side × ConnectionOp Addr} (h : p.Counted) (hstep : p.step op = some p') :
    p'.Counted := by
  obtain ⟨side, op⟩ := op
  cases side with
  | client =>
      obtain ⟨e, he, rfl⟩ := Option.map_eq_some_iff.mp hstep
      exact ⟨h.client.step he, h.server⟩
  | server =>
      obtain ⟨e, he, rfl⟩ := Option.map_eq_some_iff.mp hstep
      exact ⟨h.client, h.server.step he⟩

theorem ConnectionPair.run_counted {p p' : ConnectionPair Cipher Addr}
    {ops : List (Side × ConnectionOp Addr)} (h : p.Counted)
    (hrun : Run.run ConnectionPair.step p ops = some p') : p'.Counted :=
  Run.run_invariant (fun _ _ _ => Counted.step) h hrun

omit [Crypto.Ocb3 Cipher] [Zlib] [ProstMessage Instruction] in
/-- What a datagram's nonce says about who sealed it, and when. The direction bit
is above the range of the counter, which is what makes both readable from one
number. -/
theorem ConnectionEnd.Counted.mem {e : ConnectionEnd Cipher Addr} (h : e.Counted server)
    {data : Bytes} (hdata : data ∈ e.produced) :
    wireNonce data &&& TO_CLIENT_BIT = (if server then TO_CLIENT_BIT else 0) ∧
      wireNonce data % TO_CLIENT_BIT < e.connection.sendSeq := by
  obtain ⟨seqs, hseqs, -, hrange⟩ := h.nonces
  have hmem : wireNonce data ∈ seqs.map (nonceAt server) :=
    hseqs ▸ List.mem_map_of_mem hdata
  obtain ⟨seq, hseq, hnonce⟩ := List.mem_map.mp hmem
  have hspent := (hrange seq hseq).2
  have hlt : seq < 2 ^ 63 := by
    have := h.limit
    omega
  rw [← hnonce, nonceAt_direction hlt, nonceAt_seq hlt]
  exact ⟨rfl, hspent⟩

omit [Crypto.Ocb3 Cipher] [Zlib] [ProstMessage Instruction] in
theorem ConnectionEnd.Counted.nodup {e : ConnectionEnd Cipher Addr} (h : e.Counted server) :
    (e.produced.map wireNonce).Nodup := by
  obtain ⟨seqs, hseqs, hsorted, hrange⟩ := h.nonces
  rw [hseqs]
  refine List.Nodup.map_on (fun x hx y hy hxy => ?_) (hsorted.imp Nat.ne_of_lt)
  have hlimit := h.limit
  have hx : x < 2 ^ 63 := by have := (hrange x hx).2; omega
  have hy : y < 2 ^ 63 := by have := (hrange y hy).2; omega
  calc x = nonceAt server x % TO_CLIENT_BIT := (nonceAt_seq hx).symm
    _ = nonceAt server y % TO_CLIENT_BIT := by rw [hxy]
    _ = y := nonceAt_seq hy

omit [Crypto.Ocb3 Cipher] [Zlib] [ProstMessage Instruction] in
theorem ConnectionPair.Counted.nodup {p : ConnectionPair Cipher Addr} (h : p.Counted) :
    ((p.client.produced ++ p.server.produced).map wireNonce).Nodup := by
  rw [List.map_append]
  refine h.client.nodup.append h.server.nodup fun nonce hclient hserver => ?_
  obtain ⟨data, hdata, rfl⟩ := List.mem_map.mp hclient
  obtain ⟨data', hdata', hsame⟩ := List.mem_map.mp hserver
  have hzero := (h.client.mem hdata).1
  rw [← hsame, (h.server.mem hdata').1] at hzero
  exact absurd hzero (by decide)

/-- In every run of the two ends of a key no two datagrams carry one nonce. The
direction bit of each is its side's and the rest is a number its side has spent;
a side spends at most 2^47, since a packet that is returned cost a block. -/
theorem nonces_never_repeat (key : Bytes) (clientSocket serverSocket : Addr) (now : Nat)
    {ops : List (Side × ConnectionOp Addr)} {p : ConnectionPair Cipher Addr}
    (hrun : Run.run ConnectionPair.step (.start key clientSocket serverSocket now) ops = some p) :
    ((p.client.produced ++ p.server.produced).map (List.take 8)).Nodup ∧
      (∀ data ∈ p.client.produced, wireNonce data &&& TO_CLIENT_BIT = 0 ∧
        wireNonce data % TO_CLIENT_BIT < p.client.connection.sendSeq) ∧
      (∀ data ∈ p.server.produced, wireNonce data &&& TO_CLIENT_BIT = TO_CLIENT_BIT ∧
        wireNonce data % TO_CLIENT_BIT < p.server.connection.sendSeq) ∧
      p.client.connection.sendSeq ≤ 2 ^ 47 ∧ p.server.connection.sendSeq ≤ 2 ^ 47 ∧
      ∀ (c c' : UdpConnection Cipher Addr) (clocks : Clocks) (frag : Fragment) (wire : Bytes),
        c.encryptFragment clocks frag = (c', some wire) →
          c.session.blocksEncrypted < c'.session.blocksEncrypted ∧
            c'.session.blocksEncrypted < 2 ^ 47 := by
  have h := ConnectionPair.run_counted (.start key clientSocket serverSocket now) hrun
  have hnodup : (((p.client.produced ++ p.server.produced).map (List.take 8)).map
      decode).Nodup := by
    rw [List.map_map]
    exact h.nodup
  exact ⟨hnodup.of_map decode, fun _ => h.client.mem, fun _ => h.server.mem, h.client.limit,
    h.server.limit, fun _ _ _ _ _ => UdpConnection.encryptFragment_blocks⟩

end Sealing

section Witness

def zeroKey : Bytes := List.replicate 16 0

/-- A client's first packet, and its second once it has something to echo. -/
def firstMessage : Crypto.Message :=
  ⟨.fromVal 0, [104, 0, 255, 255, 0, 0, 0, 0, 0, 0, 0, 1, 128, 0] ++ firstStream⟩

def secondMessage : Crypto.Message :=
  ⟨.fromVal 1, [104, 20, 104, 0, 0, 0, 0, 0, 0, 0, 0, 2, 128, 0] ++ secondStream⟩

/-- The server's first packet, with the text of the client's. -/
def serverMessage : Crypto.Message := ⟨.fromVal TO_CLIENT_BIT, firstMessage.text⟩

/-- What AES-128-OCB3 makes of the three under the zero key. -/
def sealedMessages : List (Crypto.Message × Bytes × Bytes) :=
  [(firstMessage,
      [104, 226, 156, 63, 72, 46, 132, 146, 163, 189, 137, 100, 184, 94, 234, 183, 179, 79, 18,
        176, 91, 236, 114, 61, 160, 108, 33, 15, 21, 97, 142, 91, 231, 242, 60, 210, 32],
      [145, 156, 3, 235, 12, 144, 72, 99, 114, 164, 81, 120, 244, 23, 155, 252]),
    (secondMessage,
      [202, 135, 201, 110, 166, 79, 90, 11, 182, 134, 45, 28, 38, 176, 87, 24, 81, 51, 13, 52,
        11, 136, 244, 192, 15, 187, 19, 83, 134, 230, 12, 54, 116, 252, 61, 244, 82],
      [197, 56, 115, 33, 131, 86, 69, 52, 187, 123, 195, 161, 93, 150, 109, 245]),
    (serverMessage,
      [90, 238, 146, 75, 184, 210, 206, 218, 29, 132, 210, 220, 212, 141, 242, 235, 72, 5, 199,
        132, 141, 141, 68, 53, 200, 141, 225, 165, 174, 179, 86, 136, 92, 155, 233, 208, 58],
      [187, 117, 59, 175, 59, 86, 89, 10, 18, 3, 19, 184, 144, 205, 255, 99])]

/-- AES-128-OCB3 at the zero key and those packets. -/
instance tableOcb : Crypto.Ocb3 Bytes where
  new key := key
  encryptInPlaceDetached key nonce text :=
    if key = zeroKey then (sealedMessages.find? fun e => e.1 = ⟨nonce, text⟩).map (·.2) else none
  decryptInPlaceDetached key nonce buffer tag :=
    if key = zeroKey then
      (sealedMessages.find? fun e => e.1.nonce = nonce ∧ e.2 = (buffer, tag)).map (·.1.text)
    else none

def firstFragment : Fragment := ⟨1, true, 0, firstStream⟩
def secondFragment : Fragment := ⟨2, true, 0, secondStream⟩

/-- A packet each way, a port hop, and a second packet from the client. An address
is a port number. -/
def exchangeOps : List (Side × ConnectionOp Nat) :=
  [(.client, .encryptFragment ⟨1700000000000, 0⟩ firstFragment),
    (.server, .encryptFragment ⟨1700000000000, 0⟩ firstFragment),
    (.client, .processIncoming
      (encode 8 TO_CLIENT_BIT ++ (sealedMessages.drop 2).flatMap fun e => e.2.1 ++ e.2.2)
      60001 ⟨1700000000000, 0⟩ 0),
    (.client, .hopPort (.ok 40001) 0),
    (.client, .encryptFragment ⟨1700000000020, 0⟩ secondFragment)]

theorem nonces_never_repeat_exchange :
    ∃ p : ConnectionPair Bytes Nat,
      Run.run ConnectionPair.step (.start zeroKey 40000 60001 0) exchangeOps = some p ∧
        ((p.client.produced ++ p.server.produced).map (List.take 8)).Nodup ∧
        p.client.produced.length = 2 ∧ p.server.produced.length = 1 := by
  have hcount : (Run.run ConnectionPair.step
      (.start zeroKey 40000 60001 0 : ConnectionPair Bytes Nat) exchangeOps).map
        (fun p => (p.client.produced.length, p.server.produced.length)) = some (2, 1) := by
    decide +kernel
  obtain ⟨p, hrun, hlength⟩ := Option.map_eq_some_iff.mp hcount
  obtain ⟨hclient, hserver⟩ := Prod.mk.inj hlength
  exact ⟨p, hrun, (nonces_never_repeat zeroKey 40000 60001 0 hrun).1, hclient, hserver⟩

end Witness

end Morsh
