import Morsh.Proofs.EndToEnd
import Morsh.Proofs.Replay

/-!
# Where the two ends send to

The client sends to the server it was started for. The server sends to where the
newest datagram of the client first came from: nobody can make it turn to
another address but by being the first to pass on a datagram newer than all that
have come.

`SameAim` collects what decides the target: the key, the side, the target itself
and the number expected next. Of the operations of an end only a datagram that
arrives can change it, and `Peer.Stepped.aim` says so once for all of them. What a
datagram does is known from the replays: a number below the bar changes nothing,
any other becomes the bar and turns the server to where it came from. `Follows`
adds this up over the arrivals of a run, in terms of what the server reads them
as.

That they are read as what they are is the other half. A side seals under its key
and in its direction only (`Keyed`), so what the client sealed opens at the server
under the number it shows, what the server sealed is refused where it comes back,
and nothing else opens. None of this looks at what is inside a datagram, so it
holds for any states and instructions of any size.
-/

namespace Morsh

open UdpConnection

/-! ## The first of the highest, one element later -/

section Highest

variable {α : Type} {number : α → Option Nat} {l : List α} {a x : α} {m n : Nat}

theorem FirstOfHighest.concat (h : FirstOfHighest number l a) (hn : number a = some n)
    (hx : ∀ m, number x = some m → m ≤ n) : FirstOfHighest number (l ++ [x]) a := by
  obtain ⟨before, after, k, rfl, hk, hbefore, hafter⟩ := h
  obtain rfl := Option.some.inj (hk.symm.trans hn)
  refine ⟨before, after ++ [x], k, by simp, hk, hbefore, fun b hb m hm => ?_⟩
  rcases List.mem_append.mp hb with hb | hb
  · exact hafter b hb m hm
  · exact hx m (List.mem_singleton.mp hb ▸ hm)

theorem FirstOfHighest.of_above (hx : number x = some m)
    (h : ∀ b ∈ l, ∀ k, number b = some k → k < m) : FirstOfHighest number (l ++ [x]) x :=
  ⟨l, [], m, rfl, hx, h, by simp⟩

theorem FirstOfHighest.congr {number' : α → Option Nat} (h : FirstOfHighest number l a)
    (hsame : ∀ b ∈ l, number' b = number b) : FirstOfHighest number' l a := by
  obtain ⟨before, after, n, rfl, hn, hbefore, hafter⟩ := h
  refine ⟨before, after, n, rfl, (hsame a (by simp)).trans hn, fun b hb m hm => ?_,
    fun b hb m hm => ?_⟩
  · exact hbefore b hb m ((hsame b (by simp [hb])).symm.trans hm)
  · exact hafter b hb m ((hsame b (by simp [hb])).symm.trans hm)

/-- There is only one. -/
theorem FirstOfHighest.unique {b : α} (ha : FirstOfHighest number l a)
    (hb : FirstOfHighest number l b) : a = b := by
  obtain ⟨before, after, n, rfl, hn, hbefore, hafter⟩ := ha
  obtain ⟨before', after', m, hsplit, hm, hbefore', hafter'⟩ := hb
  rcases List.append_eq_append_iff.mp hsplit with ⟨mid, rfl, hmid⟩ | ⟨mid, rfl, hmid⟩
  · cases mid with
    | nil => exact (List.cons.inj hmid).1
    | cons c mid =>
        -- `a` is in front of `b`
        obtain rfl := (List.cons.inj hmid).1
        have hlt := hbefore' a (by simp) n hn
        have hle := hafter b (by rw [(List.cons.inj hmid).2]; simp) m hm
        omega
  · cases mid with
    | nil => exact ((List.cons.inj hmid).1).symm
    | cons c mid =>
        obtain rfl := (List.cons.inj hmid).1
        have hlt := hbefore b (by simp) m hm
        have hle := hafter' a (by rw [(List.cons.inj hmid).2]; simp) n hn
        omega

end Highest

variable {Cipher Addr M R E F : Type}

/-! ## What a step does to a connection's target -/

section Target

/-- The same in what decides where to send to. -/
structure SameAim (c d : UdpConnection Cipher Addr) : Prop where
  cipher : d.session.cipher = c.session.cipher
  server : d.server = c.server
  remoteAddr : d.remoteAddr = c.remoteAddr
  expected : d.expectedReceiverSeq = c.expectedReceiverSeq
  sockets : c.sockets ≠ [] → d.sockets ≠ []

theorem SameAim.refl (c : UdpConnection Cipher Addr) : SameAim c c :=
  ⟨rfl, rfl, rfl, rfl, id⟩

theorem SameAim.trans {c d e : UdpConnection Cipher Addr} (h : SameAim c d) (h' : SameAim d e) :
    SameAim c e :=
  ⟨h'.cipher.trans h.cipher, h'.server.trans h.server, h'.remoteAddr.trans h.remoteAddr,
    h'.expected.trans h.expected, h'.sockets ∘ h.sockets⟩

theorem SameAim.of_hopPort (c : UdpConnection Cipher Addr) (socket : Except String Addr)
    (now : Nat) : SameAim c (c.hopPort socket now).1 := by
  cases socket with
  | error e => exact .refl c
  | ok addr =>
      refine ⟨rfl, rfl, rfl, rfl, fun _ => ?_⟩
      simp only [hopPort, pruneSockets]
      rw [← List.length_pos_iff, List.length_drop, List.length_append, List.length_singleton,
        MAX_PORTS_OPEN]
      omega

variable [Crypto.Ocb3 Cipher]

theorem SameAim.of_sendFragments (c : UdpConnection Cipher Addr)
    (os : Nat → Clocks × Except String Unit) (frags : List Fragment) :
    SameAim c (c.sendFragments os frags).connection := by
  induction frags generalizing c os with
  | nil => exact .refl c
  | cons frag frags ih =>
      have hone : SameAim c (c.encryptFragment (os 0).1 frag).1 :=
        ⟨Crypto.Session.encrypt_cipher _ _, rfl, rfl, rfl, id⟩
      rw [sendFragments]
      split
      · next next heq => rwa [heq] at hone
      · next next wire heq =>
          rw [heq] at hone
          split
          · exact hone
          · exact hone.trans (ih next fun i => os (i + 1))

/-- What a datagram is read as does not change with the aim. -/
theorem SameAim.seqOf {c d : UdpConnection Cipher Addr} (h : SameAim c d) (data : Bytes) :
    d.seqOf data = c.seqOf data := by
  rw [UdpConnection.seqOf, UdpConnection.seqOf, openPacket, openPacket,
    Crypto.Session.decrypt_congr h.cipher, h.server]

theorem Crypto.Session.decrypt_nonce {session : Crypto.Session Cipher} {data : Bytes}
    {msg : Crypto.Message} (h : session.decrypt data = .ok msg) :
    msg.nonce.val = wireNonce data := by
  rw [Crypto.Session.decrypt] at h
  split at h
  · cases h
  · dsimp only at h
    split at h
    · cases h
    · cases h
      rfl

/-- The number of a datagram that opens is the one it shows. -/
theorem seqOf_wire {c : UdpConnection Cipher Addr} {data : Bytes} {n : Nat}
    (h : c.seqOf data = some n) :
    (c.session.decrypt data).toOption.isSome = true ∧ n = wireNonce data % TO_CLIENT_BIT := by
  rw [UdpConnection.seqOf, openPacket] at h
  split at h
  · cases h
  · next msg hmsg =>
      rw [hmsg]
      refine ⟨rfl, ?_⟩
      dsimp only at h
      split at h
      · cases h
      · split at h
        · cases h
        · split at h
          · cases h
          · rw [← Crypto.Session.decrypt_nonce hmsg]
            exact (Option.some.inj h).symm

variable [Zlib] [ProstMessage Instruction]

theorem SameAim.of_send (c : UdpConnection Cipher Addr) (os : Nat → Clocks × Except String Unit)
    (inst : Instruction) : SameAim c (c.send os inst).connection := by
  rw [send]
  split
  · exact .refl c
  · split
    · exact .refl c
    · exact ⟨rfl, rfl, rfl, rfl, id⟩
    · next fragger frags _ =>
        have hfragger : SameAim c { c with fragger := fragger } := ⟨rfl, rfl, rfl, rfl, id⟩
        exact hfragger.trans (.of_sendFragments _ os frags)

theorem deliver_sockets (c : UdpConnection Cipher Addr) (a : Arrival Addr) :
    (c.deliver a).sockets = c.sockets := by
  by_cases hstale : ∀ n, c.seqOf a.data = some n → n < c.expectedReceiverSeq
  · obtain ⟨assembler, hc⟩ := deliver_stale hstale
    rw [hc]
  · obtain ⟨n, hseq, hfresh⟩ : ∃ n, c.seqOf a.data = some n ∧ c.expectedReceiverSeq ≤ n := by
      by_contra hno
      exact hstale fun n hn => Nat.lt_of_not_le fun hle => hno ⟨n, hn, hle⟩
    obtain ⟨p, hp, rfl⟩ := openPacket_of_seqOf hseq
    obtain ⟨assembler, hc⟩ := deliver_fresh hp hfresh
    rw [hc, freshen_eq]

end Target

/-! ## The steps -/

section Runs

variable [State M] [State R] [Crypto.Ocb3 Cipher] [Zlib] [ProstMessage Instruction]

omit [State M] in
/-- Taking in a datagram does to the connection what delivering it does, but for
the time of the last round trip. -/
theorem UdpTransport.processDatagram_connection (t : UdpTransport Cipher Addr M R) (now : Nat)
    (a : Arrival Addr) :
    ∃ time, (t.processDatagram now a).1.connection
      = { t.connection.deliver a with lastRoundtripSuccess := time } := by
  rw [deliver, UdpTransport.processDatagram]
  obtain ⟨connection, incoming⟩ := t.connection.processIncoming a.data a.peer a.clocks a.heardAt
  cases incoming with
  | error e => exact ⟨connection.lastRoundtripSuccess, rfl⟩
  | ok inst =>
      cases inst with
      | none => exact ⟨connection.lastRoundtripSuccess, rfl⟩
      | some inst =>
          exact (UdpTransport.processInstruction_view
            { t with connection := connection } now inst).2

omit [State M] in
theorem UdpTransport.processDatagram_aim (t : UdpTransport Cipher Addr M R) (now : Nat)
    (a : Arrival Addr) :
    SameAim (t.connection.deliver a) (t.processDatagram now a).1.connection := by
  obtain ⟨time, hconn⟩ := t.processDatagram_connection now a
  rw [hconn]
  exact ⟨rfl, rfl, rfl, rfl, id⟩

/-- An operation leaves the aim alone, or takes in a datagram that is no
forgery. -/
theorem Peer.Stepped.aim {x x' : Peer Cipher Addr M R E} {act : M → E → M}
    {sealedBytes : List Bytes} {op : PeerOp Addr E}
    (hsockets : x.transport.connection.sockets ≠ [])
    (hstep : x.Stepped act sealedBytes op x') :
    (SameAim x.transport.connection x'.transport.connection ∧
        ∀ data addr clocks heardAt now, op ≠ .recv (.ok (data, addr)) clocks heardAt now) ∨
      ∃ data addr clocks heardAt now, op = .recv (.ok (data, addr)) clocks heardAt now ∧
        ¬ x.Forged sealedBytes (data.take RECEIVE_MTU) ∧
        SameAim (x.transport.connection.deliver ⟨data.take RECEIVE_MTU, addr, clocks, heardAt⟩)
          x'.transport.connection := by
  cases hstep with
  | tick now hnow chaff os =>
      refine .inl ⟨?_, fun _ _ _ _ _ h => by cases h⟩
      simp only [Peer.tick, UdpTransport.tick]
      split
      · exact .refl _
      · exact .of_send _ _ _
  | @unread arrived e hraw clocks heardAt now =>
      cases arrived with
      | error e => exact .inl ⟨.refl _, fun _ _ _ _ _ h => by cases h⟩
      | ok arrived =>
          -- a connection with a socket reads what has arrived
          simp only [recvRaw, List.isEmpty_iff, if_neg hsockets] at hraw
          cases hraw
  | @read arrived data peer hraw hgenuine clocks heardAt now =>
      cases arrived with
      | error e =>
          simp only [recvRaw, List.isEmpty_iff, if_neg hsockets] at hraw
          cases hraw
      | ok arrived =>
          simp only [recvRaw, List.isEmpty_iff, if_neg hsockets] at hraw
          cases hraw
          exact .inr ⟨arrived.1, arrived.2, clocks, heardAt, now, rfl, hgenuine,
            x.transport.processDatagram_aim now _⟩
  | hop socket now => exact .inl ⟨.of_hopPort _ _ _, fun _ _ _ _ _ h => by cases h⟩
  | edit | wait | shutdown | diff =>
      exact .inl ⟨.refl _, fun _ _ _ _ _ h => by cases h⟩

/-! ## What a side seals -/

omit [Crypto.Ocb3 Cipher] [Zlib] [ProstMessage Instruction] [State M] [State R] in
/-- The bytes of a fragment, of whatever id and number, are long enough to be
read as some fragment. -/
theorem Fragment.exists_fromBytes_toBytes (f : Fragment) :
    ∃ g, Fragment.fromBytes f.toBytes = .ok g := by
  have hlong : ¬ f.toBytes.length < FRAG_HEADER_LEN := by
    simp only [Fragment.toBytes, List.length_append, BigEndian.length_encode, FRAG_HEADER_LEN]
    omega
  exact ⟨_, if_neg hlong⟩

/-- A side keeps its key and its direction, and seals nothing but with them. -/
structure Keyed (key : Bytes) (server : Bool) (x : Peer Cipher Addr M R E) : Prop where
  cipher : x.transport.connection.session.cipher = Crypto.Ocb3.new key
  side : x.transport.connection.server = server
  budget : x.panicked = false → x.transport.connection.InBudget
  produced : ∀ data ∈ x.produced, ∃ f, SealedAs Cipher key server data f

section Keyed

variable {key : Bytes} {server : Bool} {x : Peer Cipher Addr M R E}

omit [State M] [State R] [Zlib] [ProstMessage Instruction] in
theorem Keyed.of_frame (h : Keyed key server x) {x' : Peer Cipher Addr M R E}
    (hproduced : x'.produced = x.produced) (hpanicked : x'.panicked = x.panicked)
    (hserver : x'.transport.connection.server = x.transport.connection.server)
    (hseq : x'.transport.connection.sendSeq = x.transport.connection.sendSeq)
    (hsession : x'.transport.connection.session = x.transport.connection.session) :
    Keyed key server x' where
  cipher := hsession ▸ h.cipher
  side := hserver.trans h.side
  budget hp := by
    rw [InBudget, hseq, hsession]
    exact h.budget (hpanicked ▸ hp)
  produced := by
    rw [hproduced]
    exact h.produced

theorem UdpConnection.send_keyed [Crypto.LawfulOcb3 Cipher] {c : UdpConnection Cipher Addr}
    (hcipher : c.session.cipher = Crypto.Ocb3.new key) (hbudget : c.InBudget)
    (os : Nat → Clocks × Except String Unit) (inst : Instruction) :
    ∀ data ∈ (c.send os inst).produced, ∃ f, SealedAs Cipher key c.server data f := by
  rw [send]
  split
  · exact fun data h => absurd h List.not_mem_nil
  · split
    · exact fun data h => absurd h List.not_mem_nil
    · exact fun data h => absurd h List.not_mem_nil
    · next fragger frags _ =>
        intro data hdata
        obtain ⟨f, -, hsealed, -⟩ :=
          (sendFragments_sealed (c := { c with fragger := fragger }) hcipher hbudget os frags).2
            data hdata
        exact ⟨f, hsealed⟩

omit [State R] in
theorem Keyed.tick [Crypto.LawfulOcb3 Cipher] (h : Keyed key server x) (halive : x.panicked = false)
    (now : Nat) (chaff : Bytes) (os : Nat → Clocks × Except String Unit) :
    Keyed key server (x.tick now chaff os) := by
  simp only [Peer.tick, UdpTransport.tick]
  split
  · exact h.of_frame (List.append_nil _) halive.symm rfl rfl rfl
  · next inst _ =>
      have haim := SameAim.of_send x.transport.connection os inst
      refine ⟨haim.cipher.trans h.cipher, haim.server.trans h.side, fun hp => ?_,
        fun data hdata => ?_⟩
      · exact (x.transport.connection.send_seals os inst).budget hp (h.budget halive)
      · rcases List.mem_append.mp hdata with hold | hnew
        · exact h.produced data hold
        · exact h.side ▸ UdpConnection.send_keyed h.cipher (h.budget halive) os inst data hnew

omit [State M] in
theorem Keyed.processDatagram (h : Keyed key server x) (now : Nat) (a : Arrival Addr) :
    Keyed key server (x.processDatagram now a) := by
  obtain ⟨hserver, hseq, hsession⟩ :=
    x.transport.connection.processIncoming_frame a.data a.peer a.clocks a.heardAt
  obtain ⟨time, hconn⟩ := x.transport.processDatagram_connection now a
  refine h.of_frame rfl rfl ?_ ?_ ?_
  · exact (congrArg (·.server) hconn).trans hserver
  · exact (congrArg (·.sendSeq) hconn).trans hseq
  · exact (congrArg (·.session) hconn).trans hsession

theorem Keyed.step [Crypto.LawfulOcb3 Cipher] {x' : Peer Cipher Addr M R E} {act : M → E → M}
    {sealedBytes : List Bytes} {op : PeerOp Addr E} (h : Keyed key server x)
    (hstep : x.step act sealedBytes op = some x') : Keyed key server x' := by
  obtain ⟨halive, hstepped⟩ := Peer.step_cases hstep
  cases hstepped with
  | tick now hnow chaff os => exact h.tick halive now.val chaff os
  | read hraw hgenuine clocks heardAt now => exact h.processDatagram now _
  | unread => exact h
  | hop socket now =>
      obtain ⟨hserver, hseq, hsession⟩ := x.transport.connection.hopPort_frame socket now
      exact h.of_frame rfl rfl hserver hseq hsession
  | edit | wait | shutdown | diff => exact h.of_frame rfl rfl rfl rfl rfl

omit [State M] [State R] [Zlib] [ProstMessage Instruction] in
/-- The other end reads a datagram of `x` by its number, and `x` refuses it. Both
are due to how it was sealed: under the key of both, with the direction bit of
`x`. -/
theorem Keyed.read {y : Peer Cipher Addr R M F} (h : Keyed key server x)
    (hpeer : Keyed key (!server) y) {data : Bytes} (hdata : data ∈ x.produced) :
    y.transport.connection.seqOf data = some (wireNonce data % TO_CLIENT_BIT) ∧
      x.transport.connection.seqOf data = none := by
  obtain ⟨f, hsealed⟩ := h.produced data hdata
  constructor
  · obtain ⟨g, hg⟩ := f.exists_fromBytes_toBytes
    obtain ⟨p, hopen, -⟩ := openPacket_sealed (d := y.transport.connection) hsealed hpeer.cipher
      (by rw [hpeer.side]; cases server <;> decide) hg
    have hseq := seqOf_of_openPacket hopen
    rw [hseq, (seqOf_wire hseq).2]
  · obtain ⟨e, he⟩ := openPacket_reflected hsealed h.cipher h.side
    rw [seqOf, he]
    rfl

end Keyed

/-! ## Runs -/

namespace Stack

/-- A datagram that arrives at the server: what is read of it, and where it comes
from. -/
def arrival : StackOp Addr E F → Option (Bytes × Addr)
  | .server (.recv (.ok (data, addr)) _ _ _) => some (data.take RECEIVE_MTU, addr)
  | _ => none

/-- All of them in a run. -/
def arrivals (ops : List (StackOp Addr E F)) : List (Bytes × Addr) := ops.filterMap arrival

omit [Zlib] [ProstMessage Instruction] in
theorem arrivals_concat (ops : List (StackOp Addr E F)) (op : StackOp Addr E F) :
    arrivals (ops ++ [op]) = arrivals ops ++ (arrival op).toList := by
  rw [arrivals, List.filterMap_append, arrivals]
  cases harrival : arrival op with
  | none => rw [List.filterMap_cons_none harrival]; rfl
  | some a => rw [List.filterMap_cons_some harrival]; rfl

/-- The sequence number of a datagram of the client. -/
def genuineNumber (produced : List Bytes) (a : Bytes × Addr) : Option Nat :=
  if a.1 ∈ produced then some (wireNonce a.1 % TO_CLIENT_BIT) else none

/-- What the server has made of the datagrams that arrived. -/
structure Follows (reads : Bytes → Option Nat) (s : Stack Cipher Addr M R E F)
    (as : List (Bytes × Addr)) : Prop where
  reads_eq : ∀ data, s.server.transport.connection.seqOf data = reads data
  side : s.server.transport.connection.server = true
  sockets : s.server.transport.connection.sockets ≠ []
  sealedOnly : ∀ a ∈ as, (reads a.1).isSome = true → a.1 ∈ s.client.produced ++ s.server.produced
  aim : (s.server.transport.connection.expectedReceiverSeq = 0 ∧
      s.server.transport.connection.remoteAddr = none ∧ ∀ a ∈ as, reads a.1 = none) ∨
    ∃ a n, FirstOfHighest (fun b : Bytes × Addr => reads b.1) as a ∧ reads a.1 = some n ∧
      s.server.transport.connection.expectedReceiverSeq = n + 1 ∧
      s.server.transport.connection.remoteAddr = some a.2

variable {reads : Bytes → Option Nat} {s : Stack Cipher Addr M R E F} {as : List (Bytes × Addr)}

omit [Zlib] [ProstMessage Instruction] in
theorem sealed_grows {ours ours' theirs theirs' : List Bytes} (hours : ours <+: ours')
    (htheirs : theirs <+: theirs') {data : Bytes} (h : data ∈ ours ++ theirs) :
    data ∈ ours' ++ theirs' :=
  List.mem_append.mpr ((List.mem_append.mp h).imp (hours.subset ·) (htheirs.subset ·))

omit [Zlib] [ProstMessage Instruction] [State M] [State R] in
theorem Follows.of_aim (h : Follows reads s as) {s' : Stack Cipher Addr M R E F}
    (haim : SameAim s.server.transport.connection s'.server.transport.connection)
    (hclient : s.client.produced <+: s'.client.produced)
    (hserver : s.server.produced <+: s'.server.produced) : Follows reads s' as where
  reads_eq data := (haim.seqOf data).trans (h.reads_eq data)
  side := haim.server.trans h.side
  sockets := haim.sockets h.sockets
  sealedOnly a ha hread := sealed_grows hclient hserver (h.sealedOnly a ha hread)
  aim := by
    rw [haim.expected, haim.remoteAddr]
    exact h.aim

omit [State M] [State R] in
/-- A datagram arrives that is no forgery: it is the newest, or changes
nothing. -/
theorem Follows.deliver (h : Follows reads s as) (s' : Stack Cipher Addr M R E F)
    (a : Arrival Addr)
    (haim : SameAim (s.server.transport.connection.deliver a) s'.server.transport.connection)
    (hclient : s.client.produced <+: s'.client.produced)
    (hserver : s.server.produced <+: s'.server.produced)
    (hgenuine : (reads a.data).isSome = true → a.data ∈ s.client.produced ++ s.server.produced) :
    Follows reads s' (as ++ [(a.data, a.peer)]) := by
  have hframe := s.server.transport.connection.deliver_frame a
  refine ⟨fun data => ?_, haim.server.trans (hframe.2.trans h.side),
    haim.sockets (by rw [deliver_sockets]; exact h.sockets), fun b hb hread => ?_, ?_⟩
  · rw [haim.seqOf, deliver_seqOf, h.reads_eq]
  · refine sealed_grows hclient hserver ?_
    rcases List.mem_append.mp hb with hb | hb
    · exact h.sealedOnly b hb hread
    · rw [List.mem_singleton.mp hb] at hread ⊢
      exact hgenuine hread
  · rw [haim.expected, haim.remoteAddr]
    rcases s.server.transport.connection.deliver_expected a with
      ⟨hstale, hsame⟩ | ⟨n, hseq, hfresh, hexpected, htarget⟩
    · rw [hsame.expectedReceiverSeq, hsame.remoteAddr]
      rcases h.aim with ⟨hzero, hnone, hclosed⟩ | ⟨b, n, hb, hn, hexpected, htarget⟩
      · refine .inl ⟨hzero, hnone, fun b hb => ?_⟩
        rcases List.mem_append.mp hb with hb | hb
        · exact hclosed b hb
        · rw [List.mem_singleton.mp hb]
          by_contra hopen
          obtain ⟨m, hm⟩ := Option.ne_none_iff_exists'.mp hopen
          have hlt := hstale m ((h.reads_eq a.data).trans hm)
          omega
      · refine .inr ⟨b, n, hb.concat hn fun m hm => ?_, hn, hexpected, htarget⟩
        have hlt := hstale m ((h.reads_eq a.data).trans hm)
        omega
    · have hread : reads a.data = some n := (h.reads_eq a.data).symm.trans hseq
      refine .inr ⟨(a.data, a.peer), n, .of_above hread fun b hb k hk => ?_, hread, hexpected,
        by rw [htarget, if_pos h.side]⟩
      rcases h.aim with ⟨-, -, hclosed⟩ | ⟨c, m, hc, hm, hbar, -⟩
      · rw [hclosed b hb] at hk
        cases hk
      · have hle := hc.le hm hb hk
        omega

omit [Zlib] [ProstMessage Instruction] in
theorem Follows.start (key : Bytes) (clientSocket serverSocket serverAddr : Addr)
    (now serverNow : Nat) (init peerInit : M) (remoteInit remotePeerInit : R) :
    Follows (fun data => (UdpConnection.build serverSocket (.new key) true serverNow :
        UdpConnection Cipher Addr).seqOf data)
      (Stack.start key clientSocket serverSocket serverAddr now serverNow init peerInit remoteInit
        remotePeerInit : Stack Cipher Addr M R E F) [] where
  reads_eq _ := rfl
  side := rfl
  sockets := List.cons_ne_nil _ _
  sealedOnly _ ha := absurd ha List.not_mem_nil
  aim := .inl ⟨rfl, rfl, fun _ ha => absurd ha List.not_mem_nil⟩

variable {actClient : M → E → M} {actServer : R → F → R}

theorem Follows.step (h : Follows reads s as) {op : StackOp Addr E F}
    {s' : Stack Cipher Addr M R E F} (hstep : s.step actClient actServer op = some s') :
    Follows reads s' (as ++ (arrival op).toList) := by
  cases op with
  | client op =>
      obtain ⟨x, hx, rfl⟩ := Option.map_eq_some_iff.mp hstep
      have hnone : arrival (.client op : StackOp Addr E F) = none := rfl
      rw [hnone, Option.toList_none, List.append_nil]
      exact h.of_aim (.refl _) (Peer.step_cases hx).2.kept.2 List.prefix_rfl
  | server op =>
      obtain ⟨y, hy, rfl⟩ := Option.map_eq_some_iff.mp hstep
      have hstepped := (Peer.step_cases hy).2
      rcases hstepped.aim h.sockets with
        ⟨haim, hother⟩ | ⟨data, addr, clocks, heardAt, now, rfl, hgenuine, haim⟩
      · have hnone : arrival (.server op : StackOp Addr E F) = none := by
          unfold arrival
          split
          · next data addr clocks heardAt now heq =>
              cases heq
              exact absurd rfl (hother data addr clocks heardAt now)
          · rfl
        rw [hnone, Option.toList_none, List.append_nil]
        exact h.of_aim haim List.prefix_rfl hstepped.kept.2
      · have hsealed : (reads (data.take RECEIVE_MTU)).isSome = true →
            data.take RECEIVE_MTU ∈ s.client.produced ++ s.server.produced := by
          intro hread
          by_contra hno
          obtain ⟨n, hn⟩ := Option.isSome_iff_exists.mp hread
          exact hgenuine ⟨(seqOf_wire ((h.reads_eq _).trans hn)).1, hno⟩
        exact h.deliver { s with server := y } ⟨data.take RECEIVE_MTU, addr, clocks, heardAt⟩ haim
          List.prefix_rfl hstepped.kept.2 hsealed

theorem run_follows {ops : List (StackOp Addr E F)} {start s : Stack Cipher Addr M R E F}
    (hstart : Follows reads start []) (hrun : Run.run (Stack.step actClient actServer) start ops
      = some s) : Follows reads s (arrivals ops) := by
  refine Run.run_history (I := fun done s => Follows reads s (arrivals done)) hstart
    (fun done _ op _ _ h hstep => ?_) hrun
  rw [arrivals_concat]
  exact h.step hstep

/-- The client sends to one address. -/
structure Pointed (addr : Addr) (c : UdpConnection Cipher Addr) : Prop where
  side : c.server = false
  remoteAddr : c.remoteAddr = some addr
  sockets : c.sockets ≠ []

omit [Zlib] [ProstMessage Instruction] [Crypto.Ocb3 Cipher] [State M] [State R] in
theorem Pointed.of_aim {addr : Addr} {c d : UdpConnection Cipher Addr} (h : Pointed addr c)
    (haim : SameAim c d) : Pointed addr d :=
  ⟨haim.server.trans h.side, haim.remoteAddr.trans h.remoteAddr, haim.sockets h.sockets⟩

omit [State M] [State R] in
theorem Pointed.deliver {addr : Addr} {c : UdpConnection Cipher Addr} (h : Pointed addr c)
    (a : Arrival Addr) : Pointed addr (c.deliver a) where
  side := (c.deliver_frame a).2.trans h.side
  remoteAddr := by
    rcases c.deliver_expected a with ⟨-, hsame⟩ | ⟨n, -, -, -, htarget⟩
    · exact hsame.remoteAddr.trans h.remoteAddr
    · rw [htarget, h.side]
      exact h.remoteAddr
  sockets := by
    rw [deliver_sockets]
    exact h.sockets

theorem Pointed.step {addr : Addr} (h : Pointed addr s.client.transport.connection)
    {op : StackOp Addr E F} {s' : Stack Cipher Addr M R E F}
    (hstep : s.step actClient actServer op = some s') :
    Pointed addr s'.client.transport.connection := by
  cases op with
  | server op =>
      obtain ⟨y, -, rfl⟩ := Option.map_eq_some_iff.mp hstep
      exact h
  | client op =>
      obtain ⟨x, hx, rfl⟩ := Option.map_eq_some_iff.mp hstep
      rcases (Peer.step_cases hx).2.aim h.sockets with ⟨haim, -⟩ | ⟨_, _, _, _, _, _, _, haim⟩
      · exact h.of_aim haim
      · exact (h.deliver _).of_aim haim

/-! ## The target of a session -/

/-- Both ends. -/
def BothKeyed (key : Bytes) (s : Stack Cipher Addr M R E F) : Prop :=
  Keyed key false s.client ∧ Keyed key true s.server

theorem run_bothKeyed [Crypto.LawfulOcb3 Cipher] {key : Bytes} {ops : List (StackOp Addr E F)}
    {start s : Stack Cipher Addr M R E F} (hstart : BothKeyed key start)
    (hrun : Run.run (Stack.step actClient actServer) start ops = some s) : BothKeyed key s := by
  refine Run.run_invariant (I := BothKeyed key) ?_ hstart hrun
  rintro s op s' ⟨hclient, hserver⟩ hstep
  cases op with
  | client op =>
      obtain ⟨x, hx, rfl⟩ := Option.map_eq_some_iff.mp hstep
      exact ⟨hclient.step hx, hserver⟩
  | server op =>
      obtain ⟨y, hy, rfl⟩ := Option.map_eq_some_iff.mp hstep
      exact ⟨hclient, hserver.step hy⟩

omit [State M] [State R] [Zlib] [ProstMessage Instruction] in
/-- The server reads the client's datagrams by their numbers, and no other. -/
theorem Follows.reads_genuine (h : Follows reads s as) {key : Bytes} (hkeyed : BothKeyed key s)
    {a : Bytes × Addr} (ha : a ∈ as) : genuineNumber s.client.produced a = reads a.1 := by
  rw [genuineNumber]
  split
  · next hmem => rw [← h.reads_eq, (hkeyed.1.read hkeyed.2 hmem).1]
  · next hno =>
      by_contra hopen
      obtain ⟨n, hn⟩ := Option.ne_none_iff_exists'.mp (Ne.symm hopen)
      have hmem := h.sealedOnly a ha (by rw [hn]; rfl)
      rcases List.mem_append.mp hmem with hmem | hmem
      · exact hno hmem
      · -- the server's own datagrams are refused when they are returned
        rw [← h.reads_eq, (hkeyed.2.read hkeyed.1 hmem).2] at hn
        cases hn

/-- Throughout a session the client sends to the server it was started for, and
the server to where the newest datagram of the client among those that arrived
first came from; before one has arrived it sends to nobody. -/
theorem server_follows_client [Crypto.LawfulOcb3 Cipher] (actClient : M → E → M)
    (actServer : R → F → R) (key : Bytes) (clientSocket serverSocket serverAddr : Addr)
    (now serverNow : Nat) (init peerInit : M) (remoteInit remotePeerInit : R)
    (ops : List (StackOp Addr E F)) (s : Stack Cipher Addr M R E F)
    (hrun : Run.run (Stack.step actClient actServer)
      (.start key clientSocket serverSocket serverAddr now serverNow init peerInit remoteInit
        remotePeerInit) ops = some s) :
    s.client.transport.connection.remoteAddr = some serverAddr ∧
    ∀ addr, s.server.transport.connection.remoteAddr = some addr ↔
      ∃ data, FirstOfHighest (genuineNumber s.client.produced) (arrivals ops) (data, addr) := by
  have hkeyed : BothKeyed key s := by
    refine run_bothKeyed ⟨⟨rfl, rfl, fun _ => ?_, fun _ h => absurd h List.not_mem_nil⟩,
      ⟨rfl, rfl, fun _ => ?_, fun _ h => absurd h List.not_mem_nil⟩⟩ hrun
    · exact ⟨Nat.le_refl 0, Nat.two_pow_pos 47⟩
    · exact ⟨Nat.le_refl 0, Nat.two_pow_pos 47⟩
  have hfollows := run_follows (.start ..) hrun
  have hpointed : Pointed serverAddr s.client.transport.connection :=
    Run.run_invariant
      (I := fun s : Stack Cipher Addr M R E F => Pointed serverAddr s.client.transport.connection)
      (fun _ _ _ h hstep => h.step hstep) ⟨rfl, rfl, List.cons_ne_nil _ _⟩ hrun
  refine ⟨hpointed.remoteAddr, fun addr => ?_⟩
  rcases hfollows.aim with ⟨-, hnone, hclosed⟩ | ⟨a, n, ha, hn, -, htarget⟩
  · rw [hnone]
    refine ⟨fun h => (by cases h), fun ⟨data, before, after, m, hsplit, hm, _⟩ => ?_⟩
    have hmem : (data, addr) ∈ arrivals ops := by
      rw [hsplit]
      exact List.mem_append_right _ List.mem_cons_self
    rw [hfollows.reads_genuine hkeyed hmem, hclosed _ hmem] at hm
    cases hm
  · have hfirst := ha.congr fun b hb => hfollows.reads_genuine hkeyed hb
    rw [htarget]
    constructor
    · intro haddr
      obtain rfl := Option.some.inj haddr
      exact ⟨a.1, hfirst⟩
    · rintro ⟨data, hdata⟩
      rw [hfirst.unique hdata]

end Stack

end Runs

namespace Stack

/-- The datagram came from 40000 first, and the copy from 666 changes nothing. -/
theorem server_follows_client_attacked :
    ∃ s, attacked = some s ∧ s.client.transport.connection.remoteAddr = some 60001 ∧
      s.server.transport.connection.remoteAddr = some 40000 := by
  obtain ⟨s, hs, hsummary⟩ := Option.map_eq_some_iff.mp attacked_summary
  have hproduced : s.client.produced = [sealedWire.getD 0 []] := congrArg (·.1) hsummary
  have hnoise : genuineNumber [sealedWire.getD 0 []] (List.replicate 40 7, 666) = none := by
    decide +kernel
  have hgenuine (addr : Nat) :
      genuineNumber [sealedWire.getD 0 []] (sealedWire.getD 0 [], addr) = some 0 := by
    have hnumber : wireNonce (sealedWire.getD 0 []) % TO_CLIENT_BIT = 0 := by decide +kernel
    rw [genuineNumber, if_pos (List.mem_singleton.mpr rfl), hnumber]
  have hfirst : FirstOfHighest (genuineNumber s.client.produced) (arrivals attackedOps)
      (sealedWire.getD 0 [], 40000) := by
    rw [hproduced]
    refine ⟨[(List.replicate 40 7, 666)], [(sealedWire.getD 0 [], 666)], 0, by decide +kernel,
      hgenuine 40000, fun b hb m hm => ?_, fun b hb m hm => ?_⟩
    · rw [List.mem_singleton.mp hb, hnoise] at hm
      cases hm
    · rw [List.mem_singleton.mp hb, hgenuine] at hm
      cases hm
      exact Nat.le_refl 0
  obtain ⟨hclient, hserver⟩ := @server_follows_client _ _ UserStream Register _ _ _ _ _ keyZlib _ _
    UserStream.push (fun _ e => e) zeroKey 40000 60001 60001 (0 : Reading) (0 : Reading) .new .new
    ⟨0⟩ ⟨0⟩ attackedOps s hs
  exact ⟨s, hs, hclient, (hserver 40000).mpr ⟨_, hfirst⟩⟩

end Stack

end Morsh
