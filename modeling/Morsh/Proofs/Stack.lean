import Morsh.Network.Stack
import Morsh.Proofs.Sealing
import Morsh.Proofs.SenderSide

/-!
# The stack refines the session

What one end hands its connection comes out at the other end or not at all,
whatever the network does: an attacker's bytes do not open, a reflected datagram
is refused, and of the others the assembler makes an instruction that was sent.
So every run of the stack is, for the protocol layer, a run of a session whose
network keeps what was sent and delivers some of it.

The fragmenter's ids carry the argument. An id is a packet for good only if the
fragmenter takes no other instruction for the last one, and that rests on what
the numbers of a run of the sender say about its diffs; that ids do not run out
rests on its pace.

An operation of an end is gone through once, in `Peer.step_cases`. `Sealer` is the
invariant of the direction an end seals: each datagram it ever produced is a piece
of a packet, and the packet stands for an instruction it sent. A tick extends it
by one packet; `Sealer.tick_some` is that step, and the only one with work in it.
A datagram that arrives and is no forgery is either the receiver's own, which it
refuses, or a piece of a packet of the peer; the assembler is in the middle of
such a packet (`Midway`), so a piece gives nothing or an instruction that was
sent. Either way the endpoint makes one step of the session or none.
-/

namespace Morsh

open State FragmentAssembly Fragmenter

variable {Cipher Addr M R E F : Type} [State M] [State R]

section View

omit [State M]

theorem UdpTransport.processInstruction_view (t : UdpTransport Cipher Addr M R) (now : Nat)
    (inst : Instruction) :
    (t.processInstruction now inst).1.view = (t.view.processInstruction now inst).1 ∧
      ∃ time, (t.processInstruction now inst).1.connection
        = { t.connection with lastRoundtripSuccess := time } := by
  unfold processInstruction Transport.processInstruction
  split
  · exact ⟨rfl, t.connection.lastRoundtripSuccess, rfl⟩
  · exact ⟨rfl, _, rfl⟩

variable [Crypto.Ocb3 Cipher] [Zlib] [ProstMessage Instruction]

/-- A datagram the connection took in, as the endpoint sees it. -/
theorem Peer.processDatagram_view {x : Peer Cipher Addr M R E} (now : Nat) {a : Arrival Addr}
    {c : UdpConnection Cipher Addr} {incoming : Option Instruction} (fresh : Bool)
    (hincoming : x.transport.connection.processIncoming a.data a.peer a.clocks a.heardAt
      = (c, .ok incoming))
    (hremote : c.hasRemoteAddr = (fresh || x.transport.connection.hasRemoteAddr))
    (htime : c.lastRoundtripSuccess = x.transport.connection.lastRoundtripSuccess)
    (hfragger : c.fragger = x.transport.connection.fragger) :
    (x.processDatagram now a).view = x.view.recv now fresh (.ok incoming) ∧
      ∃ time, (x.processDatagram now a).transport.connection
        = { c with lastRoundtripSuccess := time } := by
  have hview : ({ x.transport with connection := c } : UdpTransport Cipher Addr M R).view
      = if fresh then { x.transport.view with
          connection := { x.transport.view.connection with hasRemoteAddr := true } }
        else x.transport.view := by
    cases fresh with
    | false => simp [UdpTransport.view, hremote, htime, hfragger]
    | true => simp [UdpTransport.view, hremote, htime, hfragger]
  cases incoming with
  | none =>
      simp only [processDatagram, UdpTransport.processDatagram, hincoming]
      refine ⟨?_, c.lastRoundtripSuccess, rfl⟩
      simp only [view, hview, Endpoint.recv, Transport.processDatagram]
  | some inst =>
      obtain ⟨hinst, time, hconn⟩ :=
        UdpTransport.processInstruction_view { x.transport with connection := c } now inst
      simp only [processDatagram, UdpTransport.processDatagram, hincoming]
      refine ⟨?_, time, hconn⟩
      simp only [view, hinst, hview, Endpoint.recv, Transport.processDatagram]

end View

variable [Crypto.Ocb3 Cipher] [Zlib] [ProstMessage Instruction]

/-! ## What an operation can do -/

/-- All that an operation can do to an end. Of a datagram that is read nothing is
known but that it is no forgery. -/
inductive Peer.Stepped (act : M → E → M) (sealedBytes : List Bytes) (x : Peer Cipher Addr M R E) :
    PeerOp Addr E → Peer Cipher Addr M R E → Prop
  | edit (hrun : x.transport.sender.shutdownInProgress = false) (e : E) :
      Stepped act sealedBytes x (.edit e) (x.edit act e)
  | tick (now : Reading) (hnow : x.clock ≤ now.val) (chaff : Bytes)
      (os : Nat → Clocks × Except String Unit) :
      Stepped act sealedBytes x (.tick now chaff os) (x.tick now.val chaff os)
  | wait (now : Reading) (hnow : x.clock ≤ now.val) :
      Stepped act sealedBytes x (.waitTime now)
        { x with clock := now, transport := (x.transport.waitTimeMs now.val).1 }
  | shutdown (now : Nat) :
      Stepped act sealedBytes x (.startShutdown now)
        { x with transport := x.transport.startShutdown now }
  | unread {arrived : Except String (Bytes × Addr)} {e : String}
      (hraw : x.transport.connection.recvRaw arrived = .error e) (clocks : Clocks)
      (heardAt now : Nat) : Stepped act sealedBytes x (.recv arrived clocks heardAt now) x
  | read {arrived : Except String (Bytes × Addr)} {data : Bytes} {peer : Addr}
      (hraw : x.transport.connection.recvRaw arrived = .ok (data, peer))
      (hgenuine : ¬ x.Forged sealedBytes data) (clocks : Clocks) (heardAt now : Nat) :
      Stepped act sealedBytes x (.recv arrived clocks heardAt now)
        (x.processDatagram now ⟨data, peer, clocks, heardAt⟩)
  | diff :
      Stepped act sealedBytes x .getRemoteDiff
        { x with
          transport := x.transport.getRemoteDiff.1
          handed := x.handed ++ [x.transport.getRemoteDiff.2] }
  | hop (socket : Except String Addr) (now : Nat) :
      Stepped act sealedBytes x (.hopPort socket now)
        { x with transport := (x.transport.hopPort socket now).1 }

theorem Peer.step_cases {x x' : Peer Cipher Addr M R E} {act : M → E → M}
    {sealedBytes : List Bytes} {op : PeerOp Addr E}
    (hstep : x.step act sealedBytes op = some x') :
    x.panicked = false ∧ x.Stepped act sealedBytes op x' := by
  unfold Peer.step at hstep
  split at hstep
  · cases hstep
  · next halive =>
      refine ⟨Bool.not_eq_true _ ▸ halive, ?_⟩
      cases op with
      | edit e =>
          simp only [] at hstep
          split at hstep
          · cases hstep
          · next hrun =>
              cases hstep
              exact .edit (Bool.not_eq_true _ ▸ hrun) e
      | tick now chaff os =>
          simp only [] at hstep
          split at hstep
          · cases hstep
          · next hnow =>
              cases hstep
              exact .tick now (Nat.not_lt.mp hnow) chaff os
      | waitTime now =>
          simp only [] at hstep
          split at hstep
          · cases hstep
          · next hnow =>
              cases hstep
              exact .wait now (Nat.not_lt.mp hnow)
      | startShutdown now =>
          cases hstep
          exact .shutdown now
      | recv arrived clocks heardAt now =>
          simp only [] at hstep
          split at hstep
          · next hraw =>
              cases hstep
              exact .unread hraw clocks heardAt now
          · next hraw =>
              split at hstep
              · cases hstep
              · next hgenuine =>
                  cases hstep
                  exact .read hraw hgenuine clocks heardAt now
      | getRemoteDiff =>
          cases hstep
          exact .diff
      | hopPort socket now =>
          cases hstep
          exact .hop socket now

/-- What was sent stays sent, and what was sealed stays sealed. -/
theorem Peer.Stepped.kept {x x' : Peer Cipher Addr M R E} {act : M → E → M}
    {sealedBytes : List Bytes} {op : PeerOp Addr E} (h : x.Stepped act sealedBytes op x') :
    x.sent <+: x'.sent ∧ x.produced <+: x'.produced := by
  cases h with
  | tick => exact ⟨List.prefix_append _ _, List.prefix_append _ _⟩
  | _ => exact ⟨List.prefix_rfl, List.prefix_rfl⟩

/-! ## One direction -/

/-- Every instruction, compressed, is at most 2^15 payloads long. -/
def Fits (sent : List Instruction) : Prop :=
  ∀ inst ∈ sent, ∀ compressed, compress (ProstMessage.encode inst) = .ok compressed →
    compressed.length ≤ 2 ^ 15 * maxFragmentPayload MTU_IPV4

/-- What a side has sealed: pieces of packets, and each packet stands for an
instruction it sent. -/
structure Sealer (key : Bytes) (server : Bool) (issued : Nat → Option (Instruction × Nat))
    (x : Peer Cipher Addr M R E) : Prop where
  cipher : x.transport.connection.session.cipher = Crypto.Ocb3.new key
  side : x.transport.connection.server = server
  attached : (server = false ∨ x.transport.connection.hasRemoteAddr = true) →
    x.transport.connection.remoteAddr.isSome = true
  budget : x.panicked = false → x.transport.connection.InBudget
  numbered : Issued x.transport.connection.fragger issued
  ids : x.transport.connection.fragger.nextInstructionId ≤ x.sent.length
  spent : ∀ id p, issued id = some p →
    id ≤ x.transport.connection.fragger.nextInstructionId ∧ p.1 ∈ x.sent ∧
      p.2 = maxFragmentPayload MTU_IPV4
  produced : ∀ data ∈ x.produced, data.length ≤ MTU_IPV4 ∧
    ∃ id inst ps i, packets issued id = some (inst, ps) ∧ i < ps.length ∧
      SealedAs Cipher key server data (fragmentAt id ps i)

omit [State M] [State R] in
/-- Calls that leave the sealing half of the connection alone. -/
theorem Sealer.of_frame {key : Bytes} {server : Bool}
    {issued : Nat → Option (Instruction × Nat)} {x x' : Peer Cipher Addr M R E}
    (h : Sealer key server issued x) (hsent : x'.sent = x.sent)
    (hproduced : x'.produced = x.produced) (hpanicked : x'.panicked = x.panicked)
    (hserver : x'.transport.connection.server = x.transport.connection.server)
    (hsession : x'.transport.connection.session = x.transport.connection.session)
    (hseq : x'.transport.connection.sendSeq = x.transport.connection.sendSeq)
    (hfragger : x'.transport.connection.fragger = x.transport.connection.fragger)
    (hattached : (server = false ∨ x'.transport.connection.hasRemoteAddr = true) →
      x'.transport.connection.remoteAddr.isSome = true) :
    Sealer key server issued x' where
  cipher := hsession ▸ h.cipher
  side := hserver.trans h.side
  attached := hattached
  budget hp := by
    rw [UdpConnection.InBudget, hseq, hsession]
    exact h.budget (hpanicked ▸ hp)
  numbered := hfragger ▸ h.numbered
  ids := by rw [hfragger, hsent]; exact h.ids
  spent := by rw [hfragger, hsent]; exact h.spent
  produced := by rw [hproduced]; exact h.produced

/-! ## Sending -/

theorem Fragmenter.packets_mono {issued issued' : Nat → Option (Instruction × Nat)}
    (hext : ∀ id p, issued id = some p → issued' id = some p) {id : Nat}
    {p : Instruction × List Bytes} (h : packets issued id = some p) :
    packets issued' id = some p := by
  obtain ⟨q, hq, hmatch⟩ := Option.bind_eq_some_iff.mp h
  exact Option.bind_eq_some_iff.mpr ⟨q, hext id q hq, hmatch⟩

omit [Zlib] [ProstMessage Instruction] in
theorem FragmentAssembly.Midway.mono {packets packets' : Packets} {a : FragmentAssembly}
    (h : Midway packets a) (hext : ∀ id p, packets id = some p → packets' id = some p) :
    Midway packets' a := by
  intro id hid
  obtain ⟨inst, ps, hpacket, hpartial⟩ := h id hid
  exact ⟨inst, ps, hext id _ hpacket, hpartial⟩

omit [Zlib] [ProstMessage Instruction] in
/-- One call of the fragmenter: ids stand for what they stood for, and the one
used for this instruction. -/
theorem Fragmenter.Issued.extend {f : Fragmenter} {issued : Nat → Option (Instruction × Nat)}
    {inst : Instruction} {maxPayload : Nat} (h : Issued f issued)
    (hspent : ∀ id p, issued id = some p → id ≤ f.nextInstructionId)
    (hid : f.idFor inst maxPayload < 2 ^ 64)
    (hsame : ∀ last, f.lastInstruction = some last → last.SameButDiff inst → last = inst) :
    ∃ issued' : Nat → Option (Instruction × Nat),
      Issued ⟨f.idFor inst maxPayload, some inst, some maxPayload⟩ issued' ∧
      (∀ id p, issued id = some p → issued' id = some p) ∧
      issued' (f.idFor inst maxPayload) = some (inst, maxPayload) ∧
      ∀ id p, issued' id = some p → id ≤ f.idFor inst maxPayload ∧
        (issued id = some p ∨ p = (inst, maxPayload)) := by
  obtain ⟨issued', hissued, hkeep, hnow, honly⟩ := h.makeFragments hid hsame
  have hle : f.nextInstructionId ≤ f.idFor inst maxPayload := by
    unfold idFor
    split
    · exact Nat.le_succ _
    · exact Nat.le_refl _
  refine ⟨fun id => if id ≤ f.idFor inst maxPayload then issued' id else none,
    ⟨hissued.bound, fun last hlast => ?_⟩, fun id p hp => ?_, ?_, fun id p hp => ?_⟩
  · cases hlast
    exact ⟨maxPayload, rfl, (if_pos (Nat.le_refl _)).trans hnow⟩
  · have hid := hspent id p hp
    simp only [if_pos (Nat.le_trans hid hle), hkeep id hid, hp]
  · exact (if_pos (Nat.le_refl _)).trans hnow
  · simp only [] at hp
    split at hp
    · next hid => exact ⟨hid, honly id p hp⟩
    · cases hp

omit [Zlib] [ProstMessage Instruction] in
theorem length_getD_pieces {maxPayload : Nat} (compressed : Bytes) (i : Nat) :
    ((pieces maxPayload compressed).getD i []).length ≤ maxPayload := by
  rw [List.getD_eq_getElem?_getD]
  cases hpiece : (pieces maxPayload compressed)[i]? with
  | none => exact Nat.zero_le _
  | some piece =>
      have hmem := List.mem_of_getElem? hpiece
      unfold pieces at hmem
      split at hmem
      · rw [List.mem_singleton.mp hmem]
        exact Nat.zero_le _
      · obtain ⟨j, -, rfl⟩ := List.mem_map.mp hmem
        exact List.length_take_le _ _

/-- `send`, where there is someone to send to and an id left. Whatever becomes of
the datagrams, the fragmenter has moved on to the id, and what was sealed are
fragments under it. -/
theorem UdpConnection.send_sealed [Crypto.LawfulOcb3 Cipher] {c : UdpConnection Cipher Addr}
    {key : Bytes} (hcipher : c.session.cipher = Crypto.Ocb3.new key) (hbudget : c.InBudget)
    (hremote : c.remoteAddr.isSome = true) (os : Nat → Clocks × Except String Unit)
    {inst : Instruction} {id : Nat} (hid : c.fragger.idFor inst (maxFragmentPayload MTU_IPV4) = id)
    (hbound : id < 2 ^ 64) :
    (∃ seq session, session.cipher = c.session.cipher ∧
      (c.send os inst).connection = { c with
        fragger := ⟨id, some inst, some (maxFragmentPayload MTU_IPV4)⟩
        sendSeq := seq
        session := session }) ∧
    ∀ data ∈ (c.send os inst).produced, ∃ compressed,
      compress (ProstMessage.encode inst) = .ok compressed ∧
      ∃ f ∈ cut id (maxFragmentPayload MTU_IPV4) compressed,
        SealedAs Cipher key c.server data f ∧ data.length = 38 + f.payload.length := by
  have hmake : c.fragger.makeFragments inst (maxFragmentPayload MTU_IPV4)
      = some (⟨id, some inst, some (maxFragmentPayload MTU_IPV4)⟩,
        (compress (ProstMessage.encode inst)).map (cut id (maxFragmentPayload MTU_IPV4))) := by
    unfold idFor at hid
    rw [makeFragments, if_neg (by decide)]
    simp only [hid, if_neg (Nat.not_le.mpr hbound)]
    cases compress (ProstMessage.encode inst) <;> rfl
  obtain ⟨addr, haddr⟩ := Option.isSome_iff_exists.mp hremote
  cases hc : compress (ProstMessage.encode inst) with
  | error e =>
      have hsend : c.send os inst
          = ⟨{ c with fragger := ⟨id, some inst, some (maxFragmentPayload MTU_IPV4)⟩ }, [],
            some (.error e)⟩ := by
        rw [hc] at hmake
        simp only [send, haddr, hmake, Except.map]
      rw [hsend]
      exact ⟨⟨c.sendSeq, c.session, rfl, rfl⟩, fun data h => absurd h List.not_mem_nil⟩
  | ok compressed =>
      have hsend : c.send os inst = { c with
          fragger := ⟨id, some inst, some (maxFragmentPayload MTU_IPV4)⟩ }.sendFragments os
            (cut id (maxFragmentPayload MTU_IPV4) compressed) := by
        rw [hc] at hmake
        simp only [send, haddr, hmake, Except.map]
      obtain ⟨hconn, hproduced⟩ := UdpConnection.sendFragments_sealed
        (c := { c with fragger := ⟨id, some inst, some (maxFragmentPayload MTU_IPV4)⟩ })
        hcipher hbudget os (cut id (maxFragmentPayload MTU_IPV4) compressed)
      rw [hsend]
      exact ⟨hconn, fun data hdata => ⟨compressed, rfl, hproduced data hdata⟩⟩

omit [Zlib] [ProstMessage Instruction] in
theorem TransportSender.tick_detached (s : TransportSender M) (now timeout srttMs : Nat)
    (chaff : Bytes) : (s.tick now timeout srttMs false chaff).2 = none := by
  unfold TransportSender.tick
  rfl

/-! ## A tick -/

section Tick

variable {key : Bytes} {server : Bool} {issued : Nat → Option (Instruction × Nat)}
  {x : Peer Cipher Addr M R E} {now : Nat} {chaff : Bytes} {os : Nat → Clocks × Except String Unit}
  {sender : TransportSender M} {inst : Instruction}

omit [State R] in
theorem Peer.tick_none (halive : x.panicked = false)
    (hsender : x.transport.sender.tick now x.transport.connection.timeout
      x.transport.connection.srttMs x.transport.connection.hasRemoteAddr chaff = (sender, none)) :
    x.tick now chaff os
      = { x with clock := now, transport := { x.transport with sender := sender } } := by
  simp only [Peer.tick, UdpTransport.tick, hsender, noteSent, Option.bind_none, Option.toList_none,
    Option.isNone_some, List.append_nil, halive]

omit [State R] in
theorem Peer.tick_some
    (hsender : x.transport.sender.tick now x.transport.connection.timeout
      x.transport.connection.srttMs x.transport.connection.hasRemoteAddr chaff
        = (sender, some inst)) :
    x.tick now chaff os = { x with
      clock := now
      transport := ⟨(x.transport.connection.send os inst).connection, sender, x.transport.receiver⟩
      produced := x.produced ++ (x.transport.connection.send os inst).produced
      sent := x.sent ++ [inst]
      uses := noteSent x.uses x.edits (sender, some inst)
      panicked := (x.transport.connection.send os inst).result.isNone } := by
  simp only [Peer.tick, UdpTransport.tick, hsender, Option.toList_some]

omit [Zlib] [ProstMessage Instruction] in
theorem TransportSender.attached_of_tick {s : TransportSender M} {timeout srttMs : Nat}
    {remote : Bool} (h : s.tick now timeout srttMs remote chaff = (sender, some inst)) :
    remote = true := by
  by_contra hno
  rw [Bool.not_eq_true] at hno
  subst hno
  have hnone := s.tick_detached now timeout srttMs chaff
  rw [h] at hnone
  cases hnone

omit [State M] [State R] in
/-- Ids are spent no faster than instructions are sent. -/
theorem Sealer.idFor_le (h : Sealer key server issued x) (inst : Instruction) :
    x.transport.connection.fragger.idFor inst (maxFragmentPayload MTU_IPV4)
      ≤ x.sent.length + 1 := by
  have hids := h.ids
  rw [idFor]
  split <;> omega

omit [State R] in
/-- The fragmenter's comparison is right about the last instruction: two of one
run that differ in nothing but the diff are the same. -/
theorem Sealer.same_last {act : M → E → M} {begun : Reading} {init : M} {v : Endpoint M R E}
    (h : Sealer key server issued x) (hfix : NumbersFixDiffs act init)
    (hnext : v.Shadowed act begun init) (hsent : v.sent = x.sent ++ [inst]) (last : Instruction)
    (hlast : x.transport.connection.fragger.lastInstruction = some last)
    (hequal : last.SameButDiff inst) : last = inst := by
  obtain ⟨m, -, hissued⟩ := h.numbered.last last hlast
  have hmem := (h.spent _ _ hissued).2.1
  refine hnext.eq_of_sameButDiff hfix ?_ ?_ hequal
  · rw [hsent]
    exact List.mem_append_left _ hmem
  · rw [hsent]
    exact List.mem_append_right _ (List.mem_singleton.mpr rfl)

omit [Crypto.Ocb3 Cipher] [State M] [State R] in
/-- A fragment of a cut that fits is a piece of the packet the id stands for. -/
theorem Fragmenter.mem_cut_piece {issued' : Nat → Option (Instruction × Nat)} {id : Nat}
    {compressed : Bytes} {f : Fragment} (hbound : id < 2 ^ 64)
    (hissued : issued' id = some (inst, maxFragmentPayload MTU_IPV4))
    (hc : compress (ProstMessage.encode inst) = .ok compressed)
    (hfit : compressed.length ≤ 2 ^ 15 * maxFragmentPayload MTU_IPV4)
    (hf : f ∈ cut id (maxFragmentPayload MTU_IPV4) compressed) :
    f.payload.length ≤ maxFragmentPayload MTU_IPV4 ∧
      ∃ ps i, packets issued' id = some (inst, ps) ∧ i < ps.length ∧ f = fragmentAt id ps i := by
  have hfew : (pieces (maxFragmentPayload MTU_IPV4) compressed).length ≤ 2 ^ 15 :=
    (length_pieces_le (by decide) compressed).mpr hfit
  rw [cut_eq (by rwa [cut_eq_map, List.length_map, List.length_range])] at hf
  obtain ⟨i, hi, rfl⟩ := List.mem_map.mp hf
  refine ⟨length_getD_pieces compressed i, pieces (maxFragmentPayload MTU_IPV4) compressed, i, ?_,
    List.mem_range.mp hi, rfl⟩
  rw [packets, hissued, Option.bind_some]
  simp only [hc]
  exact if_pos ⟨by decide, hfew, hbound⟩

omit [State R] in
/-- Sending: the id stands for the instruction from now on, and what is sealed
are pieces of it. -/
theorem Sealer.tick_some [Crypto.LawfulOcb3 Cipher] (h : Sealer key server issued x)
    (halive : x.panicked = false)
    (hsender : x.transport.sender.tick now x.transport.connection.timeout
      x.transport.connection.srttMs x.transport.connection.hasRemoteAddr chaff
        = (sender, some inst))
    (hbound : x.sent.length + 1 < 2 ^ 64)
    (hsame : ∀ last, x.transport.connection.fragger.lastInstruction = some last →
      last.SameButDiff inst → last = inst)
    (hfits : Fits (x.tick now chaff os).sent) :
    (x.tick now chaff os).view = x.view.tick now x.transport.connection.timeout
        x.transport.connection.srttMs chaff ∧
      (x.tick now chaff os).transport.connection.assembler = x.transport.connection.assembler ∧
      ∃ issued' : Nat → Option (Instruction × Nat),
        (∀ id p, issued id = some p → issued' id = some p) ∧
        Sealer key server issued' (x.tick now chaff os) := by
  have hremote := TransportSender.attached_of_tick hsender
  have hstep := h.idFor_le inst
  obtain ⟨id, hid⟩ : ∃ id, x.transport.connection.fragger.idFor inst
    (maxFragmentPayload MTU_IPV4) = id := ⟨_, rfl⟩
  rw [hid] at hstep
  have hid64 : id < 2 ^ 64 := Nat.lt_of_le_of_lt hstep hbound
  obtain ⟨issued', hnumbered, hext, hself, honly⟩ := h.numbered.extend
    (fun id p hp => (h.spent id p hp).1) (hid ▸ hid64) hsame
  rw [hid] at hnumbered hself honly
  have hseals := x.transport.connection.send_seals os inst
  obtain ⟨⟨seq, session, hcipher, hconn⟩, hproduced⟩ :=
    UdpConnection.send_sealed h.cipher (h.budget halive) (h.attached (.inr hremote)) os hid hid64
  rw [Peer.tick_some hsender] at hfits ⊢
  refine ⟨?_, by rw [hconn], issued', hext, ?_⟩
  · simp only [Peer.view, Endpoint.tick, UdpTransport.view, Transport.tick, hsender, hconn,
      Option.toList_some, Fragmenter.lastAckSent, Option.bind_some]
  · refine ⟨by rw [hconn]; exact hcipher.trans h.cipher, by rw [hconn]; exact h.side,
      by rw [hconn]; exact h.attached, fun hp => hseals.budget hp (h.budget halive),
      by rw [hconn]; exact hnumbered, ?_, fun id' p hp => ?_, fun data hdata => ?_⟩
    · simp only [hconn, List.length_append, List.length_singleton]
      exact hstep
    · obtain ⟨hle, hcase⟩ := honly id' p hp
      refine ⟨by rw [hconn]; exact hle, ?_⟩
      rcases hcase with hold | rfl
      · exact ⟨List.mem_append_left _ (h.spent id' p hold).2.1, (h.spent id' p hold).2.2⟩
      · exact ⟨List.mem_append_right _ (List.mem_singleton.mpr rfl), rfl⟩
    · rcases List.mem_append.mp hdata with hold | hnew
      · obtain ⟨hlength, id', inst', ps, i, hpacket, hi, hsealed⟩ := h.produced data hold
        exact ⟨hlength, id', inst', ps, i, packets_mono hext hpacket, hi, hsealed⟩
      · obtain ⟨compressed, hc, f, hf, hsealed, hlength⟩ := hproduced data hnew
        obtain ⟨hpayload, ps, i, hpacket, hi, rfl⟩ := mem_cut_piece hid64 hself hc
          (hfits inst (List.mem_append_right _ (List.mem_singleton.mpr rfl)) compressed hc) hf
        refine ⟨?_, id, inst, ps, i, hpacket, hi, h.side ▸ hsealed⟩
        rw [hlength]
        exact Nat.add_le_add_left hpayload 38

/-- A tick is a tick of the endpoint, and what it seals are pieces of the packet
its instruction is. -/
theorem Sealer.tick [Crypto.LawfulOcb3 Cipher] {act : M → E → M} {begun now : Reading} {init : M}
    (h : Sealer key server issued x) (halive : x.panicked = false)
    (hshadow : x.view.Shadowed act begun init) (hfix : NumbersFixDiffs act init)
    (hnow : x.clock ≤ now.val) (hfits : Fits (x.tick now.val chaff os).sent) :
    (x.tick now.val chaff os).view = x.view.tick now.val x.transport.connection.timeout
        x.transport.connection.srttMs chaff ∧
      (x.tick now.val chaff os).transport.connection.assembler
        = x.transport.connection.assembler ∧
      ∃ issued' : Nat → Option (Instruction × Nat),
        (∀ id p, issued id = some p → issued' id = some p) ∧
        Sealer key server issued' (x.tick now.val chaff os) := by
  obtain ⟨sender, hsender⟩ : ∃ ticked, x.transport.sender.tick now.val
      x.transport.connection.timeout x.transport.connection.srttMs
      x.transport.connection.hasRemoteAddr chaff = ticked := ⟨_, rfl⟩
  obtain ⟨sender, emitted⟩ := sender
  cases emitted with
  | none =>
      rw [Peer.tick_none halive hsender]
      refine ⟨?_, rfl, issued, fun _ _ hp => hp, ?_⟩
      · simp only [Peer.view, Endpoint.tick, UdpTransport.view, Transport.tick, hsender, noteSent,
          Option.bind_none, Option.toList_none, List.append_nil]
      · exact h.of_frame rfl rfl rfl rfl rfl rfl rfl h.attached
  | some inst =>
      have hnext : (x.view.tick now.val x.transport.connection.timeout
          x.transport.connection.srttMs chaff).Shadowed act begun init := by
        have hstep : x.view.step act [] (.tick now x.transport.connection.timeout
            x.transport.connection.srttMs chaff)
            = some (x.view.tick now.val x.transport.connection.timeout
              x.transport.connection.srttMs chaff) := if_neg (Nat.not_lt.mpr hnow)
        exact hshadow.step (Endpoint.step_cases hstep)
      have hsent : (x.view.tick now.val x.transport.connection.timeout
          x.transport.connection.srttMs chaff).sent = x.sent ++ [inst] := by
        simp only [Peer.view, Endpoint.tick, UdpTransport.view, Transport.tick, hsender,
          Option.toList_some]
      exact h.tick_some halive hsender hshadow.sent_lt (h.same_last hfix hnext hsent) hfits

end Tick

/-! ## Receiving -/

omit [State M] in
theorem Peer.processDatagram_closed {x : Peer Cipher Addr M R E} {a : Arrival Addr} {e : String}
    (now : Nat) (h : x.transport.connection.openPacket a.data = .error e) :
    x.processDatagram now a = x := by
  simp only [processDatagram, UdpTransport.processDatagram, UdpConnection.processIncoming, h]

/-- What opening a datagram to a fragment leaves to the assembler: whether it
was fresh, and the connection, of which sending reads no more than before. -/
theorem UdpConnection.processIncoming_opened {c : UdpConnection Cipher Addr} {a : Arrival Addr}
    {p : Packet} (h : c.openPacket a.data = .ok p) :
    ∃ (fresh : Bool) (c' : UdpConnection Cipher Addr),
      c.processIncoming a.data a.peer a.clocks a.heardAt
        = ({ c' with assembler := (c.assembler.addFragment p.frag).1 },
          (c.assembler.addFragment p.frag).2) ∧
      c'.hasRemoteAddr = (fresh || c.hasRemoteAddr) ∧
      c'.lastRoundtripSuccess = c.lastRoundtripSuccess ∧ c'.fragger = c.fragger ∧
      c'.server = c.server ∧ c'.session = c.session ∧ c'.sendSeq = c.sendSeq ∧
      ((c.server = false ∨ c.hasRemoteAddr = true → c.remoteAddr.isSome = true) →
        c'.server = false ∨ c'.hasRemoteAddr = true → c'.remoteAddr.isSome = true) := by
  rw [processIncoming, h]
  by_cases hstale : p.seq < c.expectedReceiverSeq
  · exact ⟨false, c, if_pos hstale, rfl, rfl, rfl, rfl, rfl, rfl, fun hattached => hattached⟩
  · refine ⟨true, c.freshen p a.peer a.clocks a.heardAt, ?_, ?_⟩
    · simp only [if_neg hstale, addFragment, freshen_eq]
    · rw [freshen_eq]
      refine ⟨rfl, rfl, rfl, rfl, rfl, rfl, fun hattached _ => ?_⟩
      cases hserver : c.server with
      | false => exact hattached (.inl hserver)
      | true => rfl

omit [State M] [State R] in
/-- A datagram that is no forgery is refused by the connection, or opens to a
piece of what the other end has issued. An end that meets a datagram of its own
reads the direction bit and refuses it. -/
theorem Sealer.openPacket_genuine {key : Bytes} {server : Bool}
    {issued issued' : Nat → Option (Instruction × Nat)} {x : Peer Cipher Addr M R E}
    {y : Peer Cipher Addr R M F} {sealedBytes : List Bytes} (h : Sealer key server issued x)
    (hpeer : Sealer key (!server) issued' y)
    (hknown : ∀ data ∈ sealedBytes, data ∈ x.produced ∨ data ∈ y.produced) {data : Bytes}
    (hgenuine : ¬ x.Forged sealedBytes data) :
    (∃ e, x.transport.connection.openPacket data = .error e) ∨
      ∃ p id inst ps i, x.transport.connection.openPacket data = .ok p ∧
        packets issued' id = some (inst, ps) ∧ i < ps.length ∧ p.frag = fragmentAt id ps i := by
  cases hdecrypt : x.transport.connection.session.decrypt data with
  | error e => exact .inl (UdpConnection.openPacket_rejected hdecrypt)
  | ok msg =>
      have hsealed : data ∈ sealedBytes := by
        by_contra hno
        exact hgenuine ⟨by rw [hdecrypt]; rfl, hno⟩
      rcases hknown _ hsealed with hown | htheirs
      · obtain ⟨-, id, inst, ps, i, -, -, hsealedAs⟩ := h.produced _ hown
        exact .inl (UdpConnection.openPacket_reflected hsealedAs h.cipher h.side)
      · obtain ⟨-, id, inst, ps, i, hpacket, hi, hsealedAs⟩ := hpeer.produced _ htheirs
        obtain ⟨-, hsize, hid⟩ := packets_sound issued' id inst ps hpacket
        obtain ⟨p, hopen, hfrag⟩ := UdpConnection.openPacket_sealed hsealedAs h.cipher
          (by rw [h.side]; cases server <;> decide)
          (Fragment.fromBytes_toBytes hid (Nat.lt_of_lt_of_le hi hsize))
        exact .inr ⟨p, id, inst, ps, i, hopen, hpacket, hi, hfrag⟩

/-- A piece that came through completes an instruction the other end has sent, or
completes none. -/
theorem Sealer.addFragment_sent {key : Bytes} {server : Bool}
    {issued : Nat → Option (Instruction × Nat)} {x : Peer Cipher Addr M R E}
    {y : Peer Cipher Addr R M F} (hpeer : Sealer key server issued y)
    (hmidway : Midway (packets issued) x.transport.connection.assembler) (act : M → E → M)
    (now : Nat) (fresh : Bool) {id i : Nat} {inst : Instruction} {ps : List Bytes}
    (hpacket : packets issued id = some (inst, ps)) (hi : i < ps.length) :
    Midway (packets issued)
        (x.transport.connection.assembler.addFragment (fragmentAt id ps i)).1 ∧
      ∃ incoming : Option Instruction,
        (x.transport.connection.assembler.addFragment (fragmentAt id ps i)).2 = .ok incoming ∧
        ∃ index, Endpoint.step act y.sent x.view (.datagram now fresh index)
          = some (x.view.recv now fresh (.ok incoming)) := by
  have hsound := packets_sound issued
  obtain ⟨hmid, -, hcase⟩ := hmidway.piece hsound hpacket hi
  rw [receive_piece hsound hpacket hi] at hmid hcase
  refine ⟨hmid, ?_⟩
  rcases hcase with hsome | ⟨hnone, -⟩
  · obtain ⟨m, hissued⟩ : ∃ m, issued id = some (inst, m) := by
      obtain ⟨m, -, hm, -⟩ := packets_some hpacket
      exact ⟨m, hm⟩
    obtain ⟨index, hindex⟩ := List.mem_iff_getElem?.mp (hpeer.spent id _ hissued).2.1
    refine ⟨some inst, hsome, some index, ?_⟩
    simp only [Endpoint.step, hindex]
  · exact ⟨none, hnone, none, rfl⟩

/-- A datagram that is no forgery is lost on an end, or is the arrival of
something the other end has sent. -/
theorem Sealer.processDatagram {key : Bytes} {server : Bool}
    {issued issued' : Nat → Option (Instruction × Nat)} {x : Peer Cipher Addr M R E}
    {y : Peer Cipher Addr R M F} {sealedBytes : List Bytes} (h : Sealer key server issued x)
    (hpeer : Sealer key (!server) issued' y)
    (hmidway : Midway (packets issued') x.transport.connection.assembler)
    (hknown : ∀ data ∈ sealedBytes, data ∈ x.produced ∨ data ∈ y.produced) (act : M → E → M)
    (a : Arrival Addr) (hgenuine : ¬ x.Forged sealedBytes a.data) (now : Nat) :
    Sealer key server issued (x.processDatagram now a) ∧
      Midway (packets issued') (x.processDatagram now a).transport.connection.assembler ∧
      ((x.processDatagram now a).view = x.view ∨ ∃ fresh index,
        Endpoint.step act y.sent x.view (.datagram now fresh index)
          = some (x.processDatagram now a).view) := by
  rcases h.openPacket_genuine hpeer hknown hgenuine with ⟨e, he⟩ | ⟨p, id, inst, ps, i, hopen, hpacket,
    hi, hfrag⟩
  · rw [x.processDatagram_closed now he]
    exact ⟨h, hmidway, .inl rfl⟩
  · obtain ⟨fresh, c', hincoming, hremote, htime, hfragger, hserver, hsession, hseq,
      hattached⟩ :=
      UdpConnection.processIncoming_opened (c := x.transport.connection) hopen
    obtain ⟨hmid, incoming, hresult, index, hstep⟩ :=
      hpeer.addFragment_sent (x := x) hmidway act now fresh hpacket hi
    rw [← hfrag] at hmid hresult
    rw [hresult] at hincoming
    obtain ⟨hview, time, hconn⟩ := x.processDatagram_view now fresh hincoming hremote htime
      hfragger
    refine ⟨h.of_frame rfl rfl rfl (by rw [hconn]; exact hserver)
      (by rw [hconn]; exact hsession)
      (by rw [hconn]; exact hseq) (by rw [hconn]; exact hfragger) (fun hor => ?_),
      by rw [hconn]; exact hmid, .inr ⟨fresh, index, by rw [hview]; exact hstep⟩⟩
    rw [hconn] at hor ⊢
    refine hattached (fun hor => ?_) (hor.imp_left fun hclient => ?_)
    · exact h.attached (hor.imp_left fun hclient => h.side ▸ hclient)
    · rw [hserver, h.side, hclient]

/-! ## Runs -/

/-- One operation of an end. The direction it seals grows, the one it opens goes
on, and the endpoint has made a step or none. -/
theorem Sealer.step [Crypto.LawfulOcb3 Cipher] {key : Bytes} {server : Bool}
    {issued issued' : Nat → Option (Instruction × Nat)} {x x' : Peer Cipher Addr M R E}
    {y : Peer Cipher Addr R M F} {act : M → E → M} {sealedBytes : List Bytes} {begun : Reading}
    {init : M} {op : PeerOp Addr E} (h : Sealer key server issued x)
    (hpeer : Sealer key (!server) issued' y)
    (hmidway : Midway (packets issued') x.transport.connection.assembler)
    (hknown : ∀ data ∈ sealedBytes, data ∈ x.produced ∨ data ∈ y.produced)
    (hshadow : x.view.Shadowed act begun init) (hfix : NumbersFixDiffs act init)
    (halive : x.panicked = false) (hstep : x.Stepped act sealedBytes op x')
    (hfits : Fits x'.sent) :
    (∃ issued'' : Nat → Option (Instruction × Nat),
      (∀ id p, issued id = some p → issued'' id = some p) ∧ Sealer key server issued'' x') ∧
    Midway (packets issued') x'.transport.connection.assembler ∧
    (x'.view = x.view ∨ ∃ op', Endpoint.step act y.sent x.view op' = some x'.view) := by
  cases hstep with
  | edit hrun e =>
      exact ⟨⟨issued, fun _ _ hp => hp, h.of_frame rfl rfl rfl rfl rfl rfl rfl h.attached⟩,
        hmidway, .inr ⟨.edit e, if_neg (Bool.not_eq_true _ ▸ hrun)⟩⟩
  | tick now hnow chaff os =>
      obtain ⟨hview, hassembler, issued'', hext, hsealer⟩ :=
        h.tick halive hshadow hfix hnow hfits
      exact ⟨⟨issued'', hext, hsealer⟩, hassembler ▸ hmidway,
        .inr ⟨.tick now _ _ chaff, by rw [hview]; exact if_neg (Nat.not_lt.mpr hnow)⟩⟩
  | wait now hnow =>
      exact ⟨⟨issued, fun _ _ hp => hp, h.of_frame rfl rfl rfl rfl rfl rfl rfl h.attached⟩,
        hmidway, .inr ⟨.waitTime now x.transport.connection.timeout
          x.transport.connection.srttMs, if_neg (Nat.not_lt.mpr hnow)⟩⟩
  | shutdown now =>
      exact ⟨⟨issued, fun _ _ hp => hp, h.of_frame rfl rfl rfl rfl rfl rfl rfl h.attached⟩,
        hmidway, .inr ⟨.startShutdown now, rfl⟩⟩
  | unread hraw clocks heardAt now =>
      exact ⟨⟨issued, fun _ _ hp => hp, h⟩, hmidway, .inl rfl⟩
  | read hraw hgenuine clocks heardAt now =>
      obtain ⟨hsealer, hmid, hview⟩ := h.processDatagram hpeer hmidway hknown act
        ⟨_, _, clocks, heardAt⟩ hgenuine now
      refine ⟨⟨issued, fun _ _ hp => hp, hsealer⟩, hmid, hview.imp_right ?_⟩
      rintro ⟨fresh, index, hrecv⟩
      exact ⟨_, hrecv⟩
  | diff =>
      exact ⟨⟨issued, fun _ _ hp => hp, h.of_frame rfl rfl rfl rfl rfl rfl rfl h.attached⟩,
        hmidway, .inr ⟨.getRemoteDiff, rfl⟩⟩
  | hop socket now =>
      -- the endpoint has no sockets: it does not see a hop
      cases socket with
      | error e =>
          exact ⟨⟨issued, fun _ _ hp => hp, h.of_frame rfl rfl rfl rfl rfl rfl rfl h.attached⟩,
            hmidway, .inl rfl⟩
      | ok addr =>
          exact ⟨⟨issued, fun _ _ hp => hp, h.of_frame rfl rfl rfl rfl rfl rfl rfl h.attached⟩,
            hmidway, .inl rfl⟩

theorem Fits.mono {sent sent' : List Instruction} (h : Fits sent') (hpre : sent <+: sent') :
    Fits sent := fun inst hinst => h inst (hpre.subset hinst)

namespace Stack

/-- Both directions. -/
def Tunneled (key : Bytes) (s : Stack Cipher Addr M R E F) : Prop :=
  ∃ issued issued' : Nat → Option (Instruction × Nat),
    Sealer key false issued s.client ∧ Sealer key true issued' s.server ∧
    Midway (packets issued) s.server.transport.connection.assembler ∧
    Midway (packets issued') s.client.transport.connection.assembler

theorem Tunneled.start (key : Bytes) (clientSocket serverSocket serverAddr : Addr)
    (now serverNow : Nat) (init peerInit : M) (remoteInit remotePeerInit : R) :
    Tunneled key (Stack.start key clientSocket serverSocket serverAddr now serverNow init peerInit
      remoteInit remotePeerInit : Stack Cipher Addr M R E F) := by
  refine ⟨fun _ => none, fun _ => none, ?_, ?_, fun id hid => ?_, fun id hid => ?_⟩
  · exact ⟨rfl, rfl, fun _ => rfl, fun _ => ⟨Nat.le_refl 0, Nat.two_pow_pos 47⟩,
      ⟨Nat.two_pow_pos 64, fun last hlast => by cases hlast⟩, Nat.le_refl 0,
      fun id p hp => (by cases hp), fun data hdata => absurd hdata List.not_mem_nil⟩
  · exact ⟨rfl, rfl, fun h => (by rcases h with h | h <;> cases h),
      fun _ => ⟨Nat.le_refl 0, Nat.two_pow_pos 47⟩,
      ⟨Nat.two_pow_pos 64, fun last hlast => by cases hlast⟩, Nat.le_refl 0,
      fun id p hp => (by cases hp), fun data hdata => absurd hdata List.not_mem_nil⟩
  · cases hid
  · cases hid

variable [Crypto.LawfulOcb3 Cipher] {actClient : M → E → M} {actServer : R → F → R}
  {now serverNow : Reading} {init peerInit : M} {remoteInit remotePeerInit : R}

/-- A run of the stack goes on as a run of the session, with both directions
open. -/
theorem run_view_from (hclient : NumbersFixDiffs actClient init)
    (hserver : NumbersFixDiffs actServer remoteInit) {key : Bytes}
    {m s : Stack Cipher Addr M R E F} {ops : List (StackOp Addr E F)}
    {before : List (SessionOp E F)} (htunneled : Tunneled key m)
    (hbefore : Run.run (Session.step actClient actServer)
      ⟨.start now ⟨true, now, 0⟩ init remotePeerInit,
        .start serverNow ⟨false, serverNow, 0⟩ remoteInit peerInit⟩ before = some m.view)
    (hrun : Run.run (Stack.step actClient actServer) m ops = some s)
    (hfits : Fits s.client.sent) (hfits' : Fits s.server.sent) :
    Tunneled key s ∧ ∃ after, Run.run (Session.step actClient actServer)
      ⟨.start now ⟨true, now, 0⟩ init remotePeerInit,
        .start serverNow ⟨false, serverNow, 0⟩ remoteInit peerInit⟩ (before ++ after)
      = some s.view := by
  refine Run.run_invariant (I := fun s : Stack Cipher Addr M R E F =>
    Fits s.client.sent → Fits s.server.sent → Tunneled key s ∧
      ∃ after, Run.run (Session.step actClient actServer)
        ⟨.start now ⟨true, now, 0⟩ init remotePeerInit,
          .start serverNow ⟨false, serverNow, 0⟩ remoteInit peerInit⟩ (before ++ after)
        = some s.view)
    (fun s op s' ih hstep => ?_)
    (fun _ _ => ⟨htunneled, [], by rw [List.append_nil]; exact hbefore⟩) hrun hfits hfits'
  cases op with
  | client op =>
      obtain ⟨x, hx, rfl⟩ := Option.map_eq_some_iff.mp hstep
      obtain ⟨halive, hstepped⟩ := Peer.step_cases hx
      intro hfits hfits'
      obtain ⟨⟨issued, issued', hc, hs, hmid, hmid'⟩, after, hrun'⟩ :=
        ih (hfits.mono hstepped.kept.1) hfits'
      obtain ⟨⟨issued'', hext, hc'⟩, hmid'', hview⟩ := hc.step hs hmid'
        (fun data hdata => List.mem_append.mp hdata) (Session.run_shadowed hrun').1 hclient halive
        hstepped hfits
      refine ⟨⟨issued'', issued', hc', hs, hmid.mono fun _ _ => packets_mono hext, hmid''⟩, ?_⟩
      rcases hview with hsame | ⟨op', hop'⟩
      · refine ⟨after, ?_⟩
        rw [hrun']
        exact congrArg (fun v => some (Session.mk v s.server.view)) hsame.symm
      · refine ⟨after ++ [.left op'], ?_⟩
        rw [← List.append_assoc]
        exact Run.run_concat.mpr ⟨_, hrun', Option.map_eq_some_iff.mpr ⟨_, hop', rfl⟩⟩
  | server op =>
      obtain ⟨y, hy, rfl⟩ := Option.map_eq_some_iff.mp hstep
      obtain ⟨halive, hstepped⟩ := Peer.step_cases hy
      intro hfits hfits'
      obtain ⟨⟨issued, issued', hc, hs, hmid, hmid'⟩, after, hrun'⟩ :=
        ih hfits (hfits'.mono hstepped.kept.1)
      obtain ⟨⟨issued'', hext, hs'⟩, hmid'', hview⟩ := hs.step hc hmid
        (fun data hdata => (List.mem_append.mp hdata).symm) (Session.run_shadowed hrun').2 hserver
        halive hstepped hfits'
      refine ⟨⟨issued, issued'', hc, hs', hmid'', hmid'.mono fun _ _ => packets_mono hext⟩, ?_⟩
      rcases hview with hsame | ⟨op', hop'⟩
      · refine ⟨after, ?_⟩
        rw [hrun']
        exact congrArg (fun v => some (Session.mk s.client.view v)) hsame.symm
      · refine ⟨after ++ [.right op'], ?_⟩
        rw [← List.append_assoc]
        exact Run.run_concat.mpr ⟨_, hrun', Option.map_eq_some_iff.mpr ⟨_, hop', rfl⟩⟩

/-- From the start, a run of the stack is a run of the session. -/
theorem run_view (hclient : NumbersFixDiffs actClient init)
    (hserver : NumbersFixDiffs actServer remoteInit) (key : Bytes)
    (clientSocket serverSocket serverAddr : Addr) {ops : List (StackOp Addr E F)}
    {s : Stack Cipher Addr M R E F}
    (hrun : Run.run (Stack.step actClient actServer)
      (.start key clientSocket serverSocket serverAddr now serverNow init peerInit remoteInit
        remotePeerInit) ops = some s)
    (hfits : Fits s.client.sent) (hfits' : Fits s.server.sent) :
    Tunneled key s ∧ ∃ ops', Run.run (Session.step actClient actServer)
      ⟨.start now ⟨true, now, 0⟩ init remotePeerInit,
        .start serverNow ⟨false, serverNow, 0⟩ remoteInit peerInit⟩ ops' = some s.view :=
  run_view_from hclient hserver (.start ..) (Run.run_nil _) hrun hfits hfits'

end Stack

end Morsh
