import Morsh.Proofs.NoWedge
import Morsh.Proofs.Stack

/-!
# From end to end

What the refinement says about a client and a server: the session they make up,
what becomes of the datagrams they seal, and what becomes of the keys that were
pressed. The server starts from a state that may lack the front of the client's,
as it does in the program, where the client's first state holds a resize and the
server's is empty.

`run_session` is the refinement at the states of the program: a stream of input
one way, and the other way any state without a prefix whose diffs do not tell
equal states apart. The number of an instruction then fixes its diff, which is
all that the fragmenter's ids ask for. What a run of the session keeps is hereby
known of a run over datagrams, and `input_crosses_in_order` is an instance. What
is said of single datagrams comes from the invariant of the refinement itself,
`Sealer`: each is a piece of a packet, sealed by its side.

Both need the bound on the size of an instruction. Past 2^15 fragments the
numbers on the wire repeat, and the other end puts the pieces together wrongly.
-/

namespace Morsh

open State FragmentAssembly Fragmenter

namespace Stack

section Ends

variable {Cipher Addr M R E F S : Type} [Crypto.Ocb3 Cipher] [Crypto.LawfulOcb3 Cipher] [Zlib]
  [ProstMessage Instruction] [State M] [State R]

section Client

variable [ProstMessage UserMessage] [State S] [EqualDiffs S] {act : S → F → S} {key : Bytes}
  {clientSocket serverSocket serverAddr : Addr} {now serverNow : Reading}
  {init peerInit : UserStream} {remoteInit remotePeerInit : S}
  {ops : List (StackOp Addr UserEvent F)}
  {s : Stack Cipher Addr UserStream S UserEvent F}

/-- A client's stream of input against a state without a prefix. -/
theorem run_session (hpre : hasPrefix S = false)
    (hrun : Run.run (Stack.step UserStream.push act)
      (.start key clientSocket serverSocket serverAddr now serverNow init peerInit remoteInit
        remotePeerInit) ops = some s)
    (hfits : Fits s.client.sent) (hfits' : Fits s.server.sent) :
    Tunneled key s ∧ ∃ ops', Run.run (Session.step UserStream.push act)
      ⟨.start now ⟨true, now, 0⟩ init remotePeerInit,
        .start serverNow ⟨false, serverNow, 0⟩ remoteInit peerInit⟩ ops' = some s.view :=
  run_view (UserStream.numbersFixDiffs init) (EqualDiffs.numbersFixDiffs hpre act remoteInit) key
    clientSocket serverSocket serverAddr hrun hfits hfits'

end Client

/-- Whatever the network does, the protocol layer of a client and a server sees a
session: all an attacker can do to the datagrams is to choose which of the
instructions that were sent are delivered, when and how often. -/
theorem refines_session [ProstMessage UserMessage] [State S] [EqualDiffs S]
    (hpre : hasPrefix S = false) (act : S → F → S) (key : Bytes)
    (clientSocket serverSocket serverAddr : Addr) (now serverNow : Reading)
    (init peerInit : UserStream) (remoteInit remotePeerInit : S)
    (ops : List (StackOp Addr UserEvent F)) (s : Stack Cipher Addr UserStream S UserEvent F)
    (hrun : Run.run (Stack.step UserStream.push act)
      (.start key clientSocket serverSocket serverAddr now serverNow init peerInit remoteInit
        remotePeerInit) ops = some s)
    (hfits : Fits s.client.sent) (hfits' : Fits s.server.sent) :
    ∃ ops', Run.run (Session.step UserStream.push act)
      ⟨.start now ⟨true, now, 0⟩ init remotePeerInit,
        .start serverNow ⟨false, serverNow, 0⟩ remoteInit peerInit⟩ ops' = some s.view :=
  (run_session hpre hrun hfits hfits').2

/-- What becomes of a datagram of `x`: it fits the MTU, is read whole and opens at
`y` to a piece of an instruction of `x`; and `x` itself refuses it. -/
structure Crosses (x : Peer Cipher Addr M R E) (y : Peer Cipher Addr R M F) (data : Bytes) :
    Prop where
  fits : data.length ≤ MTU_IPV4
  whole : ∀ addr, y.transport.connection.sockets ≠ [] →
    y.transport.connection.recvRaw (.ok (data, addr)) = .ok (data, addr)
  opens : ∃ p inst compressed, y.transport.connection.openPacket data = .ok p ∧ inst ∈ x.sent ∧
    compress (ProstMessage.encode inst) = .ok compressed ∧
    p.frag ∈ cut p.frag.id (maxFragmentPayload MTU_IPV4) compressed
  refused : ∃ e, x.transport.connection.openPacket data = .error e

omit [Crypto.LawfulOcb3 Cipher] [State M] [State R] in
theorem Crosses.of_sealer {key : Bytes} {server : Bool}
    {issued issued' : Nat → Option (Instruction × Nat)} {x : Peer Cipher Addr M R E}
    {y : Peer Cipher Addr R M F} (h : Sealer key server issued x)
    (hpeer : Sealer key (!server) issued' y) {data : Bytes} (hdata : data ∈ x.produced) :
    Crosses x y data := by
  obtain ⟨hlength, id, inst, ps, i, hpacket, hi, hsealed⟩ := h.produced data hdata
  obtain ⟨maxPayload, compressed, hissued, hc, -, rfl, hsize, hid⟩ := packets_some hpacket
  obtain ⟨-, hmem, hmax⟩ := h.spent id _ hissued
  obtain rfl : maxPayload = maxFragmentPayload MTU_IPV4 := hmax
  refine ⟨hlength, fun addr hsockets => ?_, ?_,
    UdpConnection.openPacket_reflected hsealed h.cipher h.side⟩
  · rw [UdpConnection.recvRaw, if_neg (by simpa using hsockets)]
    simp only [List.take_of_length_le (Nat.le_trans hlength (by decide : MTU_IPV4 ≤ RECEIVE_MTU))]
  · obtain ⟨p, hopen, hfrag⟩ := UdpConnection.openPacket_sealed (d := y.transport.connection)
      hsealed
      hpeer.cipher (by rw [hpeer.side]; cases server <;> decide)
      (Fragment.fromBytes_toBytes hid (Nat.lt_of_lt_of_le hi hsize))
    refine ⟨p, inst, compressed, hopen, hmem, hc, ?_⟩
    rw [hfrag, cut_eq (by rwa [cut_eq_map, List.length_map, List.length_range])]
    exact List.mem_map.mpr ⟨i, List.mem_range.mpr hi, rfl⟩

/-- Every datagram ever sealed crosses to the other end and to no other. -/
theorem datagrams_cross [ProstMessage UserMessage] [State S] [EqualDiffs S]
    (hpre : hasPrefix S = false) (act : S → F → S) (key : Bytes)
    (clientSocket serverSocket serverAddr : Addr) (now serverNow : Reading)
    (init peerInit : UserStream) (remoteInit remotePeerInit : S)
    (ops : List (StackOp Addr UserEvent F)) (s : Stack Cipher Addr UserStream S UserEvent F)
    (hrun : Run.run (Stack.step UserStream.push act)
      (.start key clientSocket serverSocket serverAddr now serverNow init peerInit remoteInit
        remotePeerInit) ops = some s)
    (hfits : Fits s.client.sent) (hfits' : Fits s.server.sent) :
    (∀ data ∈ s.client.produced, Crosses s.client s.server data) ∧
      ∀ data ∈ s.server.produced, Crosses s.server s.client data := by
  obtain ⟨issued, issued', hclient, hserver, -, -⟩ := (run_session hpre hrun hfits hfits').1
  exact ⟨fun _ => .of_sealer hclient hserver, fun _ => .of_sealer hserver hclient⟩

/-- What the server has read is a prefix of what was typed, key for key; and what
the client has dropped of it, the server holds. -/
theorem input_crosses_in_order [ProstMessage UserMessage] [State S] [EqualDiffs S]
    (hpre : hasPrefix S = false) (act : S → F → S) (key : Bytes)
    (clientSocket serverSocket serverAddr : Addr) (now serverNow : Reading)
    (init peerInit : UserStream) (hpeer : peerInit.events <:+ init.events)
    (remoteInit remotePeerInit : S) (ops : List (StackOp Addr UserEvent F))
    (s : Stack Cipher Addr UserStream S UserEvent F)
    (hrun : Run.run (Stack.step UserStream.push act)
      (.start key clientSocket serverSocket serverAddr now serverNow init peerInit remoteInit
        remotePeerInit) ops = some s)
    (hfits : Fits s.client.sent) (hfits' : Fits s.server.sent) :
    (∃ lists, s.server.handed.mapM UserStream.eventsOf = .ok lists ∧
      lists.flatten <+: s.client.edits) ∧
    UserStream.DroppedHeld init s.client.view s.server.view := by
  obtain ⟨ops', hsession⟩ := (run_session hpre hrun hfits hfits').2
  obtain ⟨front, hfront⟩ := hpeer
  have hnone : UserStream.Decoded init [] (init.events ++ []) := ⟨[], rfl, rfl⟩
  have hdirected := Session.run_directed (A := UserStream.account init) now.isLt (f := [])
    (g := front) (List.append_nil _).symm (hfront.trans (List.append_nil _).symm) hnone hsession
  refine ⟨?_, UserStream.droppedHeld
    (Session.run_floored now.isLt serverNow.isLt hsession).1 hdirected⟩
  obtain ⟨got, ⟨lists, hlists, hgot⟩, hlinked⟩ := hdirected.linked
  obtain ⟨k, -, hk⟩ := hlinked.receiver.handed
  have hprefix := hlinked.sender.top hk
  rw [← hgot] at hprefix
  exact ⟨lists, hlists, (List.prefix_append_right_inj _).mp hprefix⟩

end Ends

section Witness

/-- A key, its acknowledgment, and two screens instead of that. -/
def keyInstruction : Instruction :=
  ⟨some 2, some 0, some 1, some 0, some 0, some [10, 5, 18, 3, 34, 1, 97], some []⟩

def ackInstruction : Instruction :=
  ⟨some 2, some 0, some 1, some 1, some 0, some [], some []⟩

def screenInstruction : Instruction :=
  ⟨some 2, some 0, some 1, some 1, some 0, some [7], some []⟩

def repaintInstruction : Instruction :=
  ⟨some 2, some 0, some 2, some 1, some 0, some [9], some []⟩

/-- The zlib streams of their encodings. -/
def keyStream : Bytes :=
  [120, 1, 227, 96, 18, 96, 144, 96, 84, 96, 208, 96, 48, 98, 231, 98, 21, 98, 86, 98, 76, 180, 98,
    0, 0, 13, 104, 1, 151]

def ackStream : Bytes :=
  [120, 1, 227, 96, 18, 96, 144, 96, 84, 96, 212, 96, 48, 98, 176, 98, 0, 0, 5, 132, 0, 233]

def screenStream : Bytes :=
  [120, 1, 227, 96, 18, 96, 144, 96, 84, 96, 212, 96, 48, 98, 100, 183, 98, 0, 0, 6, 76, 0, 241]

def repaintStream : Bytes :=
  [120, 1, 227, 96, 18, 96, 144, 96, 82, 96, 212, 96, 48, 98, 228, 180, 98, 0, 0, 6, 92, 0, 244]

/-- Exchanges each encoding with its stream and leaves other bytes alone. -/
def keyExchange : Equiv.Perm Bytes :=
  (((Equiv.swap (ProstMessage.encode keyInstruction) keyStream).trans
    (Equiv.swap (ProstMessage.encode ackInstruction) ackStream)).trans
      (Equiv.swap (ProstMessage.encode screenInstruction) screenStream)).trans
        (Equiv.swap (ProstMessage.encode repaintInstruction) repaintStream)

/-- zlib on the encodings. -/
@[reducible] def keyZlib : Zlib where
  writeAll := .ok
  finish data := .ok (keyExchange data)
  readToEnd stream := .ok (keyExchange.symm stream)
  readToEnd_finish := by
    intro data held stream hheld hstream
    cases hheld
    cases hstream
    rw [Equiv.symm_apply_apply]

/-- What AES-128-OCB3 makes of the client's packet and of the server's under the
zero key. -/
def sealedExchange : List (Crypto.Message × Bytes × Bytes) :=
  [(⟨.fromVal 0, [104, 0, 255, 255, 0, 0, 0, 0, 0, 0, 0, 1, 128, 0] ++ keyStream⟩,
      [104, 226, 156, 63, 72, 46, 132, 146, 163, 189, 137, 100, 184, 94, 234, 183, 251, 238, 117,
        65, 88, 28, 4, 46, 206, 184, 187, 4, 112, 16, 204, 178, 177, 151, 34, 103, 8, 201, 24, 209,
        90, 214, 245],
      [229, 31, 57, 228, 134, 65, 210, 1, 107, 70, 187, 174, 224, 241, 70, 102]),
    (⟨.fromVal TO_CLIENT_BIT, [104, 0, 104, 0, 0, 0, 0, 0, 0, 0, 0, 1, 128, 0] ++ ackStream⟩,
      [32, 195, 170, 112, 176, 185, 165, 118, 137, 141, 174, 81, 228, 43, 200, 12, 255, 182, 184,
        168, 117, 31, 105, 245, 144, 156, 117, 142, 230, 28, 198, 192, 89, 24, 187, 56],
      [250, 119, 64, 14, 148, 144, 60, 235, 205, 175, 68, 135, 175, 160, 152, 24]),
    (⟨.fromVal TO_CLIENT_BIT,
        [104, 0, 104, 0, 0, 0, 0, 0, 0, 0, 0, 1, 128, 0] ++ screenStream⟩,
      [32, 195, 170, 112, 176, 185, 165, 118, 137, 141, 174, 81, 228, 43, 200, 12, 128, 251, 2, 247,
        255, 122, 69, 155, 45, 99, 238, 65, 29, 77, 28, 225, 92, 154, 247, 209, 129],
      [139, 71, 65, 192, 184, 36, 108, 169, 121, 169, 78, 237, 156, 23, 131, 225]),
    (⟨.fromVal (TO_CLIENT_BIT + 1),
        [104, 0, 104, 0, 0, 0, 0, 0, 0, 0, 0, 2, 128, 0] ++ repaintStream⟩,
      [27, 118, 164, 132, 216, 162, 24, 74, 175, 10, 199, 66, 51, 103, 212, 138, 228, 104, 75, 76,
        100, 8, 54, 41, 67, 180, 75, 237, 81, 241, 170, 174, 105, 223, 72, 132, 104],
      [93, 82, 103, 129, 98, 178, 150, 152, 156, 227, 55, 113, 165, 210, 160, 255])]

/-- AES-128-OCB3 at the zero key and those packets. -/
structure ZeroKeyOcb where
  key : Bytes
  deriving DecidableEq, Repr

instance : Crypto.Ocb3 ZeroKeyOcb where
  new key := ⟨key⟩
  encryptInPlaceDetached c nonce text :=
    if c.key = zeroKey then (sealedExchange.find? fun e => e.1 = ⟨nonce, text⟩).map (·.2) else none
  decryptInPlaceDetached c nonce buffer tag :=
    if c.key = zeroKey then
      (sealedExchange.find? fun e => e.1.nonce = nonce ∧ e.2 = (buffer, tag)).map (·.1.text)
    else none

theorem ZeroKeyOcb.encrypt_some {c : ZeroKeyOcb} {nonce : Crypto.Nonce} {text buffer tag : Bytes}
    (h : Crypto.Ocb3.encryptInPlaceDetached c nonce text = some (buffer, tag)) :
    c.key = zeroKey ∧ (⟨nonce, text⟩, buffer, tag) ∈ sealedExchange := by
  simp only [Crypto.Ocb3.encryptInPlaceDetached] at h
  split at h
  · next hkey =>
      obtain ⟨e, he, hsealed⟩ := Option.map_eq_some_iff.mp h
      have hmsg := List.find?_some he
      rw [decide_eq_true_eq] at hmsg
      have hmem := List.mem_of_find?_eq_some he
      rw [← hmsg, ← hsealed]
      exact ⟨hkey, hmem⟩
  · cases h

instance : Crypto.LawfulOcb3 ZeroKeyOcb where
  decrypt_encrypt := by
    intro c nonce text buffer tag h
    obtain ⟨hkey, hmem⟩ := ZeroKeyOcb.encrypt_some h
    have hall : ∀ e ∈ sealedExchange,
        (sealedExchange.find? fun e' => e'.1.nonce = e.1.nonce ∧ e'.2 = (e.2.1, e.2.2)).map
          (·.1.text) = some e.1.text := by
      decide +kernel
    exact (if_pos hkey).trans (hall _ hmem)
  length_buffer := by
    intro c nonce text buffer tag h
    have hall : ∀ e ∈ sealedExchange, e.2.1.length = e.1.text.length := by decide +kernel
    exact hall _ (ZeroKeyOcb.encrypt_some h).2
  length_tag := by
    intro c nonce text buffer tag h
    have hall : ∀ e ∈ sealedExchange, e.2.2.length = 16 := by decide +kernel
    exact hall _ (ZeroKeyOcb.encrypt_some h).2

/-- The packets on the wire. -/
def sealedWire : List Bytes := sealedExchange.map fun e => e.1.nonce.ccStr ++ e.2.1 ++ e.2.2

/-- Every socket call succeeds. -/
def quietOs : Nat → Clocks × Except String Unit := fun _ => (⟨1700000000000, 0⟩, .ok ())

/-- A key is pressed and sent. An attacker returns the datagram to the client,
sends the server noise, lets the datagram through, and repeats it from elsewhere;
the server answers. An address is a port number. -/
def attackedOps : List (StackOp Nat UserEvent Register) :=
  [.client (.edit (.userByte 97)), .client (.tick 0 [] quietOs),
    .client (.recv (.ok (sealedWire.getD 0 [], 666)) ⟨1700000000000, 0⟩ 0 0),
    .server (.recv (.ok (List.replicate 40 7, 666)) ⟨1700000000000, 0⟩ 0 0),
    .server (.recv (.ok (sealedWire.getD 0 [], 40000)) ⟨1700000000000, 0⟩ 0 0),
    .server (.recv (.ok (sealedWire.getD 0 [], 666)) ⟨1700000000000, 0⟩ 0 0),
    .server .getRemoteDiff, .server (.tick 0 [] quietOs),
    .client (.recv (.ok (sealedWire.getD 1 [], 60001)) ⟨1700000000000, 0⟩ 0 0)]

def attacked : Option (Stack ZeroKeyOcb Nat UserStream Register UserEvent Register) :=
  letI := keyZlib
  Run.run (Stack.step UserStream.push fun _ e => e)
    (.start zeroKey 40000 60001 60001 (0 : Reading) (0 : Reading) .new .new ⟨0⟩ ⟨0⟩) attackedOps

/-- The datagrams of the client, what the server read of them and what it took in;
and whether all that was sent fits. -/
def summary [Zlib] (s : Stack ZeroKeyOcb Nat UserStream Register UserEvent Register) :
    List Bytes × List Bytes × Nat × Bool :=
  (s.client.produced, s.server.handed, s.server.processed.length,
    (s.client.sent ++ s.server.sent).all fun inst =>
      (compress (ProstMessage.encode inst)).toOption.all fun compressed =>
        compressed.length ≤ 2 ^ 15 * maxFragmentPayload MTU_IPV4)

theorem fits_of_summary [Zlib]
    {s : Stack ZeroKeyOcb Nat UserStream Register UserEvent Register}
    (h : s.summary.2.2.2 = true) : Fits s.client.sent ∧ Fits s.server.sent := by
  have hall : Fits (s.client.sent ++ s.server.sent) := by
    intro inst hinst compressed hc
    have hone := List.all_eq_true.mp h inst hinst
    rw [hc] at hone
    exact of_decide_eq_true hone
  exact ⟨fun inst hinst => hall inst (List.mem_append_left _ hinst),
    fun inst hinst => hall inst (List.mem_append_right _ hinst)⟩

theorem attacked_summary : letI := keyZlib
    attacked.map summary
      = some ([sealedWire.getD 0 []], [keyInstruction.diff.getD []], 2, true) := by
  decide +kernel

theorem refines_session_attacked :
    ∃ s, attacked = some s ∧ s.server.processed.length = 2 ∧
      ∃ ops', Run.run (Session.step UserStream.push fun _ (e : Register) => e)
        ⟨.start (0 : Reading) ⟨true, (0 : Reading), 0⟩ .new ⟨0⟩,
          .start (0 : Reading) ⟨false, (0 : Reading), 0⟩ ⟨0⟩ .new⟩ ops' = some s.view := by
  obtain ⟨s, hs, hsummary⟩ := Option.map_eq_some_iff.mp attacked_summary
  obtain ⟨hfits, hfits'⟩ := @fits_of_summary keyZlib s (by rw [hsummary])
  exact ⟨s, hs, congrArg (·.2.2.1) hsummary,
    @refines_session _ _ Register Register _ _ keyZlib _ _ _ _ rfl (fun _ e => e) zeroKey 40000
      60001 60001 0 0 .new .new ⟨0⟩ ⟨0⟩ attackedOps s hs hfits hfits'⟩

theorem datagrams_cross_attacked :
    ∃ s, attacked = some s ∧
      @Crosses _ _ _ _ _ _ _ keyZlib _ s.client s.server (sealedWire.getD 0 []) := by
  obtain ⟨s, hs, hsummary⟩ := Option.map_eq_some_iff.mp attacked_summary
  obtain ⟨hfits, hfits'⟩ := @fits_of_summary keyZlib s (by rw [hsummary])
  have hproduced : s.client.produced = [sealedWire.getD 0 []] := congrArg (·.1) hsummary
  exact ⟨s, hs, (@datagrams_cross _ _ Register Register _ _ keyZlib _ _ _ _ rfl (fun _ e => e)
    zeroKey 40000 60001 60001 0 0 .new .new ⟨0⟩ ⟨0⟩ attackedOps s hs hfits hfits').1 _
      (by rw [hproduced]; exact List.mem_cons_self)⟩

theorem input_crosses_in_order_attacked :
    ∃ s, attacked = some s ∧ s.server.handed.mapM UserStream.eventsOf = .ok [[.userByte 97]] ∧
      ∃ lists, s.server.handed.mapM UserStream.eventsOf = .ok lists ∧
        lists.flatten <+: s.client.edits := by
  obtain ⟨s, hs, hsummary⟩ := Option.map_eq_some_iff.mp attacked_summary
  obtain ⟨hfits, hfits'⟩ := @fits_of_summary keyZlib s (by rw [hsummary])
  have hhanded : s.server.handed = [keyInstruction.diff.getD []] := congrArg (·.2.1) hsummary
  exact ⟨s, hs, by rw [hhanded]; decide +kernel,
    (@input_crosses_in_order _ _ Register Register _ _ keyZlib _ _ _ _ rfl (fun _ e => e) zeroKey
      40000 60001 60001 0 0 .new .new (List.suffix_refl _) ⟨0⟩ ⟨0⟩ attackedOps s hs hfits
        hfits').1⟩

end Witness

end Stack

end Morsh
