import Morsh.Proofs.FragmentNumbers
import Morsh.Proofs.Nonces
import Morsh.Proofs.RoundTrip

/-!
# What one end seals, the other opens

A datagram of one end opens at the other to the fragment that went in, and not
at all at the end that sealed it; and none is longer than the MTU, so the
buffer it is read into never cuts one off.

`SealedAs` says it by what opens: under the key the datagram decrypts to a nonce
of the side and a text that is four bytes of timestamps and the fragment. It is
what `send` establishes for every datagram, wherever its loop stops, and two
lemmas use it. At the other end the direction bit is the right one and the
fragment is parsed; at the end that sealed it the direction bit is the wrong one.
The cipher is a parameter of which only the round trip and the lengths are known.
-/

namespace Morsh

open BigEndian

variable {Cipher Addr : Type} [Crypto.Ocb3 Cipher]

namespace Crypto.Session

variable {s t u : Session Cipher} {msg : Message} {wire : Bytes}

/-- Only the key matters to a session that opens. -/
theorem decrypt_congr (h : t.cipher = s.cipher) (data : Bytes) :
    t.decrypt data = s.decrypt data := by
  unfold decrypt
  rw [h]

theorem encrypt_cipher (s : Session Cipher) (msg : Message) :
    (s.encrypt msg).1.cipher = s.cipher := by
  unfold encrypt
  simp only []
  split
  · rfl
  · split
    · rfl
    · split <;> rfl

theorem encrypt_wire (h : s.encrypt msg = (t, some wire)) :
    ∃ buffer tag, Ocb3.encryptInPlaceDetached s.cipher msg.nonce msg.text = some (buffer, tag) ∧
      buffer.length + tag.length = msg.text.length + SESSION_ADDED_BYTES ∧
      wire = msg.nonce.ccStr ++ buffer ++ tag := by
  rw [encrypt] at h
  split at h
  · cases h
  · next buffer tag hocb =>
      split at h
      · cases h
      · next hlen =>
          dsimp only at h
          split at h
          · cases h
          · cases h
            exact ⟨buffer, tag, hocb, not_not.mp hlen, rfl⟩

theorem length_encrypt (h : s.encrypt msg = (t, some wire)) :
    wire.length = 8 + msg.text.length + SESSION_ADDED_BYTES := by
  obtain ⟨buffer, tag, -, hlen, rfl⟩ := encrypt_wire h
  rw [List.length_append, List.length_append, Nonce.length_ccStr]
  omega

theorem decrypt_encrypt [LawfulOcb3 Cipher] {val : Nat} {text : Bytes}
    (h : s.encrypt ⟨.fromVal val, text⟩ = (t, some wire)) (hcipher : u.cipher = s.cipher) :
    u.decrypt wire = .ok ⟨.fromVal val, text⟩ := by
  obtain ⟨buffer, tag, hocb, -, rfl⟩ := encrypt_wire h
  have hbuffer := LawfulOcb3.length_buffer hocb
  have htag := LawfulOcb3.length_tag hocb
  have hhead : (encode 8 val).length = 8 := length_encode 8 val
  have hbody : (encode 8 val ++ buffer ++ tag).drop 8 = buffer ++ tag := by
    rw [List.append_assoc]
    exact List.drop_left' hhead
  have hnonce : (encode 8 val ++ buffer ++ tag).take 8 = encode 8 val := by
    rw [List.append_assoc]
    exact List.take_left' hhead
  have hcut : (buffer ++ tag).length - SESSION_ADDED_BYTES = buffer.length := by
    rw [List.length_append, htag]
    exact Nat.add_sub_cancel _ _
  rw [Nonce.ccStr_fromVal]
  unfold decrypt
  rw [dif_neg (by
    rw [List.length_append, List.length_append, hhead, htag, SESSION_ADDED_BYTES]
    omega)]
  have hopen := LawfulOcb3.decrypt_encrypt hocb
  rw [Nonce.fromVal] at hopen
  simp only [hbody, hnonce, hcut, hcipher, List.take_left', List.drop_left',
    Nonce.fromBytes, hopen]
  rfl

end Crypto.Session

/-- `data` is the fragment `f`, sealed under `key` by the given side. -/
def SealedAs (Cipher : Type) [Crypto.Ocb3 Cipher] (key : Bytes) (server : Bool) (data : Bytes)
    (f : Fragment) : Prop :=
  ∃ seq stamps, seq < 2 ^ 63 ∧ stamps.length = 4 ∧
    (Crypto.Session.new key : Crypto.Session Cipher).decrypt data
      = .ok ⟨.fromVal (nonceAt server seq), stamps ++ f.toBytes⟩

namespace UdpConnection

variable {c d : UdpConnection Cipher Addr} {key data : Bytes} {f : Fragment} {server : Bool}

/-- The other end opens it to what the bytes of the fragment are read as: the key
is the same, and the direction bit is not its own. -/
theorem openPacket_sealed {g : Fragment} (h : SealedAs Cipher key server data f)
    (hcipher : d.session.cipher = Crypto.Ocb3.new key) (hside : d.server ≠ server)
    (hf : Fragment.fromBytes f.toBytes = .ok g) :
    ∃ p, d.openPacket data = .ok p ∧ p.frag = g := by
  obtain ⟨seq, stamps, hseq, hstamps, hdecrypt⟩ := h
  rw [← Crypto.Session.decrypt_congr (t := d.session) hcipher] at hdecrypt
  have hval : (Crypto.Nonce.fromVal (nonceAt server seq)).val = nonceAt server seq :=
    (Crypto.Nonce.val_fromVal _).trans (Nat.mod_eq_of_lt (nonceAt_lt hseq))
  have hdirection : ((nonceAt server seq &&& TO_CLIENT_BIT != 0) = d.server) = False := by
    rw [nonceAt_direction hseq]
    revert hside
    cases server <;> cases d.server <;> decide
  have hdrop : (stamps ++ f.toBytes).drop 4 = f.toBytes := List.drop_left' hstamps
  have hlong : ¬ (stamps ++ f.toBytes).length < 4 := by
    rw [List.length_append, hstamps]
    omega
  simp only [openPacket, hdecrypt, hval, hdirection, if_false, if_neg hlong, hdrop, hf]
  exact ⟨_, rfl, rfl⟩

/-- The end that sealed it refuses it: it does open, but the direction bit is its
own. -/
theorem openPacket_reflected (h : SealedAs Cipher key server data f)
    (hcipher : d.session.cipher = Crypto.Ocb3.new key) (hside : d.server = server) :
    ∃ e, d.openPacket data = .error e := by
  obtain ⟨seq, stamps, hseq, hstamps, hdecrypt⟩ := h
  rw [← Crypto.Session.decrypt_congr (t := d.session) hcipher] at hdecrypt
  have hval : (Crypto.Nonce.fromVal (nonceAt server seq)).val = nonceAt server seq :=
    (Crypto.Nonce.val_fromVal _).trans (Nat.mod_eq_of_lt (nonceAt_lt hseq))
  have hdirection : ((nonceAt server seq &&& TO_CLIENT_BIT != 0) = d.server) = True := by
    rw [nonceAt_direction hseq, hside]
    cases server <;> decide
  simp only [openPacket, hdecrypt, hval, hdirection, if_true]
  exact ⟨_, rfl⟩

theorem openPacket_rejected {e : Crypto.CryptoError} (h : d.session.decrypt data = .error e) :
    ∃ e', d.openPacket data = .error e' := by
  simp only [openPacket, h]
  exact ⟨_, rfl⟩

theorem encryptFragment_sealed [Crypto.LawfulOcb3 Cipher] {c' : UdpConnection Cipher Addr}
    {clocks : Clocks} {wire : Bytes} (hcipher : c.session.cipher = Crypto.Ocb3.new key)
    (hseq : c.sendSeq < 2 ^ 63) (h : c.encryptFragment clocks f = (c', some wire)) :
    SealedAs Cipher key c.server wire f :=
  ⟨c.sendSeq, encode 2 (timestamp16 clocks.sinceEpochMs) ++ encode 2 (c.timestampReply clocks.now),
    hseq, by rw [List.length_append, length_encode, length_encode],
    Crypto.Session.decrypt_encrypt (encryptFragment_some h) hcipher.symm⟩

theorem length_encryptFragment {c' : UdpConnection Cipher Addr} {clocks : Clocks} {wire : Bytes}
    (h : c.encryptFragment clocks f = (c', some wire)) : wire.length = 38 + f.payload.length := by
  rw [Crypto.Session.length_encrypt (encryptFragment_some h)]
  simp only [plaintext, Fragment.toBytes, List.length_append, length_encode,
    Crypto.SESSION_ADDED_BYTES]
  omega

/-- The loop of `send`, wherever it stops: it seals fragments of the list, and
touches the counters only. -/
theorem sendFragments_sealed [Crypto.LawfulOcb3 Cipher]
    (hcipher : c.session.cipher = Crypto.Ocb3.new key) (hbudget : c.InBudget)
    (os : Nat → Clocks × Except String Unit) (frags : List Fragment) :
    (∃ seq session, session.cipher = c.session.cipher ∧
      (c.sendFragments os frags).connection = { c with sendSeq := seq, session := session }) ∧
    ∀ data ∈ (c.sendFragments os frags).produced, ∃ f ∈ frags,
      SealedAs Cipher key c.server data f ∧ data.length = 38 + f.payload.length := by
  induction frags generalizing c os with
  | nil => exact ⟨⟨c.sendSeq, c.session, rfl, rfl⟩, fun data h => absurd h List.not_mem_nil⟩
  | cons frag frags ih =>
      have hseq : c.sendSeq < 2 ^ 63 := by
        have := hbudget.1
        have := hbudget.2
        omega
      have hseals := c.encryptFragment_seals (os 0).1 frag
      rw [sendFragments]
      split
      · next next heq =>
          have hnext : next = (c.encryptFragment (os 0).1 frag).1 := by rw [heq]
          exact ⟨⟨_, _, Crypto.Session.encrypt_cipher _ _, hnext⟩,
            fun data h => absurd h List.not_mem_nil⟩
      · next next wire heq =>
          have hfirst := encryptFragment_sealed hcipher hseq heq
          have hlength := length_encryptFragment heq
          have hsame := (Crypto.Session.encrypt_some (encryptFragment_some heq)).2.1
          have hnext : next = { c with sendSeq := c.sendSeq + 1, session := next.session } := by
            obtain rfl : (c.encryptFragment (os 0).1 frag).1 = next := by rw [heq]
            rfl
          have hhere : ∀ data ∈ [wire], ∃ f ∈ frag :: frags,
              SealedAs Cipher key c.server data f ∧ data.length = 38 + f.payload.length := by
            intro data hdata
            rw [List.mem_singleton.mp hdata]
            exact ⟨frag, List.mem_cons_self, hfirst, hlength⟩
          split
          · exact ⟨⟨c.sendSeq + 1, next.session, hsame, hnext⟩, hhere⟩
          · rw [heq] at hseals
            obtain ⟨⟨seq, session, hcipher', hconn⟩, hrest⟩ :=
              ih (c := next) (hsame.trans hcipher) (hseals.budget rfl hbudget)
                fun i => os (i + 1)
            refine ⟨⟨seq, session, hcipher'.trans hsame, ?_⟩, fun data hdata => ?_⟩
            · rw [hconn, hnext]
            · rcases List.mem_cons.mp hdata with rfl | hdata
              · exact hhere _ (List.mem_singleton.mpr rfl)
              · obtain ⟨f, hf, hsealed, hlen⟩ := hrest data hdata
                exact ⟨f, List.mem_cons_of_mem _ hf, hseals.server ▸ hsealed, hlen⟩

end UdpConnection

end Morsh
