import Morsh.Proofs.WholeLines
import Morsh.Server.Startup
import Morsh.Wrapper.Connect

/-!
# The two ends agree on the port and the key

What the server announces is what the wrapper reads off the output of ssh,
whatever is printed in front of it and behind it; and the key that the wrapper
hands to the client is the server's own, also where the server was started a
second time to detach.

Reading is split into words, numbers and lines, and each has one lemma for text of
visible characters: words with blanks between them are split again, digits are
read as the number, and printed lines come out of the reader as they went in. The
announcement is made of those. Its second line begins like the first, and is not
taken for one to connect by because of its third word.

What precedes it is any output in whole lines. Through the system's ssh the
wrapper stops at the first line to connect by, so the noise must not hold one, and
it gives up at a line that is no text. Through the built-in client the last such
line counts, so it is what follows that must not hold one; there the output comes
in messages, and it matters where they are cut. On the server's side `Launches`
follows the ways to detach to the process that serves in the end.
-/

namespace Morsh

open Crypto

/-! ## Keys -/

section

variable {c : Char}

theorem symbol_range (h : Base64.isSymbol c = true) : 0x2b ≤ c.toNat ∧ c.toNat ≤ 0x7a := by
  by_contra hrange
  have hvalue : Base64.value c = none := by
    simp only [Base64.value]
    split_ifs <;> first | rfl | omega
  have hpad : (c == '=') = false := by
    rw [beq_eq_false_iff_ne]
    rintro rfl
    exact hrange (by decide)
  rw [Base64.isSymbol, hvalue, hpad] at h
  cases h

theorem ascii_of_symbol (h : Base64.isSymbol c = true) : c.toNat < 0x80 :=
  Nat.lt_of_le_of_lt (symbol_range h).2 (by decide)

/-- Printed, and no blank. -/
def Visible (c : Char) : Prop := 0x21 ≤ c.toNat ∧ c.toNat < 0x7f

instance (c : Char) : Decidable (Visible c) := inferInstanceAs (Decidable (_ ∧ _))

theorem forall_of_all {p : Char → Prop} [DecidablePred p] {text : List Char}
    (h : text.all (fun c => decide (p c)) = true) : ∀ c ∈ text, p c := by
  simpa using h

theorem visible_of_symbol (h : Base64.isSymbol c = true) : Visible c := by
  have hrange := symbol_range h
  exact ⟨by omega, by omega⟩

theorem visible_of_digit (h : c.isDigit = true) : Visible c := by
  simp only [Char.isDigit, Bool.and_eq_true, decide_eq_true_eq] at h
  exact ⟨Nat.le_trans (by decide) h.1, Nat.lt_of_le_of_lt h.2 (by decide)⟩

theorem Visible.not_whitespace (h : Visible c) : isWhitespace c = false := by
  obtain ⟨hlow, hhigh⟩ := h
  simp only [isWhitespace, decide_eq_false_iff_not]
  omega

theorem Visible.ascii (h : Visible c) : c.toNat < 0x80 := Nat.lt_trans h.2 (by decide)

theorem Visible.ne {d : Char} (h : Visible c) (hd : d.toNat < 0x21) : d ≠ c := by
  rintro rfl
  exact absurd h.1 (by omega)

theorem utf8Size_ascii (h : c.toNat < 0x80) : c.utf8Size = 1 :=
  Char.utf8Size_eq_one_iff.mpr (UInt32.le_iff_toNat_le.mpr (Nat.le_of_lt_succ h))

theorem byteLen_ascii {text : List Char} (h : ∀ c ∈ text, c.toNat < 0x80) :
    byteLen text = text.length := by
  induction text with
  | nil => rfl
  | cons c text ih =>
      obtain ⟨hc, htext⟩ := List.forall_mem_cons.mp h
      rw [byteLen, List.map_cons, List.sum_cons, utf8Size_ascii hc, List.length_cons, Nat.add_comm]
      exact congrArg (· + 1) (ih htext)

end

/-- The keys that are read are the ones that are printed. What is decoded is
encoded again and compared, so no other spelling of the same bytes is accepted. -/
theorem fromPrintable_iff [Base64Engine] [LawfulBase64Engine] (printable : List Char)
    (key : Base64Key) :
    Base64Key.fromPrintable printable = .ok key ↔ printable = key.printableKey := by
  unfold Base64Key.fromPrintable
  constructor
  · intro h
    split at h
    · cases h
    · split at h
      · cases h
      · next decoded hdecoded =>
          split at h
          · next hlength =>
              dsimp only at h
              split at h
              · cases h
              · next hsame =>
                  cases h
                  exact (not_not.mp hsame).symm
          · cases h
  · rintro rfl
    have hlength : byteLen key.printableKey = 22 := by
      rw [byteLen_ascii fun c hc => ascii_of_symbol (key.printableKey_symbols c hc),
        key.length_printableKey]
    have hdecode : Base64Engine.decode (key.printableKey ++ "==".toList) = .ok key.data := by
      rw [← LawfulBase64Engine.decode_encode key.data, key.encode_data]
      rfl
    rw [if_neg (not_not.mpr hlength), hdecode]
    simp only [key.length_data, dite_true, ne_eq, not_true, if_false]

/-! ## Words and numbers -/

theorem wordsFrom_visible {word : Text} (h : ∀ c ∈ word, Visible c) (acc rest : Text) :
    wordsFrom acc (word ++ rest) = wordsFrom (acc ++ word) rest := by
  induction word generalizing acc with
  | nil => rw [List.nil_append, List.append_nil]
  | cons c word ih =>
      obtain ⟨hc, hword⟩ := List.forall_mem_cons.mp h
      rw [List.cons_append, wordsFrom, hc.not_whitespace, if_neg Bool.false_ne_true, ih hword,
        List.append_assoc, List.singleton_append]

/-- Words with a blank between them. -/
theorem splitWhitespace_intercalate {words : List Text}
    (h : ∀ word ∈ words, word ≠ [] ∧ ∀ c ∈ word, Visible c) :
    splitWhitespace ([' '].intercalate words) = words := by
  unfold splitWhitespace
  induction words with
  | nil => rfl
  | cons word words ih =>
      obtain ⟨⟨hne, hword⟩, hwords⟩ := List.forall_mem_cons.mp h
      cases words with
      | nil =>
          have hread := wordsFrom_visible hword [] []
          rw [List.append_nil] at hread
          rw [List.intercalate_singleton, hread, wordsFrom, List.nil_append, if_neg hne]
      | cons next words =>
          rw [List.intercalate_cons_cons, List.append_assoc, wordsFrom_visible hword,
            List.nil_append, List.singleton_append, wordsFrom, if_pos (by decide), if_neg hne,
            ih hwords]

theorem foldlM_digits {digits : List Char} (hdigits : ∀ c ∈ digits, c.isDigit = true) {acc : Nat}
    (h : Nat.ofDigitChars 10 digits acc < 2 ^ 32) :
    digits.foldlM (fun acc c =>
      if c.isDigit then
        let n := acc * 10 + (c.toNat - '0'.toNat)
        if n < 2 ^ 32 then some n else none
      else none) acc = some (Nat.ofDigitChars 10 digits acc) := by
  induction digits generalizing acc with
  | nil => rfl
  | cons c digits ih =>
      obtain ⟨hc, hrest⟩ := List.forall_mem_cons.mp hdigits
      rw [Nat.ofDigitChars_cons, Nat.mul_comm] at h ⊢
      have hlt : acc * 10 + (c.toNat - '0'.toNat) < 2 ^ 32 := by
        refine Nat.lt_of_le_of_lt ?_ h
        rw [Nat.ofDigitChars_eq_ofDigitChars_zero]
        exact Nat.le_trans (Nat.le_mul_of_pos_left _ (Nat.pow_pos (by decide)))
          (Nat.le_add_right _ _)
      rw [List.foldlM_cons, if_pos hc]
      simp only [if_pos hlt]
      exact ih hrest h

theorem parseU32_decimal {n : Nat} (h : n < 2 ^ 32) : Cli.parseU32 (toString n) = some n := by
  have hdigits : ∀ c ∈ Nat.toDigits 10 n, c.isDigit = true :=
    fun c hc => Nat.isDigit_of_mem_toDigits (by decide) (by decide) hc
  have hvalue := @foldlM_digits (Nat.toDigits 10 n) hdigits 0
    (by rw [Nat.ofDigitChars_ten_toDigits]; exact h)
  rw [Nat.ofDigitChars_ten_toDigits] at hvalue
  obtain ⟨c, rest, hcons⟩ := List.exists_cons_of_ne_nil (Nat.toDigits_ne_nil (b := 10) (n := n))
  have hplus : c ≠ '+' := by
    rintro rfl
    exact absurd (hdigits '+' (hcons ▸ List.mem_cons_self)) (by decide)
  rw [Cli.parseU32, Nat.toString_eq_repr, Nat.toList_repr]
  rw [hcons] at hvalue ⊢
  simpa [hplus] using hvalue

theorem parseU16_decimal {n : Nat} (h : n < 2 ^ 16) : parseU16 (toString n).toList = some n := by
  rw [parseU16, String.ofList_toList, parseU32_decimal (Nat.lt_trans h (by decide)),
    Option.filter_some, decide_eq_true h, if_pos rfl]

theorem visible_decimal (n : Nat) :
    (toString n).toList ≠ [] ∧ ∀ c ∈ (toString n).toList, Visible c := by
  rw [Nat.toString_eq_repr, Nat.toList_repr]
  exact ⟨Nat.toDigits_ne_nil,
    fun c hc => visible_of_digit (Nat.isDigit_of_mem_toDigits (by decide) (by decide) hc)⟩

/-! ## The announcement -/

/-- What the server prints for a port and a key. -/
def announcement [Base64Engine] (port : Nat) (key : Base64Key) : List Text :=
  ["MOSH CONNECT ".toList ++ (toString port).toList ++ ' ' :: key.printableKey,
    "MOSH CONNECTION ID: 1".toList]

theorem visible_key [Base64Engine] [LawfulBase64Engine] (key : Base64Key) :
    key.printableKey ≠ [] ∧ ∀ c ∈ key.printableKey, Visible c := by
  refine ⟨fun hnil => ?_, fun c hc => visible_of_symbol (key.printableKey_symbols c hc)⟩
  have hlength := key.length_printableKey
  rw [hnil] at hlength
  cases hlength

/-- The first line is one to connect by, and the second is not, though it begins
like one. -/
theorem onLine_announcement [Base64Engine] [LawfulBase64Engine] {port : Nat} (h : port < 2 ^ 16)
    (key : Base64Key) (info : Option ConnectInfo) :
    onLine info ("MOSH CONNECT ".toList ++ (toString port).toList ++ ' ' :: key.printableKey)
        = some ⟨port, key.printableKey, none⟩ ∧
      onLine info "MOSH CONNECTION ID: 1".toList = info := by
  have hwords : splitWhitespace
      ("MOSH CONNECT ".toList ++ (toString port).toList ++ ' ' :: key.printableKey)
      = ["MOSH".toList, "CONNECT".toList, (toString port).toList, key.printableKey] := by
    have hline : "MOSH CONNECT ".toList ++ (toString port).toList ++ ' ' :: key.printableKey
        = [' '].intercalate
          ["MOSH".toList, "CONNECT".toList, (toString port).toList, key.printableKey] := by
      simp [List.intercalate]
    have hmosh : ∀ c ∈ "MOSH".toList, Visible c := forall_of_all (by decide)
    have hverb : ∀ c ∈ "CONNECT".toList, Visible c := forall_of_all (by decide)
    rw [hline, splitWhitespace_intercalate]
    simp only [List.forall_mem_cons]
    exact ⟨⟨by decide, hmosh⟩, ⟨by decide, hverb⟩, visible_decimal port, visible_key key, nofun⟩
  have hprefix : "MOSH CONNECT".toList.isPrefixOf
      ("MOSH CONNECT ".toList ++ (toString port).toList ++ ' ' :: key.printableKey) = true := rfl
  constructor
  · rw [onLine, if_pos hprefix, hwords]
    simp only [parseU16_decimal h]
  · rw [onLine, if_pos (by decide)]
    rfl

theorem printed_plain {line : Text} (hline : ∀ c ∈ line, c = ' ' ∨ Visible c) :
    BufRead.IsAscii line ∧ '\n' ∉ line ∧ '\r' ∉ line := by
  refine ⟨fun c hc => ?_, fun hc => ?_, fun hc => ?_⟩
  · rcases hline c hc with rfl | hvisible
    · decide
    · exact hvisible.ascii
  · rcases hline _ hc with hblank | hvisible
    · cases hblank
    · exact absurd rfl (hvisible.ne (by decide))
  · rcases hline _ hc with hblank | hvisible
    · cases hblank
    · exact absurd rfl (hvisible.ne (by decide))

theorem announcement_plain [Base64Engine] [LawfulBase64Engine] (port : Nat) (key : Base64Key) :
    ∀ line ∈ announcement port key, BufRead.IsAscii line ∧ '\n' ∉ line ∧ '\r' ∉ line := by
  have hword : ∀ c ∈ "MOSH CONNECT ".toList, c = ' ' ∨ Visible c :=
    forall_of_all (by decide)
  have hid : ∀ c ∈ "MOSH CONNECTION ID: 1".toList, c = ' ' ∨ Visible c :=
    forall_of_all (by decide)
  refine List.forall_mem_cons.mpr ⟨printed_plain fun c hc => ?_,
    List.forall_mem_singleton.mpr (printed_plain hid)⟩
  rcases List.mem_append.mp hc with hc | hc
  · rcases List.mem_append.mp hc with hc | hc
    · exact hword c hc
    · exact .inr ((visible_decimal port).2 c hc)
  · rcases List.mem_cons.mp hc with hc | hc
    · exact .inl hc
    · exact .inr ((visible_key key).2 c hc)

/-! ## The server -/

section

variable [Base64Engine] {host : Host} {env : Env} {opts : CliOptions} {out : List Text}
  {next : Next}

omit [Base64Engine] in
theorem pickPort_lt {ip : String} {low high port : Nat}
    (h : pickPort host ip low high = .ok port) : port < 2 ^ 16 := by
  simp only [pickPort] at h
  split at h
  · next local_addr _ =>
      cases local_addr with
      | error e => cases h
      | ok port' =>
          cases h
          exact port'.isLt
  · cases h

/-- What the process that announces goes on as. -/
def Continues (port : Nat) (key : Base64Key) : Next → Prop
  | .exit _ => True
  | .respawn env => env "MORSH_DAEMON_CHILD" = some "1" ∧
      env "MORSH_DAEMON_PORT" = some (toString port) ∧
      env "MORSH_KEY" = some (String.ofList key.printableKey)
  | .serve serving => serving.port = port ∧ serving.key = key

/-- A process that is no daemon child announces what it goes on with, or is over. -/
theorem serverMain_parent (hparent : env "MORSH_DAEMON_CHILD" = none)
    (h : serverMain host env opts = (out, next)) :
    (∃ message, next = .exit message) ∨
      ∃ port key, port < 2 ^ 16 ∧ out = announcement port key ∧ Continues port key next := by
  simp only [serverMain, hparent, Option.isSome_none, Bool.false_eq_true, if_false] at h
  split at h
  · cases h
    exact .inl ⟨_, rfl⟩
  · next key _ =>
      split at h
      · cases h
        exact .inl ⟨_, rfl⟩
      · next port hport =>
          have hlt := pickPort_lt hport
          split at h
          · cases h
            exact .inr ⟨port, key, hlt, rfl, rfl, rfl⟩
          · split at h
            · cases h
              exact .inl ⟨_, rfl⟩
            · cases h
              exact .inr ⟨port, key, hlt, rfl, rfl, rfl, rfl⟩
            · cases h
              exact .inr ⟨port, key, hlt, rfl, rfl, rfl⟩
            · cases h
              exact .inr ⟨port, key, hlt, rfl, rfl, rfl⟩

theorem serverMain_child [LawfulBase64Engine] {port : Nat} {key : Base64Key} {serving : Serving}
    (hlt : port < 2 ^ 16) (henv : Continues port key (.respawn env))
    (h : serverMain host env opts = (out, .serve serving)) :
    serving.port = port ∧ serving.key = key := by
  obtain ⟨hchild, hport, hkey⟩ := henv
  have hread : Base64Key.fromPrintable (String.ofList key.printableKey).toList = .ok key := by
    rw [String.toList_ofList]
    exact (fromPrintable_iff _ _).mpr rfl
  have hnumber : ((some (toString port)).bind fun s => parseU16 s.toList).getD 0 = port := by
    rw [Option.bind_some, parseU16_decimal hlt, Option.getD_some]
  simp only [serverMain, hchild, hport, hkey, hread, hnumber, Option.isSome_some, if_true] at h
  cases h
  exact ⟨rfl, rfl⟩

/-- The process that serves in the end does so with what was announced. A process
that is started again takes port and key from the environment it is given and
prints nothing. -/
theorem Launches.announced [LawfulBase64Engine] {bytes : List UInt8} {serving : Serving}
    (hparent : env "MORSH_DAEMON_CHILD" = none) (h : Launches host env opts bytes serving) :
    serving.port < 2 ^ 16 ∧ bytes = printed (announcement serving.port serving.key) := by
  cases h with
  | serves h =>
      rcases serverMain_parent hparent h with ⟨_, hexit⟩ | ⟨port, key, hlt, rfl, rfl, rfl⟩
      · cases hexit
      · exact ⟨hlt, rfl⟩
  | respawns h hargs hchild =>
      rcases serverMain_parent hparent h with ⟨_, hexit⟩ | ⟨port, key, hlt, rfl, henv⟩
      · cases hexit
      · obtain ⟨rfl, rfl⟩ := serverMain_child hlt henv hchild
        exact ⟨hlt, rfl⟩

end

/-! ## Through the system's ssh -/

/-- Nothing in it is an error or a line to connect by. -/
def Unconnected (lines : List (Option Text)) : Prop :=
  ∀ line ∈ lines, ∃ text, line = some text ∧ onLine none text = none

theorem readConnect_unconnected {noise : List (Option Text)} (h : Unconnected noise)
    (lines : List (Option Text)) : readConnect (noise ++ lines) = readConnect lines := by
  induction noise with
  | nil => rfl
  | cons line noise ih =>
      obtain ⟨⟨text, rfl, htext⟩, hnoise⟩ := List.forall_mem_cons.mp h
      rw [List.cons_append, readConnect, htext]
      exact ih hnoise

section

variable [Base64Engine] [LawfulBase64Engine] {host : Host} {env : Env} {opts : CliOptions}
  {out noise : List UInt8} {serving : Serving}

theorem clientKey_printed (key : Base64Key) : clientKey (some key.printableKey) = .ok key := by
  simp only [clientKey, (fromPrintable_iff _ key).mpr rfl]

/-- Reading what is printed line by line. -/
theorem read_printed {α : Type} {read : List UInt8 → List α} {asRead : Text → α}
    (hread : ∀ {line : Text}, BufRead.IsAscii line ∧ '\n' ∉ line ∧ '\r' ∉ line →
      ∀ rest, read (BufRead.ascii (line ++ ['\n']) ++ rest) = asRead line :: read rest)
    (port : Nat) (key : Base64Key) (rest : List UInt8) :
    read (printed (announcement port key) ++ rest)
      = (announcement port key).map asRead ++ read rest := by
  have hplain := announcement_plain port key
  generalize announcement port key = lines at hplain
  induction lines with
  | nil => rfl
  | cons line lines ih =>
      obtain ⟨hline, hlines⟩ := List.forall_mem_cons.mp hplain
      rw [printed, List.flatMap_cons, List.append_assoc, hread hline, List.map_cons,
        List.cons_append]
      exact congrArg (asRead line :: ·) (ih hlines)

/-- Through the system's ssh, the wrapper learns the port and the key of the
process that serves, and the client is given that key, whatever whole lines are
printed before the announcement and whatever is printed after it. -/
theorem handshake_agrees (hlaunch : Launches host env opts out serving)
    (hparent : env "MORSH_DAEMON_CHILD" = none) (hwhole : BufRead.Whole noise)
    (hquiet : Unconnected (BufRead.lines noise)) (tail heard stderr : List UInt8) :
    ∃ info, tryLaunchServer (noise ++ out ++ tail) heard stderr = (some info, []) ∧
      info.port = serving.port ∧ clientKey (some info.key) = .ok serving.key ∧
      info.ip = (StderrReader.read heard).ip := by
  obtain ⟨hlt, rfl⟩ := hlaunch.announced hparent
  obtain ⟨hconnect, -⟩ := onLine_announcement hlt serving.key none
  have hread : readConnect (BufRead.lines
      (noise ++ printed (announcement serving.port serving.key) ++ tail))
      = some (some ⟨serving.port, serving.key.printableKey, none⟩) := by
    rw [List.append_assoc, BufRead.lines_append hwhole, readConnect_unconnected hquiet,
      read_printed fun hline => BufRead.lines_println hline.1 hline.2.1 hline.2.2, announcement,
      List.map_cons, List.cons_append, readConnect, hconnect]
  rw [tryLaunchServer, hread]
  exact ⟨_, rfl, rfl, clientKey_printed serving.key, rfl⟩

end

/-- A Windows host where the first port is taken. -/
def busyHost : Host where
  windows := true
  isIp := fun _ => true
  bind := fun _ port =>
    if port = 60001 then .error "in use" else .ok (.ok ⟨port % 2 ^ 16, Nat.mod_lt _ (by decide)⟩)
  random := ⟨List.replicate 16 7, rfl⟩
  forkAndDetach := .respawned

/-- What serves there once it was started again. -/
def busyServing : Serving :=
  ⟨60002, some "10.0.0.5", busyHost.random, "cmd.exe", [], []⟩

/-- The environment that ssh gives a command. -/
def sshEnv : Env := fun name =>
  if name = "SSH_CONNECTION" then some "10.0.0.9 50022 10.0.0.5 22" else none

theorem busyHost_launches :
    Launches busyHost sshEnv default (printed (announcement 60002 busyHost.random)) busyServing :=
  @Launches.respawns _ busyHost sshEnv default _ _ busyHost ["new"] default _ busyServing rfl rfl
    rfl

theorem handshake_agrees_noisy :
    ∃ info, tryLaunchServer (ascii "Welcome!\r\nMOSH CONNECT me\n"
        ++ printed (announcement 60002 busyHost.random) ++ ascii "MOSH CONNECT 1 x\n") [] []
        = (some info, []) ∧
      info.port = 60002 ∧ clientKey (some info.key) = .ok busyHost.random ∧ info.ip = none :=
  handshake_agrees busyHost_launches rfl (by decide +kernel)
    (by
      have hlines : BufRead.lines (ascii "Welcome!\r\nMOSH CONNECT me\n")
          = [some "Welcome!".toList, some "MOSH CONNECT me".toList] := by decide +kernel
      rw [hlines, Unconnected]
      simp only [List.forall_mem_cons]
      exact ⟨⟨_, rfl, by decide +kernel⟩, ⟨_, rfl, by decide +kernel⟩, nofun⟩)
    (ascii "MOSH CONNECT 1 x\n") [] []

/-! ## Through the built-in client -/

theorem onLine_none (info : Option ConnectInfo) (line : Text) :
    onLine info line = (onLine none line).or info := by
  unfold onLine
  split
  · split
    · split
      · rfl
      · rfl
    · rfl
  · rfl

theorem foldl_onLine_quiet {lines : List Text} (h : ∀ line ∈ lines, onLine none line = none)
    (info : Option ConnectInfo) : lines.foldl onLine info = info := by
  induction lines generalizing info with
  | nil => rfl
  | cons line lines ih =>
      obtain ⟨hline, hlines⟩ := List.forall_mem_cons.mp h
      rw [List.foldl_cons, onLine_none, hline, Option.none_or, ih hlines]

theorem linesOf_println {line : Text} (h : BufRead.IsAscii line ∧ '\n' ∉ line ∧ '\r' ∉ line)
    (rest : List UInt8) :
    linesOf (BufRead.ascii (line ++ ['\n']) ++ rest) = line :: linesOf rest := by
  obtain ⟨hascii, hfeed, hreturn⟩ := h
  have hbytes : BufRead.ascii (line ++ ['\n']) = BufRead.ascii line ++ [10] := List.map_append
  have hline : BufRead.IsAscii (line ++ ['\n']) := by
    intro c hc
    rcases List.mem_append.mp hc with hc | hc
    · exact hascii c hc
    · rw [List.mem_singleton.mp hc]
      decide
  rw [linesOf, hbytes, List.append_assoc, List.singleton_append, Utf8.lossy_append_lineFeed,
    ← hbytes, BufRead.lossy_ascii hline, List.append_assoc, List.singleton_append,
    Lines.lines_line hfeed, Lines.stripReturn_of_notMem hreturn]
  rfl

theorem linesOf_whole {noise : List UInt8} (h : BufRead.Whole noise) (rest : List UInt8) :
    linesOf (noise ++ rest) = linesOf noise ++ linesOf rest := by
  rcases List.eq_nil_or_concat noise with rfl | ⟨front, b, rfl⟩
  · rfl
  · rw [List.concat_eq_append] at h ⊢
    rw [BufRead.Whole, List.getLast?_concat, Option.all_some, beq_iff_eq] at h
    rw [linesOf_append (by rw [List.getLast?_concat, h])]

/-- Once an exit status has come there is a code. -/
theorem execWithHandler_code {σ : Type} {handler : σ → Text → σ} {start : σ}
    {msgs : List ChannelMsg} {code : Nat} (h : .exitStatus code ∈ msgs) :
    ∃ last, (execWithHandler handler start msgs).code = some last := by
  have hkept : ∀ (rest : List ChannelMsg) (e : Exec σ), (∃ last, e.code = some last) →
      ∃ last, (rest.foldl (Exec.onMessage handler) e).code = some last := by
    intro rest
    induction rest with
    | nil => exact fun e he => he
    | cons msg rest ih =>
        intro e he
        refine ih _ ?_
        cases msg with
        | exitStatus code => exact ⟨code, rfl⟩
        | data data => exact he
        | extendedData data => exact he
        | other => exact he
  obtain ⟨before, after, rfl⟩ := List.append_of_mem h
  rw [execWithHandler, List.foldl_append, List.foldl_cons]
  exact hkept after _ ⟨code, rfl⟩

/-- Through the built-in client the last line to connect by counts: the wrapper
learns the port and the key of the process that serves where nothing behind the
announcement looks like another one, whatever whole lines are in front of it, if
the transport cuts the output behind line feeds. -/
theorem russh_handshake_agrees [Base64Engine] [LawfulBase64Engine] {host : Host} {env : Env}
    {opts : CliOptions} {out noise : List UInt8} {serving : Serving}
    (hlaunch : Launches host env opts out serving)
    (hparent : env "MORSH_DAEMON_CHILD" = none) (hwhole : BufRead.Whole noise)
    {tail : List UInt8} (hquiet : ∀ line ∈ linesOf tail, onLine none line = none)
    {msgs : List ChannelMsg} (hstdout : stdout msgs = noise ++ out ++ tail)
    (hcut : LineWise (stdoutChunks msgs)) (hexit : ∃ code, ChannelMsg.exitStatus code ∈ msgs)
    (peer : Text) :
    ∃ info, connectInfo peer msgs = some (some info) ∧ info.port = serving.port ∧
      clientKey (some info.key) = .ok serving.key ∧ info.ip = some peer := by
  obtain ⟨hlt, rfl⟩ := hlaunch.announced hparent
  obtain ⟨code, hcode⟩ := hexit
  obtain ⟨last, hlast⟩ := @execWithHandler_code _ onLine none msgs code hcode
  have hhandler : (execWithHandler onLine none msgs).handler
      = some ⟨serving.port, serving.key.printableKey, none⟩ := by
    obtain ⟨hconnect, hid⟩ := onLine_announcement hlt serving.key
      ((linesOf noise).foldl onLine none)
    have hid' := (onLine_announcement hlt serving.key
      (some ⟨serving.port, serving.key.printableKey, none⟩)).2
    rw [execWithHandler_handler, (linesOf_stdout_iff msgs).mpr hcut, hstdout, List.append_assoc,
      linesOf_whole hwhole, read_printed linesOf_println, List.map_id', announcement,
      List.foldl_append, List.foldl_append, List.foldl_cons, List.foldl_cons, List.foldl_nil,
      hconnect, hid', foldl_onLine_quiet hquiet]
  rw [connectInfo]
  simp only [hlast, hhandler, Option.map_some]
  exact ⟨_, rfl, rfl, clientKey_printed serving.key, rfl⟩

theorem russh_handshake_agrees_noisy :
    ∃ info, connectInfo "10.0.0.5".toList
        [.data (ascii "MOSH CONNECT 1 x\n"), .extendedData [33],
          .data (printed (announcement 60002 busyHost.random)), .exitStatus 0] = some (some info) ∧
      info.port = 60002 ∧ clientKey (some info.key) = .ok busyHost.random ∧
      info.ip = some "10.0.0.5".toList :=
  russh_handshake_agrees busyHost_launches rfl
    (show BufRead.Whole (ascii "MOSH CONNECT 1 x\n") by decide +kernel)
    (show ∀ line ∈ linesOf [], onLine none line = none from nofun)
    (by decide +kernel) (by decide +kernel) ⟨0, by decide +kernel⟩ _

end Morsh
