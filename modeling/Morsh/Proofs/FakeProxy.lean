import Morsh.Proofs.Handshake
import Morsh.Proofs.Quoting
import Morsh.Wrapper.FakeProxy

/-!
# The address ssh reached

ssh fills in the tokens of the proxy command and has the shell run it, which
starts the wrapper's own program as the proxy for the host and the port that ssh
means; and the address the proxy announces is the one the wrapper reads.

Three readers stand between the wrapper and its own proxy: ssh, which replaces
percent signs, so the quoted path has them doubled; the shell, for which the path
is one word; and the program itself, which has to see the host and the port as
its two operands. Each is run on what the one ahead of it hands over. The choice
of the address is a stable sort by family and then a search, so the first
reachable address of the list comes out, those of IPv4 ahead. The announcement is
one line, and a reader of lines finds it behind any whole lines that are no
announcements themselves.
-/

namespace Morsh

open Words

/-! ## The command -/

/-- The tokens of a `ProxyCommand`. -/
def sshToken (host : String) (port : Nat) (c : Char) : Option Text :=
  if c = 'h' then some host.toList else if c = 'p' then some (toString port).toList else none

/-- What the shell is given is a quoted command line. ssh undoes the doubled `%`
and puts in host and port, which are bare words and so their own quoting. -/
theorem expand_proxyCommand (exe : String) {host : String} {port : Nat}
    (hhost : shellQuote host = host) (hport : shellQuote (toString port) = toString port) :
    (expand (sshToken host port) (proxyCommand exe).toList).map ("exec ".toList ++ ·)
      = some (shellQuoteAll ["exec", exe, FLAG, "--", host, toString port]).toList := by
  have hcommand : (proxyCommand exe).toList
      = ((shellQuote exe).toList.flatMap fun c => if c = '%' then ['%', '%'] else [c])
        ++ " --fake-proxy -- %h %p".toList := by
    simp only [proxyCommand, replaceChar, String.toList_append, String.toList_ofList,
      List.append_assoc]
    rfl
  have htokens : expand (sshToken host port) " --fake-proxy -- %h %p".toList
      = some (" --fake-proxy -- ".toList ++ (host.toList ++ ' ' :: (toString port).toList)) := by
    simp [expand, sshToken]
  have hquoted : (shellQuoteAll ["exec", exe, FLAG, "--", host, toString port]).toList
      = "exec ".toList ++ ((shellQuote exe).toList ++ (" --fake-proxy -- ".toList
        ++ (host.toList ++ ' ' :: (toString port).toList))) := by
    have hplain : shellQuote "exec" = "exec" ∧ shellQuote FLAG = FLAG ∧ shellQuote "--" = "--" := by
      decide +kernel
    have hwords : shellQuoteAll ["exec", exe, FLAG, "--", host, toString port]
        = "exec" ++ " " ++ shellQuote exe ++ " " ++ FLAG ++ " " ++ "--" ++ " " ++ host ++ " "
          ++ toString port := by
      rw [shellQuoteAll]
      simp only [List.map_cons, List.map_nil, hplain, hhost, hport]
      rfl
    rw [hwords]
    simp only [String.toList_append, List.append_assoc]
    rfl
  rw [hcommand, expand_doubled, htokens, hquoted, Option.map_some, Option.map_some]

/-- The shell starts the program as the proxy for the host and the port. -/
theorem proxy_started (exe : String) {host : String} {port : Nat} (hport : port < 2 ^ 16)
    (hbare : host.toList ≠ [] ∧ host.toList.all isBare = true) (hdashes : host ≠ "--") :
    ∃ line argv args, expand (sshToken host port) (proxyCommand exe).toList = some line ∧
      posix.split ("exec ".toList ++ line) = some ("exec".toList :: argv.map String.toList) ∧
      argv.head? = some exe ∧ proxyArgs argv = some args ∧ proxyTarget args = .ok (host, port) := by
  have hne : host ≠ "" := by
    rintro rfl
    exact hbare.1 rfl
  have hdigit : ∀ c ∈ (toString port).toList, c.isDigit = true := by
    rw [Nat.toString_eq_repr, Nat.toList_repr]
    exact fun c hc => Nat.isDigit_of_mem_toDigits (by decide) (by decide) hc
  have hnumber : toString port ≠ "" ∧ (toString port).toList.all isBare = true :=
    ⟨by simp, List.all_eq_true.mpr fun c hc => by simp [isBare, Char.isAlphanum, hdigit c hc]⟩
  obtain ⟨line, hline, hall⟩ := Option.map_eq_some_iff.mp
    (@expand_proxyCommand exe host port (if_pos ⟨hne, hbare.2⟩) (if_pos hnumber))
  refine ⟨line, [exe, FLAG, "--", host, toString port], ["--", host, toString port], hline, ?_,
    rfl, rfl, ?_⟩
  · rw [hall, shellQuoteAll, toList_joined]
    exact Grammar.split_quoted rfl fun text _ => posix_quotes text
  · have hdigits : toString port ≠ "--" := by
      intro heq
      have hmem : '-' ∈ (toString port).toList := by
        rw [heq]
        decide
      exact absurd (hdigit '-' hmem) (by decide)
    have hfilter : ["--", host, toString port].filter (· ≠ "--") = [host, toString port] := by
      rw [List.filter_cons_of_neg (by simp), List.filter_cons_of_pos (by simpa using hdashes),
        List.filter_cons_of_pos (by simpa using hdigits), List.filter_nil]
    rw [proxyTarget, hfilter]
    simp only [parseU16_decimal hport]

/-! ## The connection -/

/-- Sorted by a key of two values: those with the lower one come first. -/
theorem eq_filter_append {α : Type} {key : α → Bool} {l : List α}
    (h : l.Pairwise fun a b => (!key a || key b) = true) :
    l = l.filter (!key ·) ++ l.filter key := by
  induction l with
  | nil => rfl
  | cons a l ih =>
      obtain ⟨hle, hrest⟩ := List.pairwise_cons.mp h
      cases hkey : key a with
      | false =>
          rw [List.filter_cons_of_pos (by simp [hkey]), List.filter_cons_of_neg (by simp [hkey]),
            List.cons_append, ← ih hrest]
      | true =>
          have hall : ∀ b ∈ a :: l, key b = true := by
            refine List.forall_mem_cons.mpr ⟨hkey, fun b hb => ?_⟩
            simpa [hkey] using hle b hb
          have hnone : (a :: l).filter (!key ·) = [] :=
            List.filter_eq_nil_iff.mpr fun b hb => by simp [hall b hb]
          rw [hnone, List.nil_append, List.filter_eq_self.mpr hall]

/-- Sorting is stable: what has the lower key, then the rest, each in its order.
Of the sort it is used that it permutes, and that it keeps what is sorted already
in its order. -/
theorem mergeSort_key {α : Type} (key : α → Bool) (l : List α) :
    l.mergeSort (fun a b => !key a || key b) = l.filter (!key ·) ++ l.filter key := by
  have htrans : ∀ a b c : α, (!key a || key b) = true → (!key b || key c) = true →
      (!key a || key c) = true := by
    intro a b c
    cases key a <;> cases key b <;> simp
  have htotal : ∀ a b : α, ((!key a || key b) || (!key b || key a)) = true := by
    intro a b
    cases key a <;> cases key b <;> rfl
  -- what shares a key is there in its order, and there is room for no more
  have hkept : ∀ p : α → Bool, (∀ a b, p a = true → p b = true → key a = key b) →
      (l.mergeSort fun a b => !key a || key b).filter p = l.filter p := by
    intro p hp
    have hpairs : (l.filter p).Pairwise fun a b => (!key a || key b) = true := by
      refine List.pairwise_of_forall_mem_list fun a ha b hb => ?_
      rw [hp a b (List.mem_filter.mp ha).2 (List.mem_filter.mp hb).2]
      cases key b <;> rfl
    have hsub := (List.sublist_mergeSort htrans htotal hpairs List.filter_sublist).filter p
    rw [List.filter_filter] at hsub
    simp only [Bool.and_self] at hsub
    refine (hsub.eq_of_length ?_).symm
    exact ((List.mergeSort_perm l _).filter p).length_eq.symm
  have hsplit := eq_filter_append (List.pairwise_mergeSort htrans htotal l)
  rw [hkept key fun a b ha hb => ha.trans hb.symm,
    hkept (!key ·) fun a b ha hb => Bool.not_inj (ha.trans hb.symm)] at hsplit
  exact hsplit

theorem proxyConnect_eq (reachable : Resolved → Bool) (addrs : List Resolved) :
    proxyConnect reachable addrs
      = (addrs.filter (·.isIpv4) ++ addrs.filter (!·.isIpv4)).find? reachable := by
  have hsort := mergeSort_key (fun a : Resolved => !a.isIpv4) addrs
  simp only [Bool.not_not] at hsort
  rw [proxyConnect]
  simp only [Bool.not_not, hsort]

/-! ## The announcement -/

theorem trimEnd_visible {text : Text} {c : Char} (h : Visible c) :
    trimEnd (text ++ [c]) = text ++ [c] := by
  rw [trimEnd, List.reverse_append, List.reverse_singleton, List.singleton_append,
    List.dropWhile_cons_of_neg (by rw [h.not_whitespace]; exact Bool.false_ne_true),
    List.reverse_cons, List.reverse_reverse]

theorem parseIpLine_announced {ip : Text} (hne : ip ≠ []) (hip : ∀ c ∈ ip, Visible c) :
    parseIpLine ("MOSH IP ".toList ++ ip) = some ip := by
  obtain ⟨first, rest, hfirst⟩ := List.exists_cons_of_ne_nil hne
  obtain ⟨front, last, hlast⟩ := (List.eq_nil_or_concat ip).resolve_left hne
  rw [List.concat_eq_append] at hlast
  have hvisible : Visible last := hip last (by rw [hlast]; simp)
  have hhead : Visible first := hip first (by rw [hfirst]; simp)
  have hend : trimEnd ("MOSH IP ".toList ++ ip) = "MOSH IP ".toList ++ ip := by
    rw [hlast, ← List.append_assoc, trimEnd_visible hvisible]
  have htrim : trim ip = ip := by
    have hdrop : ip.dropWhile isWhitespace = ip := by
      rw [hfirst]
      exact List.dropWhile_cons_of_neg (by rw [hhead.not_whitespace]; exact Bool.false_ne_true)
    rw [trim, hdrop]
    rw [hlast]
    exact trimEnd_visible hvisible
  have hstrip : stripPrefix "MOSH IP ".toList ("MOSH IP ".toList ++ ip) = some ip := by
    rw [stripPrefix, if_pos (List.isPrefixOf_iff_prefix.mpr (List.prefix_append _ _)),
      List.drop_left]
  rw [parseIpLine, hend, hstrip, Option.map_some, htrim]

namespace StderrReader

variable {s : StderrReader}

theorem onLines_quiet {noise : List (Option Text)}
    (h : ∀ line ∈ noise, ∃ text, line = some text ∧ parseIpLine text = none)
    (lines : List (Option Text)) :
    ∃ rest, s.onLines (noise ++ lines) = (⟨s.ip, rest⟩ : StderrReader).onLines lines := by
  induction noise generalizing s with
  | nil => exact ⟨s.rest, rfl⟩
  | cons line noise ih =>
      obtain ⟨⟨text, rfl, htext⟩, hnoise⟩ := List.forall_mem_cons.mp h
      rw [List.cons_append, onLines, onLine, htext]
      exact ih hnoise

theorem onLines_ip {addr : Text} (h : s.ip = some addr) (lines : List (Option Text)) :
    (s.onLines lines).ip = some addr := by
  induction lines generalizing s with
  | nil => exact h
  | cons line lines ih =>
      cases line with
      | none => exact h
      | some text =>
          rw [onLines]
          refine ih ?_
          rw [onLine, h]
          cases parseIpLine text <;> rfl

end StderrReader

theorem read_announced {noise : List UInt8} (hwhole : BufRead.Whole noise)
    (hquiet : ∀ line ∈ BufRead.lines noise, ∃ text, line = some text ∧ parseIpLine text = none)
    {addr : Resolved} (hne : addr.ip ≠ []) (hip : ∀ c ∈ addr.ip, Visible c) (more : List UInt8) :
    (StderrReader.read (noise ++ announceIp addr ++ more)).ip = some addr.ip := by
  have hplain : ∀ c ∈ "MOSH IP ".toList, c = ' ' ∨ Visible c := forall_of_all (by decide)
  have hline : ∀ c ∈ "MOSH IP ".toList ++ addr.ip, c = ' ' ∨ Visible c := by
    intro c hc
    rcases List.mem_append.mp hc with hc | hc
    · exact hplain c hc
    · exact .inr (hip c hc)
  obtain ⟨hascii, hfeed, hreturn⟩ := printed_plain hline
  rw [StderrReader.read, List.append_assoc, BufRead.lines_append hwhole, announceIp,
    BufRead.lines_println hascii hfeed hreturn]
  obtain ⟨rest, hrest⟩ := @StderrReader.onLines_quiet ⟨none, []⟩ _ hquiet
    (some ("MOSH IP ".toList ++ addr.ip) :: BufRead.lines more)
  rw [hrest, StderrReader.onLines, StderrReader.onLine, parseIpLine_announced hne hip]
  exact StderrReader.onLines_ip rfl _

/-- ssh's proxy connects to the host and the port that ssh means, to an IPv4
address of it where one can be reached, and the wrapper learns the address,
whatever whole lines ssh has written to stderr and whatever it writes there
later. -/
theorem proxy_reports_address (exe : String) {host : String} {port : Nat} (hport : port < 2 ^ 16)
    (hbare : host.toList ≠ [] ∧ host.toList.all isBare = true) (hdashes : host ≠ "--")
    {reachable : Resolved → Bool} {addrs : List Resolved} {addr : Resolved}
    (hconnect : proxyConnect reachable addrs = some addr) (hne : addr.ip ≠ [])
    (hip : ∀ c ∈ addr.ip, Visible c) {noise : List UInt8} (hwhole : BufRead.Whole noise)
    (hquiet : ∀ line ∈ BufRead.lines noise, ∃ text, line = some text ∧ parseIpLine text = none)
    (more : List UInt8) :
    (∃ line argv args, expand (sshToken host port) (proxyCommand exe).toList = some line ∧
      posix.split ("exec ".toList ++ line) = some ("exec".toList :: argv.map String.toList) ∧
      argv.head? = some exe ∧ proxyArgs argv = some args ∧
      proxyTarget args = .ok (host, port)) ∧
    (addr ∈ addrs ∧ reachable addr = true ∧
      (addr.isIpv4 = false → ∀ other ∈ addrs, other.isIpv4 = true → reachable other = false)) ∧
    (StderrReader.read (noise ++ announceIp addr ++ more)).ip = some addr.ip := by
  refine ⟨proxy_started exe hport hbare hdashes, ?_, read_announced hwhole hquiet hne hip more⟩
  rw [proxyConnect_eq] at hconnect
  have hmem := List.mem_of_find?_eq_some hconnect
  refine ⟨?_, List.find?_some hconnect, fun hnot other hother hipv4 => ?_⟩
  · rcases List.mem_append.mp hmem with hmem | hmem
    · exact (List.mem_filter.mp hmem).1
    · exact (List.mem_filter.mp hmem).1
  · by_contra hreach
    rw [List.find?_append] at hconnect
    cases hfind : (addrs.filter (·.isIpv4)).find? reachable with
    | none =>
        have hnone := List.find?_eq_none.mp hfind other (List.mem_filter.mpr ⟨hother, hipv4⟩)
        exact hreach (Bool.not_eq_true _ ▸ hnone)
    | some found =>
        rw [hfind, Option.some_or] at hconnect
        have hfour := (List.mem_filter.mp (List.mem_of_find?_eq_some hfind)).2
        rw [Option.some.inj hconnect, hnot] at hfour
        cases hfour

theorem proxy_reports_address_dual :
    (StderrReader.read (ascii "Warning: Permanently added\r\n"
        ++ announceIp ⟨true, "203.0.113.9".toList⟩ ++ ascii "MOSH IP 6.6.6.6\n")).ip
      = some "203.0.113.9".toList ∧
    ∃ line argv args, expand (sshToken "web" 22) (proxyCommand "/opt/100% it's/morsh").toList
        = some line ∧
      posix.split ("exec ".toList ++ line) = some ("exec".toList :: argv.map String.toList) ∧
      argv.head? = some "/opt/100% it's/morsh" ∧ proxyArgs argv = some args ∧
      proxyTarget args = .ok ("web", 22) := by
  have hquiet : ∀ line ∈ BufRead.lines (ascii "Warning: Permanently added\r\n"),
      ∃ text, line = some text ∧ parseIpLine text = none := by
    have hlines : BufRead.lines (ascii "Warning: Permanently added\r\n")
        = [some "Warning: Permanently added".toList] := by decide +kernel
    rw [hlines, List.forall_mem_singleton]
    exact ⟨_, rfl, by decide +kernel⟩
  obtain ⟨hstarted, -, hread⟩ := @proxy_reports_address "/opt/100% it's/morsh" "web" 22
    (by decide) (by decide +kernel) (by decide) (fun _ => true)
    [⟨false, "2001:db8::1".toList⟩, ⟨true, "203.0.113.9".toList⟩] ⟨true, "203.0.113.9".toList⟩
    (by rw [proxyConnect_eq]; decide +kernel) (by decide) (forall_of_all (by decide +kernel))
    (ascii "Warning: Permanently added\r\n") (by decide +kernel) hquiet
    (ascii "MOSH IP 6.6.6.6\n")
  exact ⟨hread, hstarted⟩

end Morsh
