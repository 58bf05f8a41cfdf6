import Morsh.Ssh.Exec

/-!
# Lines cut by the transport

Cut behind line feeds, the output has the lines of its chunks. Cut anywhere else
it has fewer: a chunk that is left unfinished gives a line of its own, so the
handler is called once too often for each of them.

`linesOf` on a text that is cut behind line feeds is the concatenation of the
lines of its pieces, and anywhere else there are more pieces of lines than lines;
so counting is enough to tell the two apart, and the condition is exact. An empty
message has no lines and may stand anywhere. The handler is folded over the lines,
so for two different lists of lines there is a handler that tells them apart: the
one that records its calls.
-/

namespace Morsh

open Lines Utf8

variable {chunk rest : List UInt8} {msgs : List ChannelMsg} {cs : List (List UInt8)}

/-- Whether a chunk leaves a line unfinished. -/
def Open (chunk : List UInt8) : Prop := chunk.getLast?.any (· ≠ 10) = true

instance (chunk : List UInt8) : Decidable (Open chunk) := inferInstanceAs (Decidable (_ = _))

theorem not_open_iff (h : chunk ≠ []) : ¬ Open chunk ↔ chunk.getLast? = some 10 := by
  obtain ⟨front, b, rfl⟩ := (List.eq_nil_or_concat chunk).resolve_left h
  simp [Open]

theorem unfinished_lossy (chunk : List UInt8) : Unfinished (lossy chunk) ↔ Open chunk := by
  rcases List.eq_nil_or_concat chunk with rfl | ⟨front, b, rfl⟩
  · exact Iff.rfl
  · rw [List.concat_eq_append]
    obtain ⟨out, c, hout, hc⟩ := decode_concat none front b
    rw [lossy, hout, unfinished_concat, ne_eq, hc]
    simp [Open]

theorem length_linesOf (chunk : List UInt8) :
    (linesOf chunk).length = chunk.count 10 + if Open chunk then 1 else 0 := by
  have hcount : (lossy chunk).count '\n' = chunk.count 10 := count_decode none chunk
  rw [linesOf, length_lines, hcount, if_congr (unfinished_lossy chunk) rfl rfl]

theorem linesOf_append (h : chunk.getLast? = some 10) :
    linesOf (chunk ++ rest) = linesOf chunk ++ linesOf rest := by
  obtain ⟨front, rfl⟩ : ∃ front, chunk = front ++ [10] := by
    rcases List.eq_nil_or_concat chunk with rfl | ⟨front, b, rfl⟩
    · cases h
    · rw [List.concat_eq_append, List.getLast?_concat] at h
      exact ⟨front, by rw [List.concat_eq_append, Option.some.inj h]⟩
  obtain ⟨out, c, hout, hc⟩ := decode_concat none front 10
  obtain rfl := hc.mpr rfl
  unfold linesOf
  rw [List.append_assoc, List.singleton_append, lossy_append_lineFeed, lossy.eq_1 (front ++ [10]),
    hout, List.append_assoc, List.singleton_append, lines_append]

/-- Cut behind line feeds, the output has the lines of its chunks: a cut there is
one between two lines, and what is behind the last line feed is in the last chunk.
-/
theorem flatMap_linesOf (h : ∀ chunk ∈ cs.dropLast, chunk.getLast? = some 10) :
    cs.flatMap linesOf = linesOf cs.flatten := by
  induction cs with
  | nil => rfl
  | cons chunk cs ih =>
      cases cs with
      | nil => simp
      | cons next cs =>
          rw [List.dropLast_cons_cons] at h
          rw [List.flatMap_cons, List.flatten_cons, linesOf_append (h chunk List.mem_cons_self),
            ih fun c hc => h c (List.mem_cons_of_mem _ hc)]

theorem length_flatMap_linesOf (cs : List (List UInt8)) :
    (cs.flatMap linesOf).length = cs.flatten.count 10 + cs.countP (Open ·) := by
  induction cs with
  | nil => rfl
  | cons chunk cs ih =>
      rw [List.flatMap_cons, List.length_append, ih, length_linesOf, List.flatten_cons,
        List.count_append, List.countP_cons]
      simp only [decide_eq_true_eq]
      omega

/-- As many lines as the output has only where no chunk but the last leaves one
unfinished. -/
theorem ends_of_length_eq (hne : ∀ chunk ∈ cs, chunk ≠ [])
    (h : (cs.flatMap linesOf).length = (linesOf cs.flatten).length) :
    ∀ chunk ∈ cs.dropLast, chunk.getLast? = some 10 := by
  rcases List.eq_nil_or_concat cs with rfl | ⟨front, last, rfl⟩
  · exact fun c hc => nomatch hc
  rw [List.concat_eq_append] at h hne ⊢
  have hlast : Open (front ++ [last]).flatten ↔ Open last := by
    have hnil : last ≠ [] := hne last (by simp)
    simp [Open, List.getLast?_append, List.getLast?_eq_some_getLast hnil]
  rw [length_flatMap_linesOf, length_linesOf, List.countP_append, List.countP_singleton,
    if_congr hlast rfl rfl] at h
  simp only [decide_eq_true_eq] at h
  have hzero : front.countP (Open ·) = 0 := by omega
  intro chunk hc
  rw [List.dropLast_concat] at hc
  rw [← not_open_iff (hne chunk (List.mem_append_left _ hc))]
  simpa using List.countP_eq_zero.mp hzero chunk hc

/-- What the handler comes to. -/
theorem execWithHandler_handler {σ : Type} (handler : σ → Text → σ) (start : σ)
    (msgs : List ChannelMsg) :
    (execWithHandler handler start msgs).handler
      = ((stdoutChunks msgs).flatMap linesOf).foldl handler start := by
  unfold execWithHandler
  suffices h : ∀ e : Exec σ, (msgs.foldl (Exec.onMessage handler) e).handler
      = ((stdoutChunks msgs).flatMap linesOf).foldl handler e.handler from h ⟨start, [], none⟩
  induction msgs with
  | nil => exact fun e => rfl
  | cons msg msgs ih =>
      intro e
      rw [List.foldl_cons, ih]
      cases msg with
      | data data => simp [stdoutChunks, Exec.onMessage, linesOf]
      | extendedData data => rfl
      | exitStatus code => rfl
      | other => rfl

theorem foldl_concat {α : Type} (as bs : List α) :
    bs.foldl (fun calls a => calls ++ [a]) as = as ++ bs := by
  induction bs generalizing as with
  | nil => simp
  | cons b bs ih => rw [List.foldl_cons, ih, List.append_assoc, List.singleton_append]

theorem flatMap_filter_linesOf (cs : List (List UInt8)) :
    (cs.filter (· ≠ [])).flatMap linesOf = cs.flatMap linesOf := by
  induction cs with
  | nil => rfl
  | cons chunk cs ih =>
      by_cases hnil : chunk = []
      · rw [List.filter_cons_of_neg (by simp [hnil]), ih, hnil]
        rfl
      · rw [List.filter_cons_of_pos (by simp [hnil]), List.flatMap_cons, List.flatMap_cons, ih]

/-- The lines of the chunks are the lines of the output if and only if the output
is cut behind line feeds. -/
theorem linesOf_stdout_iff (msgs : List ChannelMsg) :
    (stdoutChunks msgs).flatMap linesOf = linesOf (stdout msgs) ↔
      LineWise (stdoutChunks msgs) := by
  rw [stdout, ← flatMap_filter_linesOf, ← List.flatten_filter_ne_nil]
  constructor
  · intro h
    exact ends_of_length_eq (fun chunk hc => of_decide_eq_true (List.mem_filter.mp hc).2)
      (congrArg List.length h)
  · exact flatMap_linesOf

/-- Every handler is called with exactly the lines of the output if and only if
no Data message but the last that is not empty leaves a line unfinished. The
MOSH CONNECT line does not depend on such cuts. -/
theorem whole_lines_iff (msgs : List ChannelMsg) :
    ((∀ {σ : Type} (handler : σ → Text → σ) (start : σ),
        (execWithHandler handler start msgs).handler
          = (linesOf (stdout msgs)).foldl handler start) ↔
      LineWise (stdoutChunks msgs)) ∧
    ∀ msgs', stdout msgs' = stdout msgs → LineWise (stdoutChunks msgs) →
      LineWise (stdoutChunks msgs') →
      (execWithHandler onLine none msgs').handler
        = (execWithHandler onLine none msgs).handler := by
  refine ⟨⟨fun h => ?_, fun h σ handler start => ?_⟩, fun msgs' hsame h h' => ?_⟩
  · -- a handler that keeps its calls
    have hcalls := h (fun calls line => calls ++ [line]) []
    rw [execWithHandler_handler, foldl_concat, foldl_concat] at hcalls
    exact (linesOf_stdout_iff msgs).mp hcalls
  · rw [execWithHandler_handler, (linesOf_stdout_iff msgs).mpr h]
  · rw [execWithHandler_handler, execWithHandler_handler, (linesOf_stdout_iff msgs).mpr h,
      (linesOf_stdout_iff msgs').mpr h', hsame]

/-- The bytes of an ASCII text. -/
def ascii (text : String) : List UInt8 := text.toList.map fun c => .ofNat c.toNat

/-- The same output in three messages and in one, cut behind line feeds. -/
theorem whole_lines_iff_cutBehind :
    let cut := [ChannelMsg.data (ascii "hello\r\n"), .extendedData [33], .data [],
      .data (ascii "MOSH CONNECT 60001 4NeCCgvZ\n"), .data (ascii "bye"), .exitStatus 0]
    let whole := [ChannelMsg.data (ascii "hello\r\nMOSH CONNECT 60001 4NeCCgvZ\nbye")]
    (execWithHandler onLine none cut).handler
        = (linesOf (stdout cut)).foldl onLine none ∧
      (execWithHandler onLine none whole).handler
        = (execWithHandler onLine none cut).handler := by
  intro cut whole
  have hcut : LineWise (stdoutChunks cut) := by decide +kernel
  exact ⟨(whole_lines_iff cut).1.mpr hcut onLine none,
    (whole_lines_iff cut).2 whole (by decide +kernel) hcut (by decide +kernel)⟩

/-- The server's line, cut inside the key: the handler sees two lines, and takes
what there is of the key for all of it. -/
theorem cut_key_truncated :
    let cut := [ChannelMsg.data (ascii "MOSH CONNECT 60001 4NeCCgvZ"),
      .data (ascii "FeyVOgUF\n"), .exitStatus 0]
    let whole := [ChannelMsg.data (ascii "MOSH CONNECT 60001 4NeCCgvZFeyVOgUF\n"), .exitStatus 0]
    stdout cut = stdout whole ∧
      (execWithHandler (fun calls line => calls ++ [line]) [] cut).handler ≠ linesOf (stdout cut) ∧
      connectInfo [] cut
        = some (some ⟨60001, "4NeCCgvZ".toList, some []⟩) ∧
      connectInfo [] whole
        = some (some ⟨60001, "4NeCCgvZFeyVOgUF".toList, some []⟩) := by
  decide +kernel

end Morsh
