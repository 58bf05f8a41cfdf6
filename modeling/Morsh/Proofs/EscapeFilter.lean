import Morsh.Client.Escape
import Morsh.Lib.Run
import Mathlib.Data.List.Induction
import Mathlib.Tactic.Common

/-!
# Reads are joined before they are filtered

`keystroke` is what the filter makes of one byte. A call of `feed` is a run of
it, and a run over several reads is a run over what they hold together; so where
the reads are cut makes no difference. What is sent is then read off the run: the
input is a sequence of bytes that are typed and of escape pairs.

The filter as written works on a whole read: it looks for the escape key, takes
pairs apart and stops at the quit sequence. `feedLoop_append` shows that one such
call does what a run of single keystrokes does, remembering between two bytes no
more than it remembers between two calls. From there a list of reads is a run
over their concatenation, up to the byte at which the user quits; behind it the
program does not call the filter again.

`Rewritten` says what is sent without mentioning the filter: the input is cut
into pieces, and each piece is sent as it is, shortened to one escape key, or
left out.
-/

namespace Morsh

namespace EscapeFilter

/-- One byte, and what is sent for it; `none` where the user quits. -/
def keystroke (f : EscapeFilter) (byte : UInt8) : Option (EscapeFilter × Bytes) :=
  match f.config with
  | none => some (f, [byte])
  | some c =>
      if f.armed then
        if byte = '.'.toUInt8 then none
        else some ({ f with armed := false },
          if byte = 0x1a then []
          else if byte = c.passKey ∨ byte = c.passKey2 then [c.key]
          else [c.key, byte])
      else if byte = c.key ∧ (f.lfEntered ∨ ¬c.requiresLf) then
        some ({ f with armed := true, lfEntered := false }, [])
      else
        some ({ f with lfEntered := byte = '\n'.toUInt8 ∨ byte = '\r'.toUInt8 }, [byte])

/-- A byte after what has been sent. -/
def typed (s : EscapeFilter × Bytes) (byte : UInt8) : Option (EscapeFilter × Bytes) :=
  (keystroke s.1 byte).map fun r => (r.1, s.2 ++ r.2)

variable {c : EscapeConfig} {f f' : EscapeFilter} {byte : UInt8} {sent sent' bytes : Bytes}

theorem keystroke_config {out : Bytes} (h : f.keystroke byte = some (f', out)) :
    f'.config = f.config := by
  unfold keystroke at h
  split at h
  · cases h
    rfl
  · split at h
    · split at h
      · cases h
      · cases h
        rfl
    · split at h <;> cases h <;> rfl

theorem typed_eq_some :
    typed (f, sent) byte = some (f', sent') ↔
      ∃ out, f.keystroke byte = some (f', out) ∧ sent' = sent ++ out := by
  rw [typed, Option.map_eq_some_iff]
  constructor
  · rintro ⟨⟨g, out⟩, hkey, hpair⟩
    obtain ⟨rfl, rfl⟩ := Prod.mk.inj hpair
    exact ⟨out, hkey, rfl⟩
  · rintro ⟨out, hkey, rfl⟩
    exact ⟨(f', out), hkey, rfl⟩

theorem typed_eq_none : typed (f, sent) byte = none ↔ f.keystroke byte = none := by
  rw [typed, Option.map_eq_none_iff]

theorem run_typed (f : EscapeFilter) (sent bytes : Bytes) :
    Run.run typed (f, sent) bytes
      = (Run.run typed (f, []) bytes).map fun r => (r.1, sent ++ r.2) := by
  induction bytes generalizing f sent with
  | nil => simp
  | cons byte bytes ih =>
      rw [Run.run, Run.run, typed, typed]
      cases f.keystroke byte with
      | none => rfl
      | some r =>
          simp only [Option.map_some, Option.bind_some, List.nil_append]
          rw [ih r.1 (sent ++ r.2), ih r.1 r.2, Option.map_map]
          simp only [Function.comp_def, List.append_assoc]

theorem run_typed_append {bytes' : Bytes}
    (h : Run.run typed (f, []) (bytes ++ bytes') = some (f', sent)) :
    ∃ g sent₁ sent₂, Run.run typed (f, []) bytes = some (g, sent₁) ∧
      Run.run typed (g, []) bytes' = some (f', sent₂) ∧ sent = sent₁ ++ sent₂ := by
  obtain ⟨⟨g, sent₁⟩, hfirst, hrest⟩ := Run.run_append.mp h
  rw [run_typed] at hrest
  obtain ⟨⟨g', sent₂⟩, hsecond, hpair⟩ := Option.map_eq_some_iff.mp hrest
  obtain ⟨rfl, rfl⟩ := Prod.mk.inj hpair
  exact ⟨g, sent₁, sent₂, hfirst, hsecond, rfl⟩

theorem run_config (h : Run.run typed (f, sent) bytes = some (f', sent')) :
    f'.config = f.config := by
  refine Run.run_invariant (I := fun s => s.1.config = f.config) (fun s b s' hs hstep => ?_) rfl h
  obtain ⟨out, hkey, -⟩ := typed_eq_some.mp hstep
  exact (keystroke_config hkey).trans hs

/-! ## One read -/

/-- The loop goes through what the run does; it remembers being armed. So a chunk
may be split anywhere: the loop over the whole is the run over the front and the
loop over the rest, from where the run has got to. -/
theorem feedLoop_append (hc : f.config = some c) {wasArmed : Bool}
    (hw : f.armed = true → wasArmed = true)
    (h : Run.run typed (f, sent) bytes = some (f', sent')) (rest : Bytes) :
    ∃ wasArmed', feedLoop c f wasArmed sent (bytes ++ rest) = feedLoop c f' wasArmed' sent' rest ∧
      (wasArmed = true → wasArmed' = true) ∧ (f'.armed = true → wasArmed' = true) := by
  induction bytes generalizing f wasArmed sent with
  | nil =>
      cases h
      exact ⟨wasArmed, rfl, id, hw⟩
  | cons byte bytes ih =>
      obtain ⟨⟨g, sent₁⟩, htyped, hrun⟩ := Run.run_cons.mp h
      obtain ⟨out, hkey, rfl⟩ := typed_eq_some.mp htyped
      have hg := (keystroke_config hkey).trans hc
      rw [List.cons_append, feedLoop]
      unfold keystroke at hkey
      split at hkey
      · next hnone =>
          rw [hc] at hnone
          cases hnone
      · next c' hsome =>
          obtain rfl := Option.some.inj (hc.symm.trans hsome)
          split at hkey
          · next harmed =>
              rw [if_pos harmed]
              split at hkey
              · cases hkey
              · next hdot =>
                  obtain ⟨rfl, rfl⟩ := Prod.mk.inj (Option.some.inj hkey)
                  rw [if_neg hdot]
                  have hnext :=
                    ih hg (show false = true → wasArmed = true from fun h => nomatch h) hrun
                  by_cases hsuspend : byte = 0x1a
                  · rw [if_pos hsuspend, List.append_nil] at hnext
                    rw [if_pos hsuspend]
                    exact hnext
                  · rw [if_neg hsuspend] at hnext ⊢
                    split
                    · next hpass =>
                        rw [if_pos hpass] at hnext
                        exact hnext
                    · next hpass =>
                        rw [if_neg hpass] at hnext
                        exact hnext
          · next harmed =>
              rw [if_neg harmed]
              split at hkey
              · next hescape =>
                  obtain ⟨rfl, rfl⟩ := Prod.mk.inj (Option.some.inj hkey)
                  rw [if_pos hescape]
                  obtain ⟨w, hloop, hmono, hlast⟩ :=
                    ih hg (show _ → true = true from fun _ => rfl) hrun
                  rw [List.append_nil] at hloop
                  exact ⟨w, hloop, fun _ => hmono rfl, hlast⟩
              · next hescape =>
                  obtain ⟨rfl, rfl⟩ := Prod.mk.inj (Option.some.inj hkey)
                  rw [if_neg hescape]
                  exact ih hg (fun h => absurd h harmed) hrun

/-- What one read does where the user does not quit. -/
theorem feed_some (h : Run.run typed (f, []) bytes = some (f', sent))
    (hdisabled : f.config = none → f.armed = false) :
    ∃ help, f.feed bytes = (f', ⟨sent, help, false⟩) ∧
      (help = some f'.armed ∨ help = none ∧ f.armed = false ∧ f'.armed = false) := by
  unfold feed
  cases hc : f.config with
  | none =>
      have hkeep : ∀ (sent₀ bytes : Bytes), Run.run typed (f, sent₀) bytes
          = some (f, sent₀ ++ bytes) := by
        intro sent₀ bytes
        induction bytes generalizing sent₀ with
        | nil => rw [List.append_nil, Run.run_nil]
        | cons byte bytes ih =>
            refine Run.run_cons.mpr ⟨(f, sent₀ ++ [byte]), ?_, ?_⟩
            · rw [typed, keystroke, hc]
              rfl
            · rw [ih, List.append_assoc, List.singleton_append]
      obtain ⟨rfl, rfl⟩ := Prod.mk.inj (Option.some.inj (h.symm.trans (hkeep [] bytes)))
      exact ⟨none, rfl, .inr ⟨rfl, hdisabled hc, hdisabled hc⟩⟩
  | some c =>
      obtain ⟨w, hloop, hstill, hlast⟩ :=
        feedLoop_append hc (show f.armed = true → f.armed = true from id) h []
      rw [List.append_nil] at hloop
      simp only [hloop, feedLoop]
      refine ⟨_, rfl, ?_⟩
      cases harmed : f'.armed with
      | true => exact .inl rfl
      | false =>
          cases w with
          | true => exact .inl rfl
          | false =>
              have hbefore : f.armed = false := by
                by_contra hcontra
                cases hstill (by simpa using hcontra)
              exact .inr ⟨rfl, hbefore, rfl⟩

/-- A quit ends the call where it is recognised. -/
theorem feed_none {rest : Bytes} (h : Run.run typed (f, []) bytes = some (f', sent))
    (hquit : f'.keystroke byte = none) :
    f.feed (bytes ++ byte :: rest) = ({ f' with armed := false }, ⟨sent, none, true⟩) := by
  unfold keystroke at hquit
  split at hquit
  · cases hquit
  · next c hc' =>
      have hc : f.config = some c := (run_config h).symm.trans hc'
      obtain ⟨w, hloop, -, -⟩ :=
        feedLoop_append hc (show f.armed = true → f.armed = true from id) h (byte :: rest)
      split at hquit
      · next harmed =>
          split at hquit
          · next hdot =>
              rw [feed, hc]
              simp only [hloop, feedLoop, if_pos harmed, if_pos hdot]
          · cases hquit
      · split at hquit <;> cases hquit

theorem feed_quit_iff (hdisabled : f.config = none → f.armed = false) :
    (f.feed bytes).2.quit = true ↔ Run.run typed (f, []) bytes = none := by
  cases hrun : Run.run typed (f, []) bytes with
  | some r =>
      obtain ⟨help, hfeed, -⟩ := feed_some hrun hdisabled
      rw [hfeed]
      simp
  | none =>
      obtain ⟨before, byte, rest, ⟨g, sent⟩, rfl, hbefore, hstop⟩ := Run.run_eq_none hrun
      rw [feed_none hbefore (typed_eq_none.mp hstop)]
      simp

/-! ## Any reads -/

variable {cuts : List Bytes}

theorem disabled_of_run (h : Run.run typed (f, sent) bytes = some (f', sent'))
    (hdisabled : f.config = none → f.armed = false) (hnone : f'.config = none) :
    f'.armed = false := by
  have hf : f.config = none := (run_config h).symm.trans hnone
  have hsame : f' = f := by
    refine Run.run_invariant (I := fun s => s.1 = f) (fun s b s' hs hstep => ?_) rfl h
    obtain ⟨out, hkey, -⟩ := typed_eq_some.mp hstep
    rw [keystroke, hs, hf] at hkey
    cases hkey
    rfl
  rw [hsame]
  exact hdisabled hf

/-- Reads with no quit in them. Put together they send what one run over all the
bytes sends, and the help is up if and only if the filter is armed at the end. -/
theorem reads_some (h : Run.run typed (f, []) cuts.flatten = some (f', sent))
    (hdisabled : f.config = none → f.armed = false) :
    f.quitByte cuts = none ∧ f.sentUntilQuit cuts = sent ∧ f.after cuts = f' ∧
      f.helpShown f.armed cuts = f'.armed := by
  induction cuts generalizing f sent with
  | nil =>
      cases h
      exact ⟨rfl, rfl, rfl, rfl⟩
  | cons chunk cuts ih =>
      rw [List.flatten_cons] at h
      obtain ⟨g, sent₁, sent₂, hchunk, hrest, rfl⟩ := run_typed_append h
      obtain ⟨help, hfeed, hhelp⟩ := feed_some hchunk hdisabled
      obtain ⟨hquit, hsent, hafter, hshown⟩ := ih hrest (disabled_of_run hchunk hdisabled)
      have hup : help.getD f.armed = g.armed := by
        rcases hhelp with rfl | ⟨rfl, hbefore, hnow⟩
        · rfl
        · rw [Option.getD_none, hbefore, hnow]
      refine ⟨?_, ?_, ?_, ?_⟩
      · rw [quitByte, hfeed]
        simp [hquit]
      · rw [sentUntilQuit, hfeed]
        simp [hsent]
      · rw [after, hfeed]
        exact hafter
      · rw [helpShown, hfeed]
        simp only [hup]
        exact hshown

/-- Reads up to a quit. It is recognised in the read that holds its last byte, and
the bytes sent until then are those of the run, whichever reads they came in. -/
theorem reads_none {before rest : Bytes} (h : Run.run typed (f, []) before = some (f', sent))
    (hquit : f'.keystroke byte = none) (hcuts : cuts.flatten = before ++ byte :: rest)
    (hdisabled : f.config = none → f.armed = false) :
    f.quitByte cuts = some (before.length + 1) ∧ f.sentUntilQuit cuts = sent := by
  induction cuts generalizing f before sent with
  | nil => simp at hcuts
  | cons chunk cuts ih =>
      rw [List.flatten_cons, List.append_eq_append_iff] at hcuts
      have hinside : (∃ inside, chunk = before ++ byte :: inside) ∨
          ∃ behind, before = chunk ++ behind ∧ cuts.flatten = behind ++ byte :: rest := by
        rcases hcuts with ⟨behind, hbefore, hrest⟩ | ⟨inside, hchunk, hrest⟩
        · exact .inr ⟨behind, hbefore, hrest⟩
        · cases inside with
          | nil => exact .inr ⟨[], by rw [hchunk, List.append_nil, List.append_nil], hrest.symm⟩
          | cons b inside =>
              obtain rfl := (List.cons.inj hrest).1
              exact .inl ⟨inside, hchunk⟩
      rcases hinside with ⟨inside, rfl⟩ | ⟨behind, rfl, hrest⟩
      · have hfeed : f.feed (before ++ byte :: inside) = _ := feed_none h hquit
        refine ⟨?_, ?_⟩
        · rw [quitByte, hfeed]
          simp only [if_true, List.find?_range_eq_some, List.mem_range]
          refine ⟨?_, ?_, fun n hn => ?_⟩
          · rw [List.take_length_add_append, List.take_succ_cons, List.take_zero,
              feed_none h hquit]
          · simp
          · have hshort : Run.run typed (f, []) (before.take n ++ before.drop n)
                = some (f', sent) := by rw [List.take_append_drop, h]
            obtain ⟨s, hs, -⟩ := Run.run_append.mp hshort
            rw [List.take_append_of_le_length (by omega), Bool.not_eq_true', ← Bool.not_eq_true,
              feed_quit_iff hdisabled, hs]
            exact fun h => nomatch h
        · rw [sentUntilQuit, hfeed]
          simp
      · obtain ⟨g, sent₁, sent₂, hchunk, hbehind, rfl⟩ := run_typed_append h
        obtain ⟨help, hfeed, -⟩ := feed_some hchunk hdisabled
        obtain ⟨hbyte, hsent⟩ := ih hbehind hrest (disabled_of_run hchunk hdisabled)
        refine ⟨?_, ?_⟩
        · rw [quitByte, hfeed]
          simp [hbyte]
          omega
        · rw [sentUntilQuit, hfeed]
          simp [hsent]

/-! ## What is sent -/

/-- A byte that is typed, or the escape key and the byte after it. -/
inductive Piece where
  | plain (byte : UInt8)
  | pair (second : UInt8)
  deriving DecidableEq, Repr

/-- Whether the escape key counts. -/
def counts (c : EscapeConfig) (lineStart : Bool) : Bool := lineStart || !c.requiresLf

/-- A piece of the input, and whether a line starts behind it; `none` where the
input is not read so. -/
def readPiece (c : EscapeConfig) (lineStart : Bool) : Piece → Option Bool
  | .plain byte =>
      if byte = c.key ∧ counts c lineStart then none
      else some (byte = '\n'.toUInt8 ∨ byte = '\r'.toUInt8)
  | .pair second => if counts c lineStart ∧ second ≠ '.'.toUInt8 then some false else none

def pieceInput (c : EscapeConfig) : Piece → Bytes
  | .plain byte => [byte]
  | .pair second => [c.key, second]

/-- The pass key gives one escape key, Ctrl-Z nothing, anything else both. -/
def pieceSent (c : EscapeConfig) : Piece → Bytes
  | .plain byte => [byte]
  | .pair second =>
      if second = 0x1a then []
      else if second = c.passKey ∨ second = c.passKey2 then [c.key]
      else [c.key, second]

/-- What is sent is the input with the escape pairs rewritten and an escape key
that still waits withheld. -/
structure Rewritten (c : EscapeConfig) (input sent : Bytes) (f : EscapeFilter) : Prop where
  pieces : ∃ pieces lineStart, Run.run (readPiece c) false pieces = some lineStart ∧
    sent = pieces.flatMap (pieceSent c) ∧
    input = pieces.flatMap (pieceInput c) ++ (if f.armed then [c.key] else []) ∧
    (f.armed = true → counts c lineStart = true) ∧ f.lfEntered = (!f.armed && lineStart)

theorem Rewritten.step (h : Rewritten c bytes sent f) (hc : f.config = some c) {out : Bytes}
    (hkey : f.keystroke byte = some (f', out)) :
    Rewritten c (bytes ++ [byte]) (sent ++ out) f' := by
  obtain ⟨pieces, lineStart, hread, rfl, rfl, hwaits, hline⟩ := h.pieces
  unfold keystroke at hkey
  split at hkey
  · next hnone =>
      rw [hc] at hnone
      cases hnone
  · next c' hsome =>
      obtain rfl := Option.some.inj (hc.symm.trans hsome)
      split at hkey
      · next harmed =>
          split at hkey
          · cases hkey
          · next hdot =>
              obtain ⟨rfl, rfl⟩ := Prod.mk.inj (Option.some.inj hkey)
              refine ⟨pieces ++ [.pair byte], false, Run.run_append.mpr ⟨_, hread, ?_⟩, ?_, ?_,
                fun h => (nomatch h), ?_⟩
              · simp [Run.run, readPiece, hwaits harmed, hdot]
              · rw [List.flatMap_append, List.flatMap_singleton, pieceSent]
              · rw [List.flatMap_append, List.flatMap_singleton, if_pos harmed, pieceInput]
                simp
              · simp [hline, harmed]
      · next harmed =>
          have hlf : f.lfEntered = lineStart := by simpa [harmed] using hline
          have hcounts : (f.lfEntered = true ∨ ¬c.requiresLf = true) ↔
              counts c lineStart = true := by simp [counts, hlf]
          rw [if_neg harmed, List.append_nil]
          split at hkey
          · next hescape =>
              obtain ⟨rfl, rfl⟩ := Prod.mk.inj (Option.some.inj hkey)
              refine ⟨pieces, lineStart, hread, List.append_nil _, ?_,
                fun _ => hcounts.mp hescape.2, rfl⟩
              simp [hescape.1]
          · next hplain =>
              obtain ⟨rfl, rfl⟩ := Prod.mk.inj (Option.some.inj hkey)
              rw [hcounts] at hplain
              refine ⟨pieces ++ [.plain byte],
                decide (byte = '\n'.toUInt8 ∨ byte = '\r'.toUInt8),
                Run.run_append.mpr ⟨_, hread, ?_⟩, ?_, ?_,
                fun h => absurd h harmed, ?_⟩
              · rw [Run.run, readPiece, if_neg hplain]
                rfl
              · rw [List.flatMap_append, List.flatMap_singleton, pieceSent]
              · simp [List.flatMap_append, pieceInput, harmed]
              · simp [harmed]

theorem rewritten_of_run (hc : f.config = some c) (hstart : Rewritten c [] [] f)
    (h : Run.run typed (f, []) bytes = some (f', sent)) : Rewritten c bytes sent f' := by
  induction bytes using List.reverseRecOn generalizing f' sent with
  | nil =>
      cases h
      exact hstart
  | append_singleton bytes byte ih =>
      obtain ⟨⟨g, sent₁⟩, hbytes, htyped⟩ := Run.run_concat.mp h
      obtain ⟨out, hkey, rfl⟩ := typed_eq_some.mp htyped
      exact (ih hbytes).step ((run_config hbytes).trans hc) hkey

/-- What is sent from the start on. -/
def Sends (config : Option EscapeConfig) (input sent : Bytes) (f : EscapeFilter) : Prop :=
  match config with
  | none => sent = input
  | some c => Rewritten c input sent f

theorem sends_of_run {config : Option EscapeConfig}
    (h : Run.run typed (new config, []) bytes = some (f', sent)) :
    Sends config bytes sent f' := by
  cases config with
  | some c =>
      refine rewritten_of_run rfl ⟨[], false, rfl, rfl, rfl, fun h => ?_, rfl⟩ h
      cases h
  | none =>
      obtain ⟨help, hfeed, -⟩ := feed_some h fun _ => rfl
      exact (congrArg (fun r : EscapeFilter × Filtered => r.2.send) hfeed).symm

/-- Where the input is cut into reads makes no difference. -/
theorem read_boundaries_irrelevant (config : Option EscapeConfig) (cuts cuts' : List Bytes)
    (h : cuts.flatten = cuts'.flatten) :
    (new config).quitByte cuts = (new config).quitByte cuts' ∧
    (new config).sentUntilQuit cuts = (new config).sentUntilQuit cuts' ∧
    ((new config).quitByte cuts = none →
      (new config).after cuts = (new config).after cuts' ∧
      Sends config cuts.flatten ((new config).sentUntilQuit cuts) ((new config).after cuts) ∧
      ∀ reads later, cuts = reads ++ later →
        (new config).helpShown false reads = ((new config).after reads).armed) := by
  have hdisabled : (new config).config = none → (new config).armed = false := fun _ => rfl
  cases hrun : Run.run typed (new config, []) cuts.flatten with
  | some r =>
      obtain ⟨f', sent⟩ := r
      obtain ⟨hquit, hsent, hafter, -⟩ := reads_some hrun hdisabled
      obtain ⟨hquit', hsent', hafter', -⟩ := reads_some (h ▸ hrun) hdisabled
      refine ⟨hquit.trans hquit'.symm, hsent.trans hsent'.symm, fun _ =>
        ⟨hafter.trans hafter'.symm, ?_, ?_⟩⟩
      · rw [hsent, hafter]
        exact sends_of_run hrun
      · rintro reads later rfl
        rw [List.flatten_append] at hrun
        obtain ⟨⟨g, sent₁⟩, hreads, -⟩ := Run.run_append.mp hrun
        obtain ⟨-, -, hnow, hshown⟩ := reads_some hreads hdisabled
        rw [hnow]
        exact hshown
  | none =>
      obtain ⟨before, byte, rest, ⟨g, sent⟩, hcuts, hbefore, hstop⟩ := Run.run_eq_none hrun
      have hquit := typed_eq_none.mp hstop
      obtain ⟨hbyte, hsent⟩ := reads_none hbefore hquit hcuts hdisabled
      obtain ⟨hbyte', hsent'⟩ := reads_none hbefore hquit (h ▸ hcuts) hdisabled
      refine ⟨hbyte.trans hbyte'.symm, hsent.trans hsent'.symm, fun hnone => ?_⟩
      rw [hbyte] at hnone
      cases hnone

/-- An escape pair and a line end, each split across two reads. -/
theorem read_boundaries_irrelevant_tilde :
    let tilde := EscapeFilter.new (some (.forKey '~'.toUInt8))
    let cuts : List Bytes := [[10], [126], [126, 97]]
    let cuts' : List Bytes := [[10, 126, 126], [], [97]]
    tilde.quitByte cuts = tilde.quitByte cuts' ∧
    tilde.sentUntilQuit cuts = tilde.sentUntilQuit cuts' ∧
    (tilde.quitByte cuts = none →
      tilde.after cuts = tilde.after cuts' ∧
      Sends (some (.forKey '~'.toUInt8)) cuts.flatten (tilde.sentUntilQuit cuts)
        (tilde.after cuts) ∧
      ∀ reads later, cuts = reads ++ later →
        tilde.helpShown false reads = (tilde.after reads).armed) :=
  read_boundaries_irrelevant _ _ _ rfl

end EscapeFilter

end Morsh
