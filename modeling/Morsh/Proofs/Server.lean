import Mathlib.Logic.Relation
import Morsh.Proofs.Session
import Morsh.Server.Server

/-!
# What the server does to its endpoint

Every step of the server is a few operations of its transport, one after the
other. So whatever each of them preserves, the server preserves; the two
directions of the record are the case in point.

`Reaches` is reflexive and transitive, and an operation of the transport is a step
of it, so the lemmas follow the calls of the code: what feeds the child makes one
edit or none, what handles an event of the pty makes an edit or begins the
shutdown, and a branch of the loop is a few of those. `step_reaches` is the only
one used elsewhere.
-/

namespace Morsh

open State

variable {T : Type} [Emulator T] [ProstMessage HostMessage] [ProstMessage UserMessage]

namespace Server

/-- From one endpoint to another by operations of its transport. -/
def Reaches (incoming : List Instruction) (x x' : Endpoint (Complete T) UserStream HostEdit) :
    Prop :=
  Relation.ReflTransGen (fun x x' => x.Stepped HostEdit.apply incoming x') x x'

variable {incoming : List Instruction} {s s' : Server T}

theorem Reaches.refl (x : Endpoint (Complete T) UserStream HostEdit) :
    Reaches incoming x x := Relation.ReflTransGen.refl

theorem edit_reaches (hrun : s.shutdownInProgress = false) (e : HostEdit) :
    Reaches incoming s.endpoint (s.edit e).endpoint :=
  Relation.ReflTransGen.single (.edit hrun e)

theorem startShutdown_reaches (now : Nat) :
    Reaches incoming s.endpoint (s.endpoint.startShutdown now) :=
  Relation.ReflTransGen.single (.shutdown now)

theorem getRemoteDiff_reaches :
    Reaches incoming s.endpoint s.endpoint.getRemoteDiff.1 :=
  Relation.ReflTransGen.single .diff

omit [ProstMessage HostMessage] [ProstMessage UserMessage] in
@[simp] theorem edit_shutdown (e : HostEdit) :
    (s.edit e).shutdownInProgress = s.shutdownInProgress := rfl

omit [Emulator T] [ProstMessage HostMessage] [ProstMessage UserMessage] in
@[simp] theorem writeKeys_endpoint (keys : Bytes) : (s.writeKeys keys).endpoint = s.endpoint := by
  unfold writeKeys
  split <;> rfl

theorem applyResize_reaches (width height : Int32) :
    Reaches incoming s.endpoint (s.applyResize width height).endpoint ∧
      (s.applyResize width height).shutdownInProgress = s.shutdownInProgress := by
  unfold applyResize
  simp only []
  split
  · exact ⟨.refl _, rfl⟩
  · next hrun => exact ⟨edit_reaches (Bool.not_eq_true _ ▸ hrun) _, rfl⟩

theorem feedEvents_reaches (events : List UserEvent) (keys : Bytes) :
    Reaches incoming s.endpoint (s.feedEvents keys events).1.endpoint ∧
      (s.feedEvents keys events).1.shutdownInProgress = s.shutdownInProgress := by
  fun_induction feedEvents s keys events with
  | case1 => exact ⟨.refl _, rfl⟩
  | case2 s keys byte rest ih => exact ih
  | case3 s keys width height w h rest ih => exact ih
  | case4 s keys width height rest _ ih =>
      obtain ⟨hreach, hshut⟩ := @applyResize_reaches _ _ _ _ incoming
        (s := s.writeKeys keys) width height
      rw [writeKeys_endpoint] at hreach
      have hsame : (s.writeKeys keys).shutdownInProgress = s.shutdownInProgress := by
        rw [shutdownInProgress, writeKeys_endpoint]; rfl
      exact ⟨hreach.trans ih.1, ih.2.trans (hshut.trans hsame)⟩

theorem handleClientInput_reaches (now : Nat) :
    Reaches incoming s.endpoint (s.handleClientInput now).endpoint := by
  unfold handleClientInput
  simp only []
  split
  · exact .refl _
  have hdiff := @getRemoteDiff_reaches _ _ _ _ incoming s
  split
  · exact hdiff
  · next events _ =>
      have hfeed := @feedEvents_reaches _ _ _ _ incoming
        (s := { s with
          endpoint := s.endpoint.getRemoteDiff.1
          lastRemoteNum := s.endpoint.transport.getRemoteStateNum }) events []
      split
      · next hcond =>
          simp only [Bool.and_eq_true, Bool.not_eq_true'] at hcond
          have hedit := @edit_reaches _ _ _ _ incoming _ hcond.2
            (.registerInputFrame s.endpoint.transport.getRemoteStateNum now)
          rw [writeKeys_endpoint] at hedit
          exact (hdiff.trans hfeed.1).trans hedit
      · rw [writeKeys_endpoint]
        exact hdiff.trans hfeed.1

theorem tryWait_reaches (now : Nat) :
    Reaches incoming s.endpoint (s.tryWait now).endpoint := by
  unfold tryWait
  split
  · exact startShutdown_reaches now
  · exact .refl _

theorem housekeep_reaches (now : Nat) :
    Reaches incoming s.endpoint (s.housekeep now).1.endpoint := by
  have hexit := @tryWait_reaches _ _ _ _ incoming s now
  unfold housekeep
  simp only []
  split
  · exact hexit
  · next hrun => exact hexit.trans (edit_reaches (Bool.not_eq_true _ ▸ hrun) _)

theorem handlePtyEvent_reaches (now : Nat) (event : PtyEvent) :
    Reaches incoming s.endpoint (s.handlePtyEvent now event).endpoint := by
  cases event with
  | output data =>
      simp only [handlePtyEvent]
      split
      · exact .refl _
      · next hrun => exact edit_reaches (Bool.not_eq_true _ ▸ hrun) _
  | exited status => exact startShutdown_reaches now

theorem takeBranch_reaches {now : Nat} {branch : Branch} (h : s.takeBranch now branch = some s')
    (hmem : ∀ inst fresh, branch = .recv fresh (.ok (some inst)) → inst ∈ incoming) :
    Reaches incoming s.endpoint s'.endpoint := by
  cases branch with
  | ptyEvent =>
      simp only [takeBranch] at h
      split at h
      · cases h
      · next event rest _ =>
          cases h
          exact handlePtyEvent_reaches (s := { s with pty := { s.pty with rx := rest } }) now event
  | recv fresh datagram =>
      cases h
      exact Relation.ReflTransGen.single
        (.of_recv now fresh fun inst hi => hmem inst fresh (hi ▸ rfl))
  | sleep =>
      cases h
      exact .refl _

/-- Shutdown begins in the serve loop only. -/
def Fresh (s : Server T) : Prop := s.phase = .waiting → s.shutdownInProgress = false

/-- Every step of the server is operations of its transport, on instructions
it has been sent. -/
theorem step_reaches {op : ServerOp} (hfresh : s.Fresh) (h : s.step op = some s')
    (hmem : ∀ inst, Server.incoming op = some inst → inst ∈ incoming) :
    Reaches incoming s.endpoint s'.endpoint := by
  cases op with
  | pty op =>
      simp only [step] at h
      split at h
      · cases h
      · obtain ⟨p, -, rfl⟩ := Option.map_eq_some_iff.mp h
        exact .refl _
  | await now fresh datagram =>
      simp only [step] at h
      split at h
      · cases h
        refine Relation.ReflTransGen.single (.of_recv now fresh fun inst hi => hmem inst ?_)
        rw [hi]; rfl
      · cases h
  | giveUp =>
      simp only [step] at h
      split at h
      · cases h; exact .refl _
      · cases h
  | connect =>
      simp only [step] at h
      split at h
      · next hphase =>
          cases h
          have hdiff := @getRemoteDiff_reaches _ _ _ _ incoming s
          unfold connect
          simp only []
          split
          · exact hdiff
          · exact hdiff.trans (edit_reaches (s := { s with endpoint := s.endpoint.getRemoteDiff.1 })
              (hfresh hphase.1) _)
      · cases h
  | select now timeout srttMs branch =>
      simp only [step] at h
      split at h
      · next hclock =>
          obtain ⟨s₁, hbranch, rfl⟩ := Option.map_eq_some_iff.mp h
          have hwait : Reaches incoming s.endpoint
              (s.endpoint.waitTime now.val timeout srttMs) :=
            Relation.ReflTransGen.single (.wait now.val timeout srttMs
              s.endpoint.transport.connection.hasRemoteAddr hclock.2 now.isLt)
          refine hwait.trans (takeBranch_reaches hbranch fun inst fresh hb => hmem inst ?_)
          rw [hb]; rfl
      · cases h
  | input now =>
      simp only [step] at h
      split at h
      · cases h; exact handleClientInput_reaches now
      · cases h
  | housekeeping now =>
      simp only [step] at h
      split at h
      · cases h; exact housekeep_reaches now
      · cases h
  | tick now timeout srttMs chaff =>
      simp only [step] at h
      split at h
      · next hclock =>
          cases h
          exact Relation.ReflTransGen.single (.tick now.val timeout srttMs
            s.endpoint.transport.connection.hasRemoteAddr chaff _ hclock.2 now.isLt)
      · cases h

end Server

end Morsh
