import Morsh.Proofs.Account

/-!
# Every run of a channel

Each operation of a channel keeps the record straight, so it is straight
wherever a run ends.

`step_synced` goes through the operations, one lemma of `Traced` for each. The
network delivers what is in it, and only a tick puts something there, so nothing
more is asked of it. Nothing here knows what the states are: the channel of
input and the channel of screens are two instances.
-/

namespace Morsh

variable {E S M V : Type} [State S] [State M] {A : Account S E V}

namespace Channel

def Synced (A : Account S E V) (ch : Channel E S M) : Prop :=
  Traced A ch.clock ch.sender ch.network ch.remote.receiver ch.edits ch.uses ch.handed

theorem step_synced {ch ch' : Channel E S M} {op : ChannelOp E} (h : Synced A ch)
    (hstep : step A.act ch op = some ch') : Synced A ch' := by
  cases op with
  | edit e =>
      simp only [step] at hstep
      split at hstep
      · cases hstep
      · next hrun =>
          cases hstep
          exact h.edit (by simpa using hrun) e
  | tick now timeout srttMs remote chaff =>
      simp only [step] at hstep
      split at hstep
      · cases hstep
      · cases hstep
        exact h.tick (by omega) now.isLt timeout srttMs remote chaff
  | waitTime now timeout srttMs remote =>
      simp only [step] at hstep
      split at hstep
      · cases hstep
      · cases hstep
        exact h.waitTimeMs (by omega) now.isLt timeout srttMs remote
  | acknowledge num =>
      cases hstep
      exact h.ack num
  | setAckNum num =>
      cases hstep
      exact h.of_frame rfl rfl rfl fun hs => hs
  | setDataAck =>
      cases hstep
      exact h.of_frame rfl rfl rfl fun hs => hs
  | remoteHeard time =>
      cases hstep
      exact h.of_frame rfl rfl rfl fun hs => hs
  | startShutdown now =>
      cases hstep
      exact h.startShutdown now
  | deliver index now =>
      simp only [step] at hstep
      split at hstep
      · cases hstep
      · next inst hinst =>
          cases hstep
          exact h.deliver (List.mem_of_getElem? hinst) now
  | getRemoteDiff =>
      cases hstep
      obtain ⟨u, -, -, htraced⟩ := h.getRemoteDiff
      exact htraced

theorem run_synced {ch ch' : Channel E S M} {ops : List (ChannelOp E)} (h : Synced A ch)
    (hrun : Run.run (step A.act) ch ops = some ch') : Synced A ch' :=
  Run.run_invariant (fun _ _ _ hs hstep => step_synced hs hstep) h hrun

end Channel

end Morsh
