import Morsh.Lib.Run
import Morsh.Proofs.HostKeys
import Morsh.Ssh.Trust

/-!
# Trust on first use

A host no file knows may be trusted once, as the user's settings say; from then
on it is the key that was trusted then that the host must show. Narrowing what
is offered is half of it: a key of a type that is not recorded would look like
a new host's, so it must not come to be shown.

A run keeps, for one host and port, which keys are recorded for it: those from the
start and at most one more (`Pinned`). A connection changes that only where no
file settles the matter and the policy lets a new host in; and then the host was
not settled, because what was offered would have been narrowed to recorded types,
and a key of a recorded type that differs is a changed one. Both halves need that
every file can be read for the host: a lookup that fails counts for nothing, so a
recorded key would be passed over.

The files are russh's, and a parameter with the laws of its three functions. The
instance at the end is a list of lines that is looked up the way russh does.
-/

namespace Morsh

open SshKey HostKey KnownHostsFile

/-- What is known of russh's three functions. A file that is missing, or cannot be
opened, is one with no keys. -/
class LawfulKnownHosts (File Key : Type) [HostKey Key] [KnownHostsFile File Key] where
  records : File → Text → Nat → Key → Prop
  mem_keys : ∀ {f : File} {host port found}, keys f host port = .ok found →
    ∀ key : Key, records f host port key ↔ ∃ line, (line, key) ∈ found
  check_documented : ∀ {Path : Type} (files : Path → File) (host : Text) (port : Nat) (key : Key),
    Documented ⟨fun path k => records (files path) host port k,
      fun k k' => sameKeyType (algorithm k) (algorithm k') = true⟩ key
      fun path => check (files path) host port key
  /-- The lookup fails where the keys cannot be listed, and nowhere else. -/
  check_reads : ∀ {f : File} {host port} {found : List (Nat × Key)}, keys f host port = .ok found →
    ∀ (key : Key) message, check f host port key ≠ .error (.other message)
  /-- Recording a key for a host records nothing else. -/
  records_learn : ∀ {f f' : File} {host port} {key : Key}, PlainHost host = true →
    learn f host port key = .ok f' → ∀ host', PlainHost host' = true → ∀ port' (key' : Key),
    records f' host' port' key' ↔
      records f host' port' key' ∨ (host' = host ∧ port' = port ∧ key' = key)
  /-- It leaves a file in which all lines parse if they did. -/
  learn_reads : ∀ {f f' : File} {host port} {key : Key}, PlainHost host = true →
    learn f host port key = .ok f' →
    (∀ host port, ∃ found : List (Nat × Key), keys f host port = .ok found) →
    ∀ host port, ∃ found : List (Nat × Key), keys f' host port = .ok found

/-! ## Key types -/

theorem SshKey.sameKeyType_iff {a b : Algorithm} :
    sameKeyType a b = true ↔ a = b ∨ (∃ h, a = .rsa h) ∧ ∃ h, b = .rsa h := by
  unfold sameKeyType
  split
  · simp
  · next hno =>
      rw [decide_eq_true_eq]
      refine ⟨.inl, fun h => h.elim id ?_⟩
      rintro ⟨⟨h, rfl⟩, h', rfl⟩
      exact (hno _ _ rfl rfl).elim

theorem SshKey.sameKeyType_join {a b c : Algorithm} (h : sameKeyType a b = true)
    (h' : sameKeyType a c = true) : sameKeyType b c = true := by
  rw [sameKeyType_iff] at *
  rcases h with rfl | ⟨⟨x, rfl⟩, y, rfl⟩
  · exact h'
  · rcases h' with rfl | ⟨-, z, rfl⟩
    · exact .inr ⟨⟨y, rfl⟩, x, rfl⟩
    · exact .inr ⟨⟨y, rfl⟩, z, rfl⟩

section

variable {Path File Key : Type} [HostKey Key] [KnownHostsFile File Key] [LawfulKnownHosts File Key]

open LawfulKnownHosts

/-- Whatever host it is asked for, the file can be read and what is recorded for the
host parses. -/
def Intact (Key : Type) [HostKey Key] [KnownHostsFile File Key] (f : File) : Prop :=
  ∀ host port, ∃ found : List (Nat × Key), keys f host port = .ok found

/-! ## One verdict -/

namespace HostKeyPolicy

omit [HostKey Key] [KnownHostsFile File Key] [LawfulKnownHosts File Key] in
/-- A key is trusted because a file has it, or, where no file settles the matter,
because the policy allows it; only then it is recorded. -/
theorem verifyIn_cases (policy : HostKeyPolicy Path) (stdin : Stdin) (check : Path → Lookup)
    (files : List Path) :
    ((∃ p ∈ files, check p = .ok true) ∧ policy.verifyIn stdin check files = ⟨true, none⟩) ∨
      policy.verifyIn stdin check files = ⟨false, none⟩ ∨
      (∀ p ∈ files, check p = .ok false ∨ ∃ message, check p = .error (.other message)) ∧
        policy.verifyIn stdin check files = ⟨true, some policy.learnInto⟩ := by
  induction files with
  | nil =>
      simp only [verifyIn, unknownHost]
      split
      · exact .inr (.inl rfl)
      · exact .inr (.inr ⟨fun p hp => absurd hp List.not_mem_nil, rfl⟩)
      · cases ask stdin with
        | false => exact .inr (.inl rfl)
        | true => exact .inr (.inr ⟨fun p hp => absurd hp List.not_mem_nil, rfl⟩)
  | cons path rest ih =>
      have hpass (hpath : check path = .ok false ∨ ∃ message, check path = .error (.other message))
          (hskip : policy.verifyIn stdin check (path :: rest) = policy.verifyIn stdin check rest) :
          ((∃ p ∈ path :: rest, check p = .ok true) ∧
            policy.verifyIn stdin check (path :: rest) = ⟨true, none⟩) ∨
          policy.verifyIn stdin check (path :: rest) = ⟨false, none⟩ ∨
          (∀ p ∈ path :: rest, check p = .ok false ∨ ∃ message, check p = .error (.other message)) ∧
            policy.verifyIn stdin check (path :: rest) = ⟨true, some policy.learnInto⟩ := by
        rw [hskip]
        rcases ih with ⟨⟨p, hp, hsame⟩, hverdict⟩ | hverdict | ⟨hall, hverdict⟩
        · exact .inl ⟨⟨p, List.mem_cons_of_mem _ hp, hsame⟩, hverdict⟩
        · exact .inr (.inl hverdict)
        · exact .inr (.inr ⟨List.forall_mem_cons.mpr ⟨hpath, hall⟩, hverdict⟩)
      cases hpath : check path with
      | ok matched =>
          cases matched with
          | true => exact .inl ⟨⟨path, List.mem_cons_self, hpath⟩, by rw [verifyIn, hpath]⟩
          | false => exact hpass (.inl hpath) (by rw [verifyIn, hpath])
      | error e =>
          cases e with
          | keyChanged line => exact .inr (.inl (by rw [verifyIn, hpath]))
          | other message => exact hpass (.inr ⟨message, hpath⟩) (by rw [verifyIn, hpath])

variable {policy : HostKeyPolicy Path} {files : Path → File} {preferences : List Algorithm}
  {a : Algorithm}

omit [LawfulKnownHosts File Key] in
variable (Key) in
theorem preferred_subset (h : a ∈ policy.preferred Key files preferences) : a ∈ preferences := by
  unfold preferred at h
  simp only [] at h
  split at h
  · exact (List.mem_filter.mp h).1
  · exact h

/-- Where a key of a usable type is recorded, only recorded types are offered: the
narrowed list is not empty then, because the file that has the key can be read. -/
theorem preferred_recorded (hintact : ∀ p ∈ policy.knownHosts, Intact Key (files p))
    (hsettled : ∃ p ∈ policy.knownHosts, ∃ key : Key,
      records (files p) policy.host policy.port key ∧
        ∃ b ∈ preferences, sameKeyType b (algorithm key) = true)
    (h : a ∈ policy.preferred Key files preferences) :
    ∃ p ∈ policy.knownHosts, ∃ key : Key, records (files p) policy.host policy.port key ∧
      sameKeyType a (algorithm key) = true := by
  obtain ⟨p, hp, key, hkey, b, hb, htype⟩ := hsettled
  obtain ⟨found, hfound⟩ := hintact p hp policy.host policy.port
  obtain ⟨line, hline⟩ := (mem_keys hfound key).mp hkey
  unfold preferred at h
  simp only [] at h
  split at h
  · obtain ⟨-, hany⟩ := List.mem_filter.mp h
    obtain ⟨r, hr, hsame⟩ := List.any_eq_true.mp hany
    obtain ⟨e, he, rfl⟩ := List.mem_map.mp hr
    obtain ⟨found', hfound', he⟩ := List.mem_flatten.mp he
    obtain ⟨q, hq, hkeys⟩ := List.mem_filterMap.mp hfound'
    have hok : keys (files q) policy.host policy.port = .ok found' := by
      revert hkeys
      generalize (keys (files q) policy.host policy.port : Except KeyError (List (Nat × Key)))
        = result
      cases result with
      | error _ => exact nofun
      | ok _ => exact fun hkeys => congrArg _ (Option.some.inj hkeys)
    exact ⟨q, hq, e.2, (mem_keys hok e.2).mpr ⟨e.1, he⟩, hsame⟩
  · -- the type of `key` has been kept
    next hnone =>
      refine absurd ?_ hnone
      refine List.ne_nil_of_mem (a := b) (List.mem_filter.mpr ⟨hb, ?_⟩)
      refine List.any_eq_true.mpr ⟨algorithm key, List.mem_map.mpr ⟨(line, key), ?_, rfl⟩, htype⟩
      refine List.mem_flatten.mpr ⟨found, List.mem_filterMap.mpr ⟨p, hp, ?_⟩, hline⟩
      rw [hfound]
      rfl

end HostKeyPolicy

/-! ## Runs -/

namespace TrustStore

variable [DecidableEq Path] {paths : KnownHostsPaths Path} {preferences : List Algorithm}
  {files : Path → File} {host : Text} {port : Nat} {key : Key}

/-- Some file records a key of the host. -/
def Recorded (paths : KnownHostsPaths Path) (files : Path → File) (host : Text) (port : Nat)
    (key : Key) : Prop :=
  ∃ p ∈ paths.all, records (files p) host port key

variable (Key) in
/-- Some file records one that is of a type russh would use. -/
def Settled (paths : KnownHostsPaths Path) (preferences : List Algorithm) (files : Path → File)
    (host : Text) (port : Nat) : Prop :=
  ∃ key : Key, Recorded paths files host port key ∧
    ∃ a ∈ preferences, sameKeyType a (algorithm key) = true

omit [DecidableEq Path] in
/-- A new key is accepted only for a host that is not settled: what is offered
keeps any other from getting so far. -/
theorem not_settled_of_undecided (hintact : ∀ p ∈ paths.all, Intact Key (files p))
    {a : Attempt Key} (hoffered : ((a.policy paths).preferred Key files preferences).any
      (sameKeyType · (algorithm key)) = true)
    (hundecided : ∀ p ∈ paths.all,
      check (files p) (a.policy paths).host (a.policy paths).port key = .ok false ∨
        ∃ message, check (files p) (a.policy paths).host (a.policy paths).port key
          = .error (.other message)) :
    ¬ Settled Key paths preferences files (a.policy paths).host (a.policy paths).port := by
  rintro ⟨recorded, ⟨p, hp, hrecorded⟩, b, hb, htype⟩
  obtain ⟨c, hc, hshown⟩ := List.any_eq_true.mp hoffered
  obtain ⟨q, hq, r, hr, hsame⟩ := HostKeyPolicy.preferred_recorded hintact
    ⟨p, hp, recorded, hrecorded, b, hb, htype⟩ hc
  obtain ⟨found, hfound⟩ := hintact q hq (a.policy paths).host (a.policy paths).port
  rcases hundecided q hq with hfalse | ⟨message, hother⟩
  · -- the file has a key of this type, so it would have decided
    have hneither := (check_documented files (a.policy paths).host (a.policy paths).port
      key).neither q hfalse
    refine hneither.2 ⟨r, hr, fun heq => hneither.1 (heq ▸ hr), ?_⟩
    exact sameKeyType_join hsame hshown
  · exact check_reads hfound key message hother

variable {s s' : TrustStore Path File Key} {a : Attempt Key}

omit [LawfulKnownHosts File Key] in
/-- What one connection does: nothing, or a key of an offered type is trusted,
because a file has it or because it is new, and then it is recorded if it can
be. -/
theorem connect_cases (h : s.connect paths preferences a = some s') :
    s' = s ∨ ∃ key, ((a.policy paths).preferred Key s.files preferences).any
        (sameKeyType · (algorithm key)) = true ∧
      ((∃ p ∈ paths.all, check (s.files p) (a.policy paths).host (a.policy paths).port key
            = .ok true) ∧
          s' = { s with
            log := s.log ++ [⟨(a.policy paths).host, (a.policy paths).port, key, false⟩] } ∨
        (∀ p ∈ paths.all, check (s.files p) (a.policy paths).host (a.policy paths).port key
              = .ok false ∨
            ∃ message, check (s.files p) (a.policy paths).host (a.policy paths).port key
              = .error (.other message)) ∧
          ((∃ file, learn (s.files paths.user) (a.policy paths).host (a.policy paths).port key
                = .ok file ∧
              s' = ⟨Function.update s.files paths.user file,
                s.log ++ [⟨(a.policy paths).host, (a.policy paths).port, key, false⟩]⟩) ∨
            s' = { s with
              log := s.log ++ [⟨(a.policy paths).host, (a.policy paths).port, key, true⟩] })) := by
  unfold connect at h
  split at h
  · cases h
    exact .inl rfl
  · next key _ =>
      simp only [] at h
      split at h
      · next hoffered =>
          cases h
          unfold checkServerKey HostKeyPolicy.verify
          rcases (a.policy paths).verifyIn_cases a.stdin
            (fun path => check (s.files path) (a.policy paths).host (a.policy paths).port key)
            paths.all with ⟨hsame, hverdict⟩ | hverdict | ⟨hundecided, hverdict⟩
          · refine .inr ⟨key, hoffered, .inl ⟨hsame, ?_⟩⟩
            simp only [show (a.policy paths).knownHosts = paths.all from rfl, hverdict, if_true]
          · refine .inl ?_
            simp only [show (a.policy paths).knownHosts = paths.all from rfl, hverdict,
              Bool.false_eq_true, if_false, List.append_nil]
          · refine .inr ⟨key, hoffered, .inr ⟨hundecided, ?_⟩⟩
            simp only [show (a.policy paths).knownHosts = paths.all from rfl, hverdict,
              show (a.policy paths).learnInto = paths.user from rfl]
            split
            · next file hlearn => exact .inl ⟨file, hlearn, rfl⟩
            · exact .inr rfl
      · cases h

omit [LawfulKnownHosts File Key] in
theorem log_grows (h : s.connect paths preferences a = some s') : s.log <+: s'.log := by
  rcases connect_cases h with rfl | ⟨key, -, ⟨-, rfl⟩ | ⟨-, ⟨file, -, rfl⟩ | rfl⟩⟩
  · exact List.prefix_rfl
  all_goals exact List.prefix_append _ _

theorem intact_connect (hintact : ∀ p ∈ paths.all, Intact Key (s.files p))
    (hplain : PlainHost (a.policy paths).host = true)
    (h : s.connect paths preferences a = some s') :
    ∀ p ∈ paths.all, Intact Key (s'.files p) := by
  intro p hp
  rcases connect_cases h with rfl | ⟨key, -, ⟨-, rfl⟩ | ⟨-, ⟨file, hlearn, rfl⟩ | rfl⟩⟩
  · exact hintact p hp
  · exact hintact p hp
  · by_cases hpuser : p = paths.user
    · subst hpuser
      simp only [Function.update_self]
      exact learn_reads hplain hlearn (hintact _ hp)
    · simp only [Function.update_of_ne hpuser]
      exact hintact p hp
  · exact hintact p hp

/-- Recording a key adds it to what is recorded, and nothing else. -/
theorem recorded_learn {file : File} (hplain : PlainHost host = true)
    (hlearn : learn (files paths.user) host port key = .ok file) {host' : Text}
    (hplain' : PlainHost host' = true) (port' : Nat) (k : Key) :
    Recorded paths (Function.update files paths.user file) host' port' k ↔
      Recorded paths files host' port' k ∨ (host' = host ∧ port' = port ∧ k = key) := by
  have huser : paths.user ∈ paths.all := List.mem_cons_self
  constructor
  · rintro ⟨p, hp, hk⟩
    by_cases hpuser : p = paths.user
    · subst hpuser
      rw [Function.update_self] at hk
      exact ((records_learn hplain hlearn host' hplain' port' k).mp hk).imp_left fun hk =>
        ⟨paths.user, hp, hk⟩
    · rw [Function.update_of_ne hpuser] at hk
      exact .inl ⟨p, hp, hk⟩
  · rintro (⟨p, hp, hk⟩ | hnew)
    · by_cases hpuser : p = paths.user
      · subst hpuser
        exact ⟨paths.user, hp, by
          rw [Function.update_self]
          exact (records_learn hplain hlearn host' hplain' port' k).mpr (.inl hk)⟩
      · exact ⟨p, hp, by rwa [Function.update_of_ne hpuser]⟩
    · exact ⟨paths.user, huser, by
        rw [Function.update_self]
        exact (records_learn hplain hlearn host' hplain' port' k).mpr (.inr hnew)⟩

/-- What a run keeps, for one host: besides the keys that were recorded at the
start there is at most one, and none if the host was settled. -/
structure Pinned (paths : KnownHostsPaths Path) (preferences : List Algorithm)
    (start : Path → File) (host : Text) (port : Nat) (first : Option Key)
    (s : TrustStore Path File Key) : Prop where
  unsettled : Settled Key paths preferences start host port → first = none
  usable : ∀ k, first = some k → ∃ a ∈ preferences, sameKeyType a (algorithm k) = true
  recorded : ∀ k, Recorded paths s.files host port k ↔
    Recorded paths start host port k ∨ first = some k
  trusted : ∀ t ∈ s.log, t.host = host → t.port = port →
    Recorded paths start host port t.key ∨ first = some t.key

/-- A connection keeps it. A key that a file has is recorded already. A key that
is new, for this host, shows that the host was not settled, so it is the first;
for another host it changes nothing here. -/
theorem Pinned.connect {start : Path → File} {first : Option Key}
    (h : Pinned paths preferences start host port first s) (hhost : PlainHost host = true)
    (hintact : ∀ p ∈ paths.all, Intact Key (s.files p))
    (hplain : PlainHost (a.policy paths).host = true)
    (hstep : s.connect paths preferences a = some s')
    (hkept : ∀ t ∈ s'.log, t.lost = false) :
    ∃ first', Pinned paths preferences start host port first' s' := by
  rcases connect_cases hstep with rfl | ⟨key, hoffered, ⟨⟨p, hp, hsame⟩, rfl⟩ | ⟨hundecided,
    ⟨file, hlearn, rfl⟩ | rfl⟩⟩
  · exact ⟨first, h⟩
  · -- a file has it
    have hkey : Recorded paths s.files (a.policy paths).host (a.policy paths).port key :=
      ⟨p, hp, (check_documented s.files _ _ key).same p hsame⟩
    refine ⟨first, h.unsettled, h.usable, h.recorded, fun t ht hhost hport => ?_⟩
    rcases List.mem_append.mp ht with ht | ht
    · exact h.trusted t ht hhost hport
    · rw [List.mem_singleton.mp ht] at hhost hport ⊢
      subst hhost hport
      exact (h.recorded key).mp hkey
  · -- it is new
    by_cases hhere : host = (a.policy paths).host ∧ port = (a.policy paths).port
    · obtain ⟨rfl, rfl⟩ := hhere
      have hnew := not_settled_of_undecided hintact hoffered hundecided
      have hnone : first = none := by
        by_contra hsome
        obtain ⟨k, hk⟩ := Option.ne_none_iff_exists'.mp hsome
        exact hnew ⟨k, (h.recorded k).mpr (.inr hk), h.usable k hk⟩
      subst hnone
      refine ⟨some key, fun hsettled => ?_, fun k hk => ?_, fun k => ?_,
        fun t ht hhost hport => ?_⟩
      · obtain ⟨k, hk, husable⟩ := hsettled
        exact absurd ⟨k, (h.recorded k).mpr (.inl hk), husable⟩ hnew
      · cases hk
        obtain ⟨c, hc, hshown⟩ := List.any_eq_true.mp hoffered
        exact ⟨c, HostKeyPolicy.preferred_subset Key hc, hshown⟩
      · rw [recorded_learn hplain hlearn hhost, h.recorded k]
        simp [eq_comm]
      · rcases List.mem_append.mp ht with ht | ht
        · exact (h.trusted t ht hhost hport).imp_right nofun
        · rw [List.mem_singleton.mp ht]
          exact .inr rfl
    · -- another host's
      refine ⟨first, h.unsettled, h.usable, fun k => ?_, fun t ht hhost hport => ?_⟩
      · rw [recorded_learn hplain hlearn hhost, h.recorded k]
        exact or_iff_left fun hnew => hhere ⟨hnew.1, hnew.2.1⟩
      · rcases List.mem_append.mp ht with ht | ht
        · exact h.trusted t ht hhost hport
        · rw [List.mem_singleton.mp ht] at hhost hport
          exact absurd ⟨hhost.symm, hport.symm⟩ hhere
  · -- it is not recorded
    have hlost := hkept _ (List.mem_append_right _ (List.mem_singleton.mpr rfl))
    cases hlost

/-- Over any run of connections, to whatever hosts, with whatever settings and
answers and whoever is on the other side: besides the keys recorded for a host at
the start at most one is ever trusted for it, the first that was accepted; and
none but those that were recorded, if one of them is of a type in use. -/
theorem trust_on_first_use (paths : KnownHostsPaths Path) (preferences : List Algorithm)
    (start : Path → File) (hintact : ∀ p ∈ paths.all, Intact Key (start p))
    (attempts : List (Attempt Key))
    (hplain : ∀ a ∈ attempts, PlainHost (a.policy paths).host = true)
    (s : TrustStore Path File Key)
    (hrun : Run.run (connect paths preferences) ⟨start, []⟩ attempts = some s)
    (hkept : ∀ t ∈ s.log, t.lost = false) (host : Text) (hhost : PlainHost host = true)
    (port : Nat) :
    ∃ first : Option Key, (Settled Key paths preferences start host port → first = none) ∧
      ∀ t ∈ s.log, t.host = host → t.port = port →
        Recorded paths start host port t.key ∨ first = some t.key := by
  have hinv := Run.run_history (I := fun (done : List (Attempt Key)) s =>
    (∀ a ∈ done, PlainHost (a.policy paths).host = true) →
      (∀ p ∈ paths.all, Intact Key (s.files p)) ∧ ((∀ t ∈ s.log, t.lost = false) →
        ∃ first, Pinned paths preferences start host port first s))
    (fun _ => ⟨hintact, fun _ => ⟨none, fun _ => rfl, nofun, fun k => by simp, by simp⟩⟩)
    (fun done s a s' _ h hstep hdone => ?_) hrun hplain
  · obtain ⟨first, hpinned⟩ := hinv.2 hkept
    exact ⟨first, hpinned.unsettled, hpinned.trusted⟩
  · have hhere := hdone a (List.mem_append_right _ (List.mem_singleton.mpr rfl))
    obtain ⟨hintact, hpinned⟩ := h fun b hb => hdone b (List.mem_append_left _ hb)
    refine ⟨intact_connect hintact hhere hstep, fun hkept => ?_⟩
    obtain ⟨first, hfirst⟩ := hpinned fun t ht => hkept t ((log_grows hstep).subset ht)
    exact hfirst.connect hhost hintact hhere hstep hkept

end TrustStore

end

/-! ## On concrete files -/

namespace TrustStore

instance : HostKey PublicKey where
  algorithm key :=
    if key.algorithm = "ssh-ed25519".toList then .ed25519
    else if key.algorithm = "ssh-rsa".toList then .rsa none
    else .other key.algorithm

theorem sameKeyType_algorithm {k k' : PublicKey} :
    sameKeyType (algorithm k) (algorithm k') = true ↔ k.algorithm = k'.algorithm := by
  rw [sameKeyType_iff]
  simp only [algorithm]
  constructor
  · intro h
    split at h <;> split at h <;> (try split at h) <;> (try split at h) <;> simp_all
  · intro h
    rw [h]
    exact .inl rfl

/-- The lines of a file, if there is one: a host and a key each. -/
structure HostsFile where
  lines : Option (List ((Text × Nat) × PublicKey))
  deriving DecidableEq, Repr

/-- The keys of a host. A missing file has none. -/
def HostsFile.keysOf (f : HostsFile) (host : Text) (port : Nat) : List PublicKey :=
  ((f.lines.getD []).filter fun l => l.1 = (host, port)).map (·.2)

theorem HostsFile.mem_keysOf {f : HostsFile} {host : Text} {port : Nat} {key : PublicKey} :
    key ∈ f.keysOf host port ↔ ((host, port), key) ∈ f.lines.getD [] := by
  simp [keysOf]

instance : KnownHostsFile HostsFile PublicKey where
  keys f host port := .ok ((f.keysOf host port).zipIdx.map fun e => (e.2 + 1, e.1))
  check f host port key := lookIn key 1 (f.keysOf host port)
  learn f host port key := .ok ⟨some (f.lines.getD [] ++ [((host, port), key)])⟩

instance : LawfulKnownHosts HostsFile PublicKey where
  records f host port key := key ∈ f.keysOf host port
  mem_keys := by
    intro f host port found h key
    obtain rfl := Except.ok.inj h
    constructor
    · intro hmem
      obtain ⟨i, hi⟩ := List.mem_iff_getElem?.mp hmem
      exact ⟨i + 1, List.mem_map.mpr ⟨(key, i), List.mk_mem_zipIdx_iff_getElem?.mpr hi, rfl⟩⟩
    · rintro ⟨line, hmem⟩
      obtain ⟨e, he, heq⟩ := List.mem_map.mp hmem
      obtain ⟨-, rfl⟩ := Prod.mk.inj heq
      exact List.fst_mem_of_mem_zipIdx he
  check_documented := by
    intro Path files host port key
    have hspec (path : Path) := lookIn_spec key 1 ((files path).keysOf host port)
    constructor
    · intro path h
      have hfound := hspec path
      rw [show lookIn key 1 ((files path).keysOf host port) = .ok true from h] at hfound
      exact hfound
    · intro path line h
      have hchanged := hspec path
      rw [show lookIn key 1 ((files path).keysOf host port) = .error (.keyChanged line) from h]
        at hchanged
      obtain ⟨k, hk, hne, htype⟩ := hchanged
      exact ⟨k, hk, hne, sameKeyType_algorithm.mpr htype⟩
    · intro path h
      have hnone := hspec path
      rw [show lookIn key 1 ((files path).keysOf host port) = .ok false from h] at hnone
      exact ⟨fun hkey => hnone key hkey rfl,
        fun ⟨k, hk, _, htype⟩ => hnone k hk (sameKeyType_algorithm.mp htype)⟩
  check_reads := by
    intro f host port found _ key message h
    have hspec := lookIn_spec key 1 (f.keysOf host port)
    rw [show lookIn key 1 (f.keysOf host port) = .error (.other message) from h] at hspec
    exact hspec
  records_learn := by
    intro f f' host port key _ h host' _ port' key'
    obtain rfl := Except.ok.inj h
    rw [HostsFile.mem_keysOf, HostsFile.mem_keysOf, Option.getD_some, List.mem_append,
      List.mem_singleton, Prod.ext_iff, Prod.ext_iff, and_assoc]
  learn_reads := by
    intro f f' host port key _ h _ host' port'
    exact ⟨_, rfl⟩

/-- The user's two files, then the system's two. -/
def fourFiles : KnownHostsPaths (Fin 4) := ⟨0, 1, [2, 3]⟩

/-- A host is trusted as new; someone else answers for it, with a key of the same
type; it is met again under another alias. -/
def revisits : List (Attempt PublicKey) :=
  [⟨"web".toList, some "hostname example.org\nstricthostkeychecking accept-new\n".toList,
      ⟨false, []⟩, some (ed25519 1)⟩,
    ⟨"example.org".toList, some "stricthostkeychecking accept-new\n".toList, ⟨false, []⟩,
      some (ed25519 2)⟩,
    ⟨"alice@Example.org".toList, none, ⟨true, ["yes\n".toList]⟩, some (ed25519 1)⟩]

def revisited : Option (TrustStore (Fin 4) HostsFile PublicKey) :=
  Run.run (connect fourFiles [.ed25519, .rsa (some .sha512)]) ⟨fun _ => ⟨none⟩, []⟩ revisits

theorem revisited_log : revisited.map (·.log)
    = some (List.replicate 2 ⟨"example.org".toList, 22, ed25519 1, false⟩) := by
  decide +kernel

theorem trust_on_first_use_revisited :
    ∃ s, revisited = some s ∧ s.log.length = 2 ∧ ∃ first : Option PublicKey,
      ∀ t ∈ s.log, t.host = "example.org".toList → t.port = 22 →
        Recorded fourFiles (fun _ => HostsFile.mk none) "example.org".toList 22 t.key ∨
          first = some t.key := by
  obtain ⟨s, hs, hlog⟩ := Option.map_eq_some_iff.mp revisited_log
  obtain ⟨first, -, htrusted⟩ := trust_on_first_use fourFiles [.ed25519, .rsa (some .sha512)]
    (fun _ => HostsFile.mk none) (fun _ _ _ _ => ⟨_, rfl⟩) revisits (by decide +kernel) s hs
    (by rw [hlog]; decide) "example.org".toList (by decide +kernel) 22
  exact ⟨s, hs, by rw [hlog]; rfl, first, htrusted⟩

end TrustStore

end Morsh
