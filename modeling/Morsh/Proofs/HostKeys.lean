import Morsh.Ssh.HostKeys

/-!
# Changed host keys

What a file records and what a lookup in it says are two things: a lookup that
fails, because a read fails or a line does not parse, says nothing, whatever the
file records. The loop passes such a file over as if it recorded nothing, so a
verdict is sound only where no file that was passed over records another key of
the type.

The loop is a search: `verifyIn_eq` reads it as finding the first lookup that
settles the matter, a match or a changed key. Where that is a changed key the
verdict is a refusal and there is nothing to show. Where it is a match,
`vouched_iff` compares the files ahead of it with what they record: those that
say neither record no key of the type, so only the ones that fail can hide one.
Where there is none, every file says neither or fails, and the policy decides as
for a new host; `changed_fails` is the same comparison over all the files. Both
read off the exact condition, `NoneHidden`, so the verdict is safe if and only
if no lookup that failed hides another key of the type.

The files at the end are a small instance of russh's lookup on which the
condition fails.
-/

namespace Morsh

variable {Path Key : Type}

/-- What the files record for the host, and which keys are of one type. -/
structure Records (Path Key : Type) where
  recorded : Path → Key → Prop
  sameType : Key → Key → Prop

namespace Records

variable {r : Records Path Key} {key : Key} {path : Path} {files : List Path}

/-- The file records a different key of the same type. -/
def Changed (r : Records Path Key) (key : Key) (path : Path) : Prop :=
  ∃ other, r.recorded path other ∧ other ≠ key ∧ r.sameType other key

/-- Some file records the key, and no file ahead of it is `bad`. -/
def Ahead (r : Records Path Key) (key : Key) (bad : Path → Prop) (files : List Path) : Prop :=
  ∃ before path after, files = before ++ path :: after ∧ r.recorded path key ∧
    ∀ p ∈ before, ¬ bad p

theorem ahead_cons {bad : Path → Prop} :
    r.Ahead key bad (path :: files) ↔
      r.recorded path key ∨ ¬ bad path ∧ r.Ahead key bad files := by
  constructor
  · rintro ⟨before, p, after, hfiles, hp, hbefore⟩
    cases before with
    | nil =>
        cases hfiles
        exact .inl hp
    | cons first before =>
        cases hfiles
        exact .inr ⟨hbefore _ List.mem_cons_self, before, p, after, rfl, hp,
          fun q hq => hbefore q (List.mem_cons_of_mem _ hq)⟩
  · rintro (hp | ⟨hpath, before, p, after, rfl, hp, hbefore⟩)
    · exact ⟨[], path, files, rfl, hp, fun q hq => nomatch hq⟩
    · refine ⟨path :: before, p, after, rfl, hp, fun q hq => ?_⟩
      rcases List.mem_cons.mp hq with rfl | hq
      · exact hpath
      · exact hbefore q hq

end Records

/-- What is asked of the lookup in a file that is read and parsed to its end. A
file that russh cannot open is outside of it: there russh answers `Ok(false)`,
whatever the file records. -/
structure Documented (r : Records Path Key) (key : Key) (check : Path → Lookup) : Prop where
  same : ∀ path, check path = .ok true → r.recorded path key
  changed : ∀ path line, check path = .error (.keyChanged line) → r.Changed key path
  neither : ∀ path, check path = .ok false → ¬ r.recorded path key ∧ ¬ r.Changed key path

/-- The lookup fails: a read fails, or a line recorded for the host does not
parse. -/
def Fails (check : Path → Lookup) (path : Path) : Prop :=
  ∃ message, check path = .error (.other message)

/-- The lookup settles the matter. -/
def decisive : Lookup → Bool
  | .ok true => true
  | .error (.keyChanged _) => true
  | _ => false

/-- An explicit yes: `yes` is typed, and nothing before it is an answer. -/
def SaysYes (stdin : Stdin) : Prop :=
  stdin.isTerminal = true ∧ ∃ before line after, stdin.answers = before ++ line :: after ∧
    answer line = some true ∧ ∀ l ∈ before, l ≠ [] ∧ answer l = none

namespace HostKeyPolicy

variable {policy : HostKeyPolicy Path} {stdin : Stdin} {check : Path → Lookup}
  {r : Records Path Key} {key : Key} {files : List Path}

/-- The policy lets a new host in. -/
def AllowsNew (policy : HostKeyPolicy Path) (stdin : Stdin) : Prop :=
  policy.strict = .acceptNew ∨ policy.strict = .ask ∧ SaysYes stdin

/-- Some file records the key, none ahead of it a different one of the type. -/
def Vouched (r : Records Path Key) (key : Key) (files : List Path) : Prop :=
  r.Ahead key (r.Changed key) files

/-- No file records a different key of the type, and the policy allows it. -/
def New (policy : HostKeyPolicy Path) (stdin : Stdin) (r : Records Path Key) (key : Key)
    (files : List Path) : Prop :=
  (∀ path ∈ files, ¬ r.Changed key path) ∧ policy.AllowsNew stdin

/-- A verdict that never lets a changed key through. -/
def Safe (policy : HostKeyPolicy Path) (stdin : Stdin) (r : Records Path Key) (key : Key)
    (files : List Path) (verdict : Verdict Path) : Prop :=
  (verdict.trusted = true → Vouched r key files ∨ policy.New stdin r key files) ∧
    (verdict.learned ≠ none → policy.New stdin r key files)

/-- No file that fails hides a different key of the type from the decision: none
ahead of the first that records the key, where the first lookup that settles the
matter is a match, and none at all where there is no such lookup and the policy
allows the host. -/
def NoneHidden (policy : HostKeyPolicy Path) (stdin : Stdin) (check : Path → Lookup)
    (r : Records Path Key) (key : Key) (files : List Path) : Prop :=
  match (files.map check).find? decisive with
  | some (.ok _) => r.Ahead key (fun path => Fails check path ∧ r.Changed key path) files
  | some (.error _) => True
  | none => policy.AllowsNew stdin → ∀ path ∈ files, Fails check path → ¬ r.Changed key path

theorem answer_nil : answer [] = none := by decide +kernel

theorem askLoop_iff (answers : List Text) :
    askLoop answers = true ↔ ∃ before line after, answers = before ++ line :: after ∧
      answer line = some true ∧ ∀ l ∈ before, l ≠ [] ∧ answer l = none := by
  induction answers with
  | nil =>
      refine ⟨fun h => absurd h Bool.false_ne_true, ?_⟩
      rintro ⟨before, line, after, h, -⟩
      exact absurd h.symm (by simp)
  | cons line rest ih =>
      rw [askLoop]
      constructor
      · intro h
        split at h
        · cases h
        · next hsome =>
            split at h
            · next accept hanswer =>
                exact ⟨[], line, rest, rfl, h ▸ hanswer, fun l hl => nomatch hl⟩
            · next hnone =>
                obtain ⟨before, yes, after, rfl, hyes, hbefore⟩ := ih.mp h
                exact ⟨line :: before, yes, after, rfl, hyes,
                  List.forall_mem_cons.mpr ⟨⟨hsome, hnone⟩, hbefore⟩⟩
      · rintro ⟨before, yes, after, hanswers, hyes, hbefore⟩
        cases before with
        | nil =>
            obtain ⟨rfl, rfl⟩ := List.cons.inj hanswers
            have hsome : line ≠ [] := by
              rintro rfl
              rw [answer_nil] at hyes
              cases hyes
            rw [if_neg hsome, hyes]
        | cons first before =>
            obtain ⟨rfl, hrest⟩ := List.cons.inj hanswers
            obtain ⟨⟨hsome, hnone⟩, hbefore⟩ := List.forall_mem_cons.mp hbefore
            rw [if_neg hsome, hnone]
            exact ih.mpr ⟨before, yes, after, hrest, hyes, hbefore⟩

theorem ask_iff : ask stdin = true ↔ SaysYes stdin := by
  rw [ask, SaysYes, ← askLoop_iff]
  cases stdin.isTerminal <;> simp

variable (policy stdin) in
theorem unknownHost_iff :
    ((policy.unknownHost stdin).trusted = true ↔ policy.AllowsNew stdin) ∧
      ((policy.unknownHost stdin).learned ≠ none ↔ policy.AllowsNew stdin) := by
  unfold unknownHost AllowsNew
  rw [← ask_iff]
  cases policy.strict <;> simp

/-- The first lookup that settles the matter does: a match trusts the key, a
changed key refuses it, and the policy is asked only where no file settles it. -/
theorem verifyIn_eq (files : List Path) :
    policy.verifyIn stdin check files
      = match (files.map check).find? decisive with
        | some (.ok _) => ⟨true, none⟩
        | some (.error _) => ⟨false, none⟩
        | none => policy.unknownHost stdin := by
  induction files with
  | nil => rfl
  | cons path files ih =>
      rw [verifyIn, List.map_cons]
      cases check path with
      | ok matched =>
          cases matched with
          | true => rfl
          | false => exact ih
      | error e =>
          cases e with
          | keyChanged line => rfl
          | other message => exact ih

/-- Up to a match only files that fail can record a different key. A file ahead of
it either says neither, and then it records none of the type, or it fails and says
nothing. -/
theorem vouched_iff (hcheck : Documented r key check) {matched : Bool}
    (hfirst : (files.map check).find? decisive = some (.ok matched)) :
    Vouched r key files ↔
      r.Ahead key (fun path => Fails check path ∧ r.Changed key path) files := by
  unfold Vouched
  induction files with
  | nil => cases hfirst
  | cons path files ih =>
      rw [Records.ahead_cons, Records.ahead_cons]
      rw [List.map_cons] at hfirst
      cases hpath : check path with
      | ok matched =>
          cases matched with
          | true => simp [hcheck.same path hpath]
          | false =>
              rw [hpath] at hfirst
              have hneither := hcheck.neither path hpath
              simp [hneither.2, ih hfirst]
      | error e =>
          rw [hpath] at hfirst
          cases e with
          | keyChanged line => cases hfirst
          | other message =>
              have hfails : Fails check path := ⟨message, hpath⟩
              simp [hfails, ih hfirst]

/-- A match is a file that records the key. -/
theorem vouched_of_new (hcheck : Documented r key check) {matched : Bool}
    (hfirst : (files.map check).find? decisive = some (.ok matched))
    (hnew : policy.New stdin r key files) : Vouched r key files := by
  obtain ⟨path, hpath, hlookup⟩ := List.mem_map.mp (List.mem_of_find?_eq_some hfirst)
  have hmatched : matched = true := by
    have hdecisive := List.find?_some hfirst
    cases matched with
    | true => rfl
    | false => cases hdecisive
  obtain ⟨before, after, rfl⟩ := List.append_of_mem hpath
  exact ⟨before, path, after, rfl, hcheck.same path (hmatched ▸ hlookup),
    fun p hp => hnew.1 p (List.mem_append_left _ hp)⟩

/-- Where nothing settles the matter only files that fail can record a different
key. -/
theorem changed_fails (hcheck : Documented r key check)
    (hnone : (files.map check).find? decisive = none) {path : Path} (hpath : path ∈ files)
    (hchanged : r.Changed key path) : Fails check path := by
  have hundecided := List.find?_eq_none.mp hnone _ (List.mem_map_of_mem hpath)
  cases hlookup : check path with
  | ok matched =>
      rw [hlookup] at hundecided
      cases matched with
      | true => exact absurd rfl hundecided
      | false => exact absurd hchanged (hcheck.neither path hlookup).2
  | error e =>
      rw [hlookup] at hundecided
      cases e with
      | keyChanged line => exact absurd rfl hundecided
      | other message => exact ⟨message, hlookup⟩

/-- A changed key is let through, or recorded, if and only if a file that fails
hides it from the decision. -/
theorem changed_key_refused_iff {r : Records Path Key} (policy : HostKeyPolicy Path) (stdin : Stdin)
    (checkKnownHostsPath : Text → Nat → Key → Path → Lookup) (key : Key)
    (hcheck : Documented r key (checkKnownHostsPath policy.host policy.port key)) :
    Safe policy stdin r key policy.knownHosts (policy.verify stdin checkKnownHostsPath key) ↔
      NoneHidden policy stdin (checkKnownHostsPath policy.host policy.port key) r key
        policy.knownHosts := by
  unfold verify
  generalize checkKnownHostsPath policy.host policy.port key = check at hcheck
  generalize policy.knownHosts = files
  rw [verifyIn_eq, Safe, NoneHidden]
  cases hfirst : (files.map check).find? decisive with
  | none =>
      obtain ⟨htrusted, hlearned⟩ := unknownHost_iff policy stdin
      simp only [htrusted, hlearned]
      constructor
      · rintro ⟨-, hnew⟩ hallows path hpath -
        exact (hnew hallows).1 path hpath
      · intro hhidden
        have hnew : policy.AllowsNew stdin → policy.New stdin r key files := fun hallows =>
          ⟨fun path hpath hchanged =>
            hhidden hallows path hpath (changed_fails hcheck hfirst hpath hchanged) hchanged,
            hallows⟩
        exact ⟨fun hallows => .inr (hnew hallows), hnew⟩
  | some lookup =>
      cases lookup with
      | error e => simp
      | ok matched =>
          rw [← vouched_iff hcheck hfirst]
          constructor
          · rintro ⟨htrusted, -⟩
            exact (htrusted rfl).elim id (vouched_of_new hcheck hfirst)
          · exact fun hvouched => ⟨fun _ => .inl hvouched, fun h => absurd rfl h⟩

end HostKeyPolicy

/-! ## On concrete files -/

open HostKeyPolicy

structure PublicKey where
  algorithm : Text
  data : List UInt8
  deriving DecidableEq, Repr

/-- A file that can be opened, and whether it is read and parsed to its end. -/
structure KnownHosts where
  complete : Bool
  keys : List PublicKey
  deriving DecidableEq, Repr

/-- Every key is compared, from `line` on: a different one of the type stops the
lookup, also beside the key itself. -/
def lookIn (key : PublicKey) (line : Nat) : List PublicKey → Lookup
  | [] => .ok false
  | k :: rest =>
      if k.algorithm = key.algorithm ∧ k ≠ key then .error (.keyChanged line)
      else
        match lookIn key (line + 1) rest with
        | .ok found => .ok (k = key || found)
        | .error e => .error e

/-- `check_known_hosts_path`, for the one host the keys are recorded for. -/
def KnownHosts.check (_host : Text) (_port : Nat) (key : PublicKey) (file : KnownHosts) : Lookup :=
  if file.complete then lookIn key 1 file.keys else .error (.other [])

def fileRecords : Records KnownHosts PublicKey where
  recorded file key := key ∈ file.keys
  sameType k key := k.algorithm = key.algorithm

theorem lookIn_spec (key : PublicKey) (line : Nat) (keys : List PublicKey) :
    match lookIn key line keys with
    | .ok true => key ∈ keys
    | .ok false => ∀ k ∈ keys, k.algorithm ≠ key.algorithm
    | .error (.keyChanged _) => ∃ k ∈ keys, k ≠ key ∧ k.algorithm = key.algorithm
    | .error (.other _) => False := by
  induction keys generalizing line with
  | nil => exact fun k hk => nomatch hk
  | cons k rest ih =>
      rw [lookIn]
      by_cases hchanged : k.algorithm = key.algorithm ∧ k ≠ key
      · rw [if_pos hchanged]
        exact ⟨k, List.mem_cons_self, hchanged.2, hchanged.1⟩
      · rw [if_neg hchanged]
        have hrest := ih (line + 1)
        generalize lookIn key (line + 1) rest = lookup at hrest ⊢
        match lookup with
        | .ok true =>
            simp only [Bool.or_true]
            exact List.mem_cons_of_mem _ hrest
        | .ok false =>
            by_cases hsame : k = key
            · simp only [hsame, decide_true, Bool.or_false]
              exact List.mem_cons_self
            · simp only [hsame, decide_false, Bool.or_false]
              exact List.forall_mem_cons.mpr ⟨fun htype => hchanged ⟨htype, hsame⟩, hrest⟩
        | .error (.keyChanged _) =>
            obtain ⟨other, hmem, hother⟩ := hrest
            exact ⟨other, List.mem_cons_of_mem _ hmem, hother⟩

theorem documented_check (host : Text) (port : Nat) (key : PublicKey) :
    Documented fileRecords key (KnownHosts.check host port key) := by
  constructor
  · intro file h
    have hspec := lookIn_spec key 1 file.keys
    unfold KnownHosts.check at h
    split at h
    · rw [h] at hspec
      exact hspec
    · cases h
  · intro file line h
    have hspec := lookIn_spec key 1 file.keys
    unfold KnownHosts.check at h
    split at h
    · rw [h] at hspec
      exact hspec
    · cases h
  · intro file h
    have hspec := lookIn_spec key 1 file.keys
    unfold KnownHosts.check at h
    split at h
    · rw [h] at hspec
      exact ⟨fun hmem => hspec key hmem rfl, fun ⟨k, hk, _, htype⟩ => hspec k hk htype⟩
    · cases h

def ed25519 (byte : UInt8) : PublicKey := ⟨"ssh-ed25519".toList, List.replicate 32 byte⟩

/-- A host looked up in these files, without a terminal to ask on. -/
def acceptNewIn (files : List KnownHosts) : HostKeyPolicy KnownHosts :=
  ⟨"example.org".toList, 22, files, ⟨true, []⟩, .acceptNew⟩

/-- One file has a line that does not parse, and the next records the key. -/
theorem changed_key_refused_iff_readable :
    let policy := acceptNewIn [⟨false, []⟩, ⟨true, [ed25519 1]⟩]
    let verdict := policy.verify ⟨false, []⟩ KnownHosts.check (ed25519 1)
    verdict.trusted = true ∧
      Safe policy ⟨false, []⟩ fileRecords (ed25519 1) policy.knownHosts verdict := by
  intro policy verdict
  refine ⟨by decide +kernel, (changed_key_refused_iff policy ⟨false, []⟩ KnownHosts.check
    (ed25519 1) (documented_check _ _ _)).mpr ?_⟩
  refine ⟨[⟨false, []⟩], ⟨true, [ed25519 1]⟩, [], rfl, List.mem_cons_self, fun file hfile => ?_⟩
  rw [List.mem_singleton.mp hfile]
  rintro ⟨-, k, hk, -⟩
  exact nomatch hk

/-- The only file records another key of the type, but another line for the host
does not parse. -/
theorem changed_key_accepted :
    let policy := acceptNewIn [⟨false, [ed25519 2]⟩]
    let verdict := policy.verify ⟨false, []⟩ KnownHosts.check (ed25519 1)
    Documented fileRecords (ed25519 1) (KnownHosts.check policy.host policy.port (ed25519 1)) ∧
      verdict = ⟨true, some ⟨true, []⟩⟩ ∧
      ¬ Safe policy ⟨false, []⟩ fileRecords (ed25519 1) policy.knownHosts verdict := by
  intro policy verdict
  have hverdict : verdict = ⟨true, some ⟨true, []⟩⟩ := by decide +kernel
  refine ⟨documented_check _ _ _, hverdict, fun hsafe => ?_⟩
  have hnew := hsafe.2 (by rw [hverdict]; exact Option.some_ne_none _)
  exact hnew.1 _ List.mem_cons_self ⟨ed25519 2, List.mem_cons_self, by decide, rfl⟩

end Morsh
