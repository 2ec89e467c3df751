import OpenTfMirror.IndexRenewal
import OpenTfMirror.RefreshTraces

/-!
# What `sync_known` does

The log of a synchronization, read off its code: the flag is taken, the keys are
noted, each of them is attempted once under its lock, and the flag is given back.
One task at a time has the flag, and none keeps it beyond its end. Attempts that
fail leave the index in memory to be renewed only; one that succeeds has put its
index there and cleared the retry time of the key.
-/

namespace OpenTfMirror.SyncRuns

open TaskProgram TaskLogic TaskHistory TaskTraces TaskLogs Fallible KeyedLocks LockSections FileNames
  FileStore Outbound Provider Metadata MetadataService IndexDiscovery MetadataMachine MetadataInvariant
  MetadataExec MetadataRuns LoaderOps IndexRenewal

section Flag

/-- The flag after an operation of the task that holds it, or does not. -/
def mark (synchronizing : Bool) : Sigma Res → Bool
  | ⟨.trySync, mine⟩ => mine || synchronizing
  | ⟨.endSync, _⟩ => false
  | _ => synchronizing

/-- Whether the operations of a task leave the flag with it. -/
def synchronizing (performed : List (Sigma Res)) : Bool := performed.foldl mark false

variable {performed : List (Sigma Res)} {event : Sigma Res}

theorem synchronizing_append :
    synchronizing (performed ++ [event]) = mark (synchronizing performed) event := by
  unfold synchronizing
  rw [List.foldl_append]
  rfl

theorem mark_unsynced (h : FetchSpacing.Unsynced event.1) (b : Bool) : mark b event = b := by
  obtain ⟨op, answer⟩ := event
  cases op with
  | trySync => exact h.elim
  | endSync => exact h.elim
  | _ => rfl

/-- Operations that neither take nor return the flag. -/
theorem synchronizing_unsynced (h : ∀ event ∈ performed, FetchSpacing.Unsynced event.1) :
    synchronizing performed = false := by
  unfold synchronizing
  induction performed with
  | nil => rfl
  | cons event rest ih =>
    rw [List.foldl_cons, mark_unsynced (h event List.mem_cons_self)]
    exact ih fun event hevent => h event (List.mem_cons_of_mem _ hevent)

/-- The last operation returns the flag. -/
theorem synchronizing_ended {answer : Res .endSync} :
    synchronizing (performed ++ [⟨.endSync, answer⟩]) = false := by
  rw [synchronizing_append]
  rfl

end Flag

section Attempts

/-- One round of the loop: the provider, what was done for it and how it went. -/
structure Attempt where
  key : ProviderKey
  performed : List (Performance Res Shared)
  outcome : Except MetadataError IndexEntry

/-- The round failed. -/
def Attempt.failed (attempt : Attempt) : Bool := !attempt.outcome.isOk

variable [JsonCrate] {service : ProviderMetadataService}

/-- The round performed the section of the key. -/
def Attempt.Traced (service : ProviderMetadataService) (attempt : Attempt) : Prop :=
  TaskTraces.Traced (guarded indexLock attempt.key (refreshIndexTimed service attempt.key).run)
    (attempt.performed.map Performance.event) attempt.outcome

/-- The loop attempts each key in turn and counts the failures. -/
theorem syncKeys_trace {keys : List ProviderKey} {failures result : ℕ}
    {performed : List (Performance Res Shared)}
    (h : TaskTraces.Traced (syncKeys service keys failures) (performed.map Performance.event) result) :
    ∃ attempts : List Attempt, attempts.map Attempt.key = keys ∧
      (attempts.map Attempt.performed).flatten = performed ∧
      (∀ attempt ∈ attempts, attempt.Traced service) ∧
      result = failures + attempts.countP Attempt.failed := by
  induction keys generalizing failures performed with
  | nil =>
    obtain ⟨hnil, rfl⟩ := traced_done.mp h
    have hperformed : performed = [] := List.map_eq_nil_iff.mp hnil
    refine ⟨[], rfl, hperformed.symm, fun attempt hattempt => ?_, rfl⟩
    cases hattempt
  | cons key rest ih =>
    unfold syncKeys at h
    obtain ⟨first, later, outcome, hsplit, hattempt, hrest⟩ := traced_bind.mp h
    obtain ⟨here, there, rfl, rfl, rfl⟩ := List.map_eq_append_iff.mp hsplit
    cases outcome with
    | error error =>
      obtain ⟨attempts, hkeys, hflatten, htraced, hresult⟩ := ih hrest
      refine ⟨⟨key, here, .error error⟩ :: attempts, congrArg (key :: ·) hkeys,
        congrArg (here ++ ·) hflatten, ?_, ?_⟩
      · intro attempt hattempt'
        rcases List.mem_cons.mp hattempt' with rfl | hmem
        · exact hattempt
        · exact htraced attempt hmem
      · rw [List.countP_cons_of_pos rfl]
        omega
    | ok entry =>
      obtain ⟨attempts, hkeys, hflatten, htraced, hresult⟩ := ih hrest
      refine ⟨⟨key, here, .ok entry⟩ :: attempts, congrArg (key :: ·) hkeys,
        congrArg (here ++ ·) hflatten, ?_, ?_⟩
      · intro attempt hattempt'
        rcases List.mem_cons.mp hattempt' with rfl | hmem
        · exact hattempt
        · exact htraced attempt hmem
      · rw [List.countP_cons_of_neg Bool.false_ne_true]
        exact hresult

/-- A fetch that succeeds ends with the insertion of its entry. -/
theorem refreshIndexUnlocked_ok {key : ProviderKey} {trace : List (Sigma Res)} {entry : IndexEntry}
    (h : TaskTraces.Traced (refreshIndexUnlocked service key).run trace (.ok entry)) :
    ∃ front stamp, trace = front ++ [⟨.insertIndex key entry (.fetched stamp), ()⟩] := by
  unfold refreshIndexUnlocked at h
  obtain ⟨start, rest, stamp, rfl, -, h⟩ := traced_lift_bind.mp h
  obtain ⟨await, rest, answer, rfl, -, h⟩ := traced_lift_bind.mp h
  cases answer with
  | error error =>
    obtain ⟨-, heq⟩ := traced_done.mp h
    cases heq
  | ok versions =>
    dsimp only at h
    cases hvalid : validateRegistryVersions versions with
    | error error =>
      rw [hvalid] at h
      obtain ⟨-, heq⟩ := traced_done.mp h
      cases heq
    | ok value =>
      rw [hvalid] at h
      obtain ⟨now, rest, fetchedAt, rfl, -, h⟩ := traced_lift_bind.mp h
      rcases traced_run_bind h with ⟨write, rest, ⟨⟩, rfl, -, h⟩ | ⟨error, heq, -⟩
      · obtain ⟨insert, rest, ⟨⟩, rfl, hinsert, h⟩ := traced_lift_bind.mp h
        obtain ⟨rfl, heq⟩ := traced_done.mp h
        cases heq
        rw [traced_op.mp hinsert]
        exact ⟨start ++ (await ++ (now ++ write)), stamp, by simp⟩
      · cases heq

/-- A refresh that succeeds inserts its entry, and then clears the retry time. -/
theorem refreshIndexTimed_ok {key : ProviderKey} {trace : List (Sigma Res)} {entry : IndexEntry}
    (h : TaskTraces.Traced (refreshIndexTimed service key).run trace (.ok entry)) :
    ∃ front stamp, trace = front ++
      [⟨.insertIndex key entry (.fetched stamp), ()⟩, ⟨.clearFailure (.index key), ()⟩] := by
  unfold refreshIndexTimed at h
  obtain ⟨fetch, rest, result, rfl, hfetch, h⟩ := traced_lift_bind.mp h
  cases result with
  | error error =>
    dsimp only at h
    split at h
    · obtain ⟨_, _, _, rfl, -, h⟩ := traced_lift_bind.mp h
      obtain ⟨-, heq⟩ := traced_done.mp h
      cases heq
    · obtain ⟨-, heq⟩ := traced_done.mp h
      cases heq
  | ok fetched =>
    obtain ⟨clear, rest, ⟨⟩, rfl, hclear, h⟩ := traced_lift_bind.mp h
    obtain ⟨rfl, heq⟩ := traced_done.mp h
    cases heq
    obtain ⟨front, stamp, rfl⟩ := refreshIndexUnlocked_ok hfetch
    rw [traced_op.mp hclear]
    exact ⟨front, stamp, by simp⟩

end Attempts

section Laws

variable {U : Type} [UrlCrate U] [SemverCrate] [JsonCrate]
variable {service : ProviderMetadataService} {files : Files} {pid : ℕ} {s s' : Shared} {t : ℕ}

/-- A successful attempt has put its index into memory, where it is still, or a
later one, and has cleared the retry time, which only a later failure sets. -/
structure Succeeded (s : Noted Shared (Performance Res Shared)) (attempt : Attempt)
    (entry : IndexEntry) : Prop where
  held : ∃ stamp, (∃ inserted ∈ attempt.performed,
      inserted.event = ⟨.insertIndex attempt.key entry (.fetched stamp), ()⟩ ∧
      inserted.after.indices.lookup attempt.key = some entry) ∧
    ∃ current, s.state.indices.lookup attempt.key = some current ∧
      (current = entry ∨ ∃ later, stamp < later ∧ ⟨attempt.key, later, current⟩ ∈ s.state.published)
  cleared : ∃ cleared ∈ attempt.performed, cleared.event = ⟨.clearFailure (.index attempt.key), ()⟩ ∧
    cleared.after.indexFailures.lookup attempt.key = none ∧
    ∀ later earlier, s.history = later ++ cleared :: earlier → ∀ retryAt,
      s.state.indexFailures.lookup attempt.key = some retryAt →
      ∃ failure ∈ later, failure.event.1 = .recordFailure (.index attempt.key)

/-- What each round of a synchronization did. Whether it failed or not, the index
that was in memory when the keys were noted has been renewed only. -/
structure Attempted (service : ProviderMetadataService) (noted : Shared)
    (s : Noted Shared (Performance Res Shared)) (attempt : Attempt) : Prop where
  traced : attempt.Traced service
  known : attempt.key ∈ noted.indices
  since : ∀ p ∈ attempt.performed, Renewed attempt.key noted p.after
  during : attempt.performed.Pairwise fun p q => Renewed attempt.key p.after q.after
  now : ∀ p ∈ attempt.performed, Renewed attempt.key p.after s.state
  succeeded : ∀ entry, attempt.outcome = .ok entry → Succeeded s attempt entry

/-- How many attempts failed, as an answer. -/
def verdict (failures : ℕ) : Except MetadataError Unit :=
  if failures = 0 then .ok () else .error (.syncFailed failures)

/-- A synchronization that returns was refused the flag, or attempted every
provider that it had noted, each once. -/
inductive Returned (service : ProviderMetadataService) (s : Noted Shared (Performance Res Shared))
    (t : ℕ) : Except MetadataError Unit → Prop
  | refused (refusal : Performance Res Shared) (owner : ℕ) (hlog : log t s.history = [refusal])
      (hrefusal : refusal.event = ⟨.trySync, false⟩) (howner : refusal.after.syncing = some owner) :
      Returned service s t (.error .syncInProgress)
  | completed (taken noted ended : Performance Res Shared) (attempts : List Attempt)
      (hlog : log t s.history =
        [taken, noted] ++ (attempts.map Attempt.performed).flatten ++ [ended])
      (htaken : taken.event = ⟨.trySync, true⟩)
      (hnoted : noted.event = ⟨.indexKeys, attempts.map Attempt.key⟩)
      (hended : ended.event = ⟨.endSync, ()⟩)
      (hkeys : noted.after.indices.keys = attempts.map Attempt.key)
      (hnodup : (attempts.map Attempt.key).Nodup)
      (hattempts : ∀ attempt ∈ attempts, Attempted service noted.after s attempt) :
      Returned service s t (verdict (attempts.countP Attempt.failed))

/-- What holds of synchronizations in every state. -/
structure SyncLaw (service : ProviderMetadataService)
    (c : Config Op Res MetadataMachine.Out (Noted Shared (Performance Res Shared))) : Prop where
  /-- The flag stands for the task that has taken it and not returned it. -/
  flag : ∀ t, c.shared.state.syncing = some t ↔ synchronizing (events t c.shared.history) = true
  /-- There is at most one. -/
  alone : ∀ t t', synchronizing (events t c.shared.history) = true →
    synchronizing (events t' c.shared.history) = true → t = t'
  /-- A task that has ended, dropped or not, does not have the flag. -/
  ended : ∀ t value, c.tasks t = some (.done value) → c.shared.state.syncing ≠ some t
  returned : ∀ t result, c.tasks t = some (.done (.synced result)) →
    Returned service c.shared t result

/-- Other operations leave the flag alone. -/
theorem exec_unsynced {op : Op} {choice : Choice} {answer : Res op} (hop : FetchSpacing.Unsynced op)
    (h : exec U service t s op choice = some (answer, s')) : s'.syncing = s.syncing := by
  have hnoted : (FetchHistory.noted U service).exec t ⟨s, []⟩ op choice =
      some (answer, ⟨s', FetchHistory.note t s op choice ++ []⟩) :=
    Option.map_eq_some_iff.mpr ⟨_, h, rfl⟩
  have hsame := FetchSpacing.syncing_exec hop hnoted
  exact hsame

/-- The flag stands for the task that the log says. -/
def Flagged (s : Noted Shared (Performance Res Shared)) : Prop :=
  ∀ t, s.state.syncing = some t ↔ synchronizing (events t s.history) = true

variable {c c' : Config Op Res MetadataMachine.Out (Noted Shared (Performance Res Shared))}
variable {P : Policy Op (Noted Shared (Performance Res Shared)) Choice Entry Move}

/-- An operation of the task that performs it, and of the others. -/
theorem flagged_exec {p : Performance Res Shared} {choice : Choice}
    {history : List (Performance Res Shared)} (hflag : Flagged ⟨s, history⟩)
    (h : exec U service p.task s p.event.1 choice = some (p.event.2, p.after)) :
    Flagged ⟨p.after, p :: history⟩ := by
  obtain ⟨u, ⟨op, answer⟩, after⟩ := p
  dsimp only at h ⊢
  intro t
  have hself : synchronizing (events u (⟨u, ⟨op, answer⟩, after⟩ :: history)) =
      mark (synchronizing (events u history)) ⟨op, answer⟩ := by
    rw [events_cons_self (p := ⟨u, ⟨op, answer⟩, after⟩) rfl, synchronizing_append]
  have hother : t ≠ u → events t (⟨u, ⟨op, answer⟩, after⟩ :: history) = events t history :=
    fun hne => events_cons_of_ne (p := ⟨u, ⟨op, answer⟩, after⟩) hne.symm
  by_cases hop : FetchSpacing.Unsynced op
  · have hsame : after.syncing = s.syncing := exec_unsynced hop h
    dsimp only
    rw [hsame, hflag t]
    by_cases heq : t = u
    · subst heq
      rw [hself, mark_unsynced hop]
    · rw [hother heq]
  · cases op with
    | trySync =>
      unfold exec at h
      dsimp only at h
      cases hsyncing : s.syncing with
      | some owner =>
        rw [hsyncing] at h
        cases always_some h
        dsimp only
        rw [hflag t]
        by_cases heq : t = u
        · subst heq
          rw [hself]
          rfl
        · rw [hother heq]
      | none =>
        rw [hsyncing] at h
        cases always_some h
        dsimp only
        by_cases heq : t = u
        · subst heq
          rw [hself]
          exact ⟨fun _ => rfl, fun _ => rfl⟩
        · rw [hother heq, ← hflag t]
          dsimp only
          rw [hsyncing]
          constructor
          · intro h
            exact absurd (Option.some.inj h).symm heq
          · intro h
            cases h
    | endSync =>
      cases always_some h
      dsimp only
      by_cases heq : t = u
      · subst heq
        rw [hself]
        constructor
        · intro h
          split at h
          · cases h
          · next hne => exact absurd h hne
        · intro h
          cases h
      · rw [hother heq, ← hflag t]
        dsimp only
        split
        · next howner =>
            rw [howner]
            constructor
            · intro h
              cases h
            · intro h
              exact absurd (Option.some.inj h).symm heq
        · exact Iff.rfl
    | _ => exact absurd trivial hop

/-- The run lemma. -/
theorem flagged_of_run (hboot : boot service files pid = .ok s) (h : Logged U service s c) :
    Flagged c.shared := by
  induction h with
  | refl =>
    have hsyncing : s.syncing = none := by
      unfold boot at hboot
      cases hindices : discoverIndices files service.dataDir service.allowedRegistries with
      | error error =>
        rw [hindices] at hboot
        cases hboot
      | ok indices =>
        rw [hindices] at hboot
        cases hboot
        rfl
    intro t
    dsimp only
    rw [hsyncing]
    constructor
    · intro h
      cases h
    · intro h
      cases h
  | @tail c₁ c₂ _ hnext ih =>
    rcases logging_next (fun _ => rfl) hnext with ⟨hhistory, hsilent⟩ |
      ⟨p, choice, hhistory, hafter, hexec⟩
    · intro t
      rw [hhistory, (silent_same hsilent).2]
      exact ih t
    · have hflagged : Flagged ⟨p.after, p :: c₁.shared.history⟩ := flagged_exec ih hexec
      intro t
      rw [hhistory, ← hafter]
      exact hflagged t

end Laws

section Requests

variable {U : Type} [UrlCrate U] [SemverCrate] [JsonCrate] {service : ProviderMetadataService}

omit [SemverCrate] [JsonCrate] in
theorem unsynced_of_indexOp {path : Path} {op : Op} (h : RefreshTraces.IndexOp path op) :
    FetchSpacing.Unsynced op := by
  cases h with
  | write h => cases h <;> trivial
  | _ => trivial

theorem performs_version (key : VersionKey) :
    Performs FetchSpacing.Unsynced (versionLoader U service) key where
  entry := each_call trivial
  contains := each_call trivial
  insert _ := each_call trivial
  read := trivial
  resume := trivial
  nowEpoch := trivial
  lock _ := each_call trivial
  refreshAllowed := trivial
  recordFailure := trivial
  clearFailure := trivial
  enter := each_call trivial
  leave _ _ := each_call trivial
  refresh := by
    refine each_run_bind (each_mono RefreshTraces.each_loadIndex fun _ => unsynced_of_indexOp) ?_
    intro index
    refine each_run_bind (each_mono RefreshTraces.each_forceIndex fun _ => unsynced_of_indexOp) ?_
    intro forced
    cases listedVersion forced key.version with
    | none => trivial
    | some summary =>
      refine each_mono (FetchSpacing.each_listedRefresh key summary) fun op hop => ?_
      cases op with
      | trySync => exact hop
      | endSync => exact hop
      | _ => trivial

theorem each_getVersionEntry {hostname providerNamespace providerType version : String} :
    Each FetchSpacing.Unsynced
      (getVersionEntry U service hostname providerNamespace providerType version).run := by
  unfold getVersionEntry
  cases validateVersion version "version" with
  | error error => trivial
  | ok value =>
    cases service.providerKey hostname providerNamespace providerType with
    | error error => trivial
    | ok provider =>
      refine each_lift_bind (each_load (performs_version _)) fun result => ?_
      cases result with
      | ok entry => trivial
      | error error => cases error <;> trivial

/-- Only `sync_known` concerns the flag. -/
theorem each_request {entry : Entry} (hentry : entry ≠ .sync) :
    Each FetchSpacing.Unsynced (request U service entry) := by
  cases entry with
  | sync => exact absurd rfl hentry
  | listVersions hostname providerNamespace providerType =>
    refine each_bind ?_ fun _ => trivial
    unfold listVersions
    cases service.providerKey hostname providerNamespace providerType with
    | error error => trivial
    | ok key =>
      refine each_run_bind (each_mono RefreshTraces.each_loadIndex fun _ => unsynced_of_indexOp) ?_
      exact fun _ => trivial
  | getVersion hostname providerNamespace providerType version =>
    exact each_bind (each_run_bind each_getVersionEntry fun _ => trivial) fun _ => trivial
  | getPlatform hostname providerNamespace providerType filename =>
    refine each_bind ?_ fun _ => trivial
    unfold getPlatformByArchive
    cases ArchiveName.parse providerType filename with
    | error error => trivial
    | ok archive => exact each_run_bind each_getVersionEntry fun _ => trivial

end Requests

section Returns

variable {U : Type} [UrlCrate U] [SemverCrate] [JsonCrate]
variable {service : ProviderMetadataService} {files : Files} {pid : ℕ} {s : Shared} {t : ℕ}
variable {c : Config Op Res MetadataMachine.Out (Noted Shared (Performance Res Shared))}

omit [SemverCrate] in
/-- The rounds were performed one after the other, and end before the flag is
returned. -/
theorem syncKnown_trace {performed : List (Performance Res Shared)} {result : Except MetadataError Unit}
    (h : TaskTraces.Traced (syncKnown service).run (performed.map Performance.event) result) :
    (∃ refusal, performed = [refusal] ∧ refusal.event = ⟨.trySync, false⟩ ∧
      result = .error .syncInProgress) ∨
    ∃ taken noted ended, ∃ attempts : List Attempt,
      performed = [taken, noted] ++ (attempts.map Attempt.performed).flatten ++ [ended] ∧
      taken.event = ⟨.trySync, true⟩ ∧ noted.event = ⟨.indexKeys, attempts.map Attempt.key⟩ ∧
      ended.event = ⟨.endSync, ()⟩ ∧ (∀ attempt ∈ attempts, attempt.Traced service) ∧
      result = verdict (attempts.countP Attempt.failed) := by
  unfold syncKnown at h
  obtain ⟨taken, rest, mine, rfl, htaken, h⟩ := performed_call h
  cases mine with
  | false =>
    obtain ⟨hnil, rfl⟩ := traced_done.mp h
    rw [List.map_eq_nil_iff.mp hnil]
    exact .inl ⟨taken, rfl, htaken, rfl⟩
  | true =>
    obtain ⟨noted, rest, keys, rfl, hnoted, h⟩ := performed_call h
    obtain ⟨rounds, rest, failures, rfl, hrounds, h⟩ := performed_bind h
    obtain ⟨ended, rest, ⟨⟩, rfl, hended, h⟩ := performed_call h
    obtain ⟨attempts, rfl, rfl, htraced, hfailures⟩ := syncKeys_trace hrounds
    rw [Nat.zero_add] at hfailures
    subst hfailures
    have hrest : rest = [] ∧ result = verdict (attempts.countP Attempt.failed) := by
      unfold verdict
      split at h
      · next hnone =>
          obtain ⟨hnil, rfl⟩ := traced_done.mp h
          exact ⟨List.map_eq_nil_iff.mp hnil, (if_pos hnone).symm⟩
      · next hsome =>
          obtain ⟨hnil, rfl⟩ := traced_done.mp h
          exact ⟨List.map_eq_nil_iff.mp hnil, (if_neg hsome).symm⟩
    rw [hrest.1]
    exact .inr ⟨taken, noted, ended, attempts, by simp, htaken, hnoted, hended, htraced, hrest.2⟩

/-- What a successful round leaves behind. -/
theorem succeeded_of_traced (hboot : boot service files pid = .ok s) (h : Logged U service s c)
    {attempt : Attempt} (htraced : attempt.Traced service)
    (hperformed : ∀ p ∈ attempt.performed, p ∈ c.shared.history) {entry : IndexEntry}
    (houtcome : attempt.outcome = .ok entry) : Succeeded c.shared attempt entry := by
  unfold Attempt.Traced at htraced
  rw [houtcome] at htraced
  obtain ⟨before, inside, after, hsplit, hbody⟩ := traced_guarded htraced
  obtain ⟨front, stamp, rfl⟩ := refreshIndexTimed_ok hbody
  have hmem : ∀ event ∈ [(⟨.insertIndex attempt.key entry (.fetched stamp), ()⟩ : Sigma Res),
      ⟨.clearFailure (.index attempt.key), ()⟩], ∃ p ∈ attempt.performed, p.event = event := by
    intro event hevent
    refine List.mem_map.mp ?_
    rw [hsplit]
    exact List.mem_append_left _ (List.mem_append_right _ (List.mem_append_right _ hevent))
  obtain ⟨inserted, hinserted, hinsert⟩ := hmem _ List.mem_cons_self
  obtain ⟨cleared, hcleared, hclear⟩ := hmem _ (List.mem_cons_of_mem _ List.mem_cons_self)
  have hexecuted := executed_of_run (fun _ => rfl) h
  constructor
  · obtain ⟨before, choice, hexec⟩ := hexecuted inserted (hperformed _ hinserted)
    rw [hinsert] at hexec
    have hafter : inserted.after = before.insertIndex attempt.key entry (.fetched stamp) :=
      congrArg Prod.snd (always_some hexec)
    have hlookup : inserted.after.indices.lookup attempt.key = some entry := by
      rw [hafter]
      exact AList.lookup_insert _
    have hpublished : ⟨attempt.key, stamp, entry⟩ ∈ inserted.after.published := by
      rw [hafter]
      exact List.mem_cons_self
    have hrenewed := (logged_renewed hboot h attempt.key).now inserted (hperformed _ hinserted)
    obtain ⟨current, hcurrent, hentry⟩ := hrenewed.entry entry hlookup
    refine ⟨stamp, ⟨inserted, hinserted, hinsert, hlookup⟩, current, hcurrent, ?_⟩
    rcases hentry with hsame | ⟨later, hpublished', hlater⟩
    · exact .inl hsame
    · exact .inr ⟨later, hlater _ hpublished rfl, hpublished'⟩
  · obtain ⟨before, choice, hexec⟩ := hexecuted cleared (hperformed _ hcleared)
    rw [hclear] at hexec
    have hafter : cleared.after = before.clearFailure (.index attempt.key) :=
      congrArg Prod.snd (always_some hexec)
    have hlookup : cleared.after.indexFailures.lookup attempt.key = none := by
      rw [hafter]
      exact AList.lookup_erase _ _
    refine ⟨cleared, hcleared, hclear, hlookup, fun later earlier heq retryAt hretry => ?_⟩
    rcases logged_unfailed h heq hlookup with hnone | hfailure
    · rw [hnone] at hretry
      cases hretry
    · exact hfailure

/-- The whole of a synchronization that returned. -/
theorem returned_of_traced (hboot : boot service files pid = .ok s) (h : Logged U service s c)
    {result : Except MetadataError Unit}
    (htraced : TaskTraces.Traced (syncKnown service).run (events t c.shared.history) result) :
    Returned service c.shared t result := by
  have hexecuted := executed_of_run (fun _ => rfl) h
  have hhistory : ∀ p ∈ log t c.shared.history, p ∈ c.shared.history := fun p hp => (mem_log.mp hp).1
  rcases syncKnown_trace htraced with ⟨refusal, hlog, hrefusal, rfl⟩ |
    ⟨taken, noted, ended, attempts, hlog, htaken, hnoted, hended, hattempts, rfl⟩
  · have hmem : refusal ∈ log t c.shared.history := by
      rw [hlog]
      exact List.mem_cons_self
    obtain ⟨before, choice, hexec⟩ := hexecuted refusal (hhistory _ hmem)
    rw [hrefusal] at hexec
    have howner : ∃ owner, refusal.after.syncing = some owner := by
      change exec U service refusal.task before .trySync choice = some (false, refusal.after) at hexec
      unfold exec at hexec
      dsimp only at hexec
      cases hsyncing : before.syncing with
      | none =>
        rw [hsyncing] at hexec
        cases congrArg Prod.fst (always_some hexec)
      | some owner =>
        rw [hsyncing] at hexec
        have hafter : refusal.after = before := congrArg Prod.snd (always_some hexec)
        rw [hafter]
        exact ⟨owner, hsyncing⟩
    obtain ⟨owner, howner⟩ := howner
    exact .refused refusal owner hlog hrefusal howner
  · have hmem : ∀ p, p = noted ∨ (∃ attempt ∈ attempts, p ∈ attempt.performed) →
        p ∈ log t c.shared.history := by
      intro p hp
      rw [hlog]
      rcases hp with rfl | ⟨attempt, hattempt, hp⟩
      · simp
      · refine List.mem_append_left _ (List.mem_append_right _ ?_)
        exact List.mem_flatten.mpr ⟨attempt.performed, List.mem_map_of_mem hattempt, hp⟩
    have hkeys : noted.after.indices.keys = attempts.map Attempt.key := by
      obtain ⟨before, choice, hexec⟩ := hexecuted noted (hhistory _ (hmem noted (.inl rfl)))
      rw [hnoted] at hexec
      have hran := always_some hexec
      have hafter : noted.after = before := congrArg Prod.snd hran
      have hanswer : attempts.map Attempt.key = before.indices.keys := congrArg Prod.fst hran
      rw [hafter, hanswer]
    have hrounds : ∀ attempt ∈ attempts, (noted :: attempt.performed).Sublist (log t c.shared.history) := by
      intro attempt hattempt
      have hround : attempt.performed.Sublist (attempts.map Attempt.performed).flatten :=
        List.sublist_flatten_of_mem (List.mem_map_of_mem hattempt)
      rw [hlog]
      exact ((hround.cons_cons noted).trans (List.sublist_cons_self taken _)).trans
        (List.sublist_append_left _ _)
    refine .completed taken noted ended attempts hlog htaken hnoted hended hkeys ?_ ?_
    · rw [← hkeys]
      exact noted.after.indices.nodupKeys
    · intro attempt hattempt
      have hknown : attempt.key ∈ noted.after.indices.keys := by
        rw [hkeys]
        exact List.mem_map_of_mem hattempt
      have hperformed : ∀ p ∈ attempt.performed, p ∈ c.shared.history := fun p hp =>
        hhistory p (hmem p (.inr ⟨attempt, hattempt, hp⟩))
      have hrenewed := logged_renewed hboot h attempt.key
      have hpairwise := (hrenewed.log t).sublist (hrounds attempt hattempt)
      obtain ⟨hsince, hduring⟩ := List.pairwise_cons.mp hpairwise
      exact
        { traced := hattempts attempt hattempt
          known := hknown
          since := hsince
          during := hduring
          now := fun p hp => hrenewed.now p (hperformed p hp)
          succeeded := fun entry houtcome =>
            succeeded_of_traced hboot h (hattempts attempt hattempt) hperformed houtcome }

/-- What a request starts with. -/
theorem start_request {s' : Shared} {entry : Entry} {program : Code MetadataMachine.Out}
    (h : (machine U service).start t s entry = some (program, s')) :
    program = request U service entry := by
  have h' : (if s.unused t then some (request U service entry, s) else none) =
      some (program, s') := h
  split at h'
  · cases h'
    rfl
  · cases h'

omit [SemverCrate] [JsonCrate] in
/-- The last destructor returns the flag. -/
theorem unwind_trace {trace : List (Sigma Res)} {value : MetadataMachine.Out}
    (h : TaskTraces.Traced unwind trace value) :
    (∃ front, trace = front ++ [⟨.endSync, ()⟩]) ∧ value = .dropped := by
  obtain ⟨first, rest, ⟨⟩, rfl, -, h⟩ := traced_bind.mp h
  obtain ⟨second, rest, ⟨⟩, rfl, -, h⟩ := traced_bind.mp h
  obtain ⟨third, rest, ⟨⟩, rfl, -, h⟩ := traced_bind.mp h
  obtain ⟨fourth, rest, ⟨⟩, rfl, -, h⟩ := traced_bind.mp h
  obtain ⟨fifth, rest, ⟨⟩, rfl, -, h⟩ := traced_bind.mp h
  obtain ⟨sixth, rest, ⟨⟩, rfl, -, h⟩ := traced_bind.mp h
  obtain ⟨last, rest, ⟨⟩, rfl, hlast, h⟩ := traced_bind.mp h
  obtain ⟨rfl, rfl⟩ := traced_done.mp h
  rw [traced_op.mp hlast]
  exact ⟨⟨first ++ (second ++ (third ++ (fourth ++ (fifth ++ sixth)))), by simp⟩, rfl⟩

/-- A task that was not dropped has performed the code of a request. -/
theorem performed_request (h : Logged U service s c) {value : MetadataMachine.Out}
    (ht : c.tasks t = some (.done value)) (hvalue : value ≠ .dropped) :
    ∃ entry, TaskTraces.Traced (request U service entry) (events t c.shared.history) value := by
  have hlaw := accounted_of_run (fun _ => rfl) h
  rcases hlaw.ended ht with ⟨entry, first, s₁, s₂, hstart, htraced⟩ | ⟨before, since, -, htraced⟩
  · rw [start_request hstart] at htraced
    exact ⟨entry, htraced⟩
  · exact absurd (unwind_trace htraced).2 hvalue

section Results

variable {entry : Entry} {trace : List (Sigma Res)} {hostname providerNamespace providerType : String}

omit [SemverCrate] [JsonCrate] in
/-- The code of a request ends with its kind of result. -/
theorem traced_result {α : Type} {program : MetadataService.Task α}
    {out : Except MetadataError α → MetadataMachine.Out} {value : MetadataMachine.Out}
    (h : TaskTraces.Traced (program.run >>= fun result => .done (out result)) trace value) :
    ∃ result, value = out result ∧ TaskTraces.Traced program.run trace result := by
  obtain ⟨first, rest, result, rfl, hfirst, hdone⟩ := traced_bind.mp h
  obtain ⟨rfl, rfl⟩ := traced_done.mp hdone
  rw [List.append_nil]
  exact ⟨result, rfl, hfirst⟩

theorem traced_listed {result : Except MetadataError (List String)}
    (h : TaskTraces.Traced (request U service entry) trace
      (.listed hostname providerNamespace providerType result)) :
    TaskTraces.Traced (listVersions service hostname providerNamespace providerType).run trace
      result := by
  cases entry with
  | listVersions hostname' providerNamespace' providerType' =>
    obtain ⟨result', heq, htraced⟩ := traced_result h
    cases heq
    exact htraced
  | _ =>
    obtain ⟨result', heq, -⟩ := traced_result h
    cases heq

theorem traced_version {version : String} {result : Except MetadataError (Option VersionMetadata)}
    (h : TaskTraces.Traced (request U service entry) trace
      (.version hostname providerNamespace providerType version result)) :
    TaskTraces.Traced (getVersion U service hostname providerNamespace providerType version).run trace
      result := by
  cases entry with
  | getVersion hostname' providerNamespace' providerType' version' =>
    obtain ⟨result', heq, htraced⟩ := traced_result h
    cases heq
    exact htraced
  | _ =>
    obtain ⟨result', heq, -⟩ := traced_result h
    cases heq

theorem traced_platform {filename : String} {result : Except MetadataError (Option PlatformMetadata)}
    (h : TaskTraces.Traced (request U service entry) trace
      (.platform hostname providerNamespace providerType filename result)) :
    TaskTraces.Traced
      (getPlatformByArchive U service hostname providerNamespace providerType filename).run trace
      result := by
  cases entry with
  | getPlatform hostname' providerNamespace' providerType' filename' =>
    obtain ⟨result', heq, htraced⟩ := traced_result h
    cases heq
    exact htraced
  | _ =>
    obtain ⟨result', heq, -⟩ := traced_result h
    cases heq

theorem traced_synced {result : Except MetadataError Unit}
    (h : TaskTraces.Traced (request U service entry) trace (.synced result)) :
    TaskTraces.Traced (syncKnown service).run trace result := by
  cases entry with
  | sync =>
    obtain ⟨result', heq, htraced⟩ := traced_result h
    cases heq
    exact htraced
  | _ =>
    obtain ⟨result', heq, -⟩ := traced_result h
    cases heq

end Results

/-- The log of a task that has ended does not leave it the flag. -/
theorem ended_unsynced (h : Logged U service s c) {value : MetadataMachine.Out}
    (ht : c.tasks t = some (.done value)) : synchronizing (events t c.shared.history) = false := by
  have hlaw := accounted_of_run (fun _ => rfl) h
  rcases hlaw.ended ht with ⟨entry, first, s₁, s₂, hstart, htraced⟩ | ⟨before, since, heq, htraced⟩
  · rw [start_request hstart] at htraced
    by_cases hsync : entry = .sync
    · subst hsync
      obtain ⟨trace, rest, result, hsplit, hknown, hdone⟩ := traced_bind.mp htraced
      obtain ⟨rfl, -⟩ := traced_done.mp hdone
      rw [List.append_nil] at hsplit
      rw [← hsplit] at hknown
      unfold events at hknown ⊢
      rcases syncKnown_trace hknown with ⟨refusal, hlog, hrefusal, -⟩ |
        ⟨taken, noted, ended, attempts, hlog, -, -, hended, -, -⟩
      · rw [hlog, List.map_singleton, hrefusal]
        rfl
      · rw [hlog, List.map_append, List.map_singleton, hended]
        exact synchronizing_ended
    · exact synchronizing_unsynced (traced_each (each_request hsync) htraced)
  · obtain ⟨⟨front, rfl⟩, -⟩ := unwind_trace htraced
    rw [heq, ← List.append_assoc]
    exact synchronizing_ended

/-- A result of `sync_known` comes from its code. -/
theorem returned_of_done (hboot : boot service files pid = .ok s) (h : Logged U service s c)
    {result : Except MetadataError Unit} (ht : c.tasks t = some (.done (.synced result))) :
    Returned service c.shared t result := by
  obtain ⟨entry, htraced⟩ := performed_request h ht fun heq => by cases heq
  exact returned_of_traced hboot h (traced_synced htraced)

/-- In every run, with requests dropped anywhere: one synchronization at a time,
which returns its flag however it ends, and attempts all providers that it knew. -/
theorem sync_isolates_failures (hboot : boot service files pid = .ok s) (h : Logged U service s c) :
    SyncLaw service c := by
  have hflag := flagged_of_run hboot h
  constructor
  · exact hflag
  · intro t t' ht ht'
    have hsyncing := (hflag t).mpr ht
    rw [(hflag t').mpr ht'] at hsyncing
    exact (Option.some.inj hsyncing).symm
  · intro t value ht hsyncing
    have hended := ended_unsynced h ht
    rw [(hflag t).mp hsyncing] at hended
    cases hended
  · intro t result ht
    exact returned_of_done hboot h ht

end Returns

section Plain

open PlainLibraries PlainMetadata

/-- How a synchronization ended. -/
def synced (c : Config Op Res MetadataMachine.Out (Noted Shared (Performance Res Shared))) (t : ℕ) :
    Option (Except MetadataError Unit) :=
  match c.tasks t with
  | some (.done (.synced result)) => some result
  | _ => none

theorem task_of_synced {c : Config Op Res MetadataMachine.Out (Noted Shared (Performance Res Shared))}
    {t : ℕ} {result : Except MetadataError Unit} (h : synced c t = some result) :
    c.tasks t = some (.done (.synced result)) := by
  unfold synced at h
  split at h
  · next heq =>
      cases h
      exact heq
  · cases h

/-- A second provider of the registry. -/
def otherProvider : ProviderKey := { plainProvider with providerType := "random" }

def listOther : Entry := .listVersions otherProvider.hostname otherProvider.providerNamespace
  otherProvider.providerType

/-- Only the second provider can be fetched. -/
def partly : Op → Choice
  | .nowEpoch => .epoch 200
  | .awaitVersions key _ =>
    if key = otherProvider then .versions (.ok (plainIndex 200 ["1.0.0", "1.1.0"]).value)
    else .versions (.error (.invalidResponse "unreachable"))
  | _ => .ok

/-- Two providers are known, the fetch of one fails, and both keep their indices. -/
theorem sync_isolates_failures_plain :
    letI := plainJson
    letI := plainSemver
    ∃ c, Logged PlainUrl (plainService 0) (bootWith ∅ ∅ 7) c ∧
      c.tasks 2 = some (.done (.synced (.error (.syncFailed 1)))) ∧
      c.shared.state.indices.lookup plainProvider = some (plainIndex 100 ["1.0.0"]) ∧
      c.shared.state.indices.lookup otherProvider = some (plainIndex 200 ["1.0.0", "1.1.0"]) ∧
      SyncLaw (plainService 0) c := by
  let _ := plainJson
  let _ := plainSemver
  let M := logging (machine PlainUrl (plainService 0))
  let c₀ : Config Op Res MetadataMachine.Out (Noted Shared (Performance Res Shared)) :=
    ⟨⟨bootWith ∅ ∅ 7, []⟩, fun _ => none⟩
  let c₁ := M.follow 0 (listing 100 ["1.0.0"]) (fun _ _ => false) 100 (M.act c₀ (.start 0 listPlain))
  let c₂ := M.follow 1 (listing 100 ["1.0.0"]) (fun _ _ => false) 100 (M.act c₁ (.start 1 listOther))
  let c₃ := M.follow 2 partly (fun _ _ => false) 200 (M.act c₂ (.start 2 .sync))
  have hact : ∀ t entry c, M.Run .free c (M.act c (.start t entry)) :=
    fun t entry c => run_act M .free trivial
  have hfollow : ∀ t answer n c, M.Run .free c (M.follow t answer (fun _ _ => false) n c) :=
    fun t answer n c => run_follow M .free _ (fun _ _ _ => trivial) n c
  have hrun : M.Run .free c₀ c₃ :=
    (((((hact 0 _ _).trans (hfollow 0 _ _ _)).trans (hact 1 _ _)).trans (hfollow 1 _ _ _)).trans
      (hact 2 _ _)).trans (hfollow 2 _ _ _)
  have hend : synced c₃ 2 = some (.error (.syncFailed 1)) ∧
      c₃.shared.state.indices.lookup plainProvider = some (plainIndex 100 ["1.0.0"]) ∧
      c₃.shared.state.indices.lookup otherProvider = some (plainIndex 200 ["1.0.0", "1.1.0"]) := by
    decide +kernel
  have hboot : boot (plainService 0) ∅ 7 = .ok (bootWith ∅ ∅ 7) := rfl
  exact ⟨c₃, hrun, task_of_synced hend.1, hend.2.1, hend.2.2, sync_isolates_failures hboot hrun⟩

end Plain

end OpenTfMirror.SyncRuns
