import OpenTfMirror.MonotonicReads

/-!
# Why requests are refused for a while

A request fails with `RefreshBackoff` when a loader asks for a refresh too early.
Every retry time was set by a recorded failure, 30 seconds ahead, and failures
are recorded only where a refresh of the same index or version has just failed
with an error to back off from.
-/

namespace OpenTfMirror.RefusalCauses

open TaskProgram TaskLogic TaskHistory TaskTraces TaskLogs Fallible KeyedLocks LockSections FileNames
  FileStore Outbound Provider Metadata MetadataService IndexDiscovery MetadataMachine MetadataExec
  MetadataRestart MetadataRuns LoaderOps RetryTimers IndexRenewal SyncRuns

section Timers

variable {U : Type} [UrlCrate U] [SemverCrate] [JsonCrate]
variable {service : ProviderMetadataService} {t : ℕ} {timer : Timer} {s s' : Shared}

/-- The retry time of a timer. -/
def retryTime (s : Shared) : Timer → Option ℕ
  | .index key => s.indexFailures.lookup key
  | .version key => s.versionFailures.lookup key
  | .miss key => s.indexMissRefreshes.lookup key

/-- The timers and the clock are the same. -/
structure SameTimers (s s' : Shared) : Prop where
  index : s'.indexFailures = s.indexFailures
  version : s'.versionFailures = s.versionFailures
  miss : s'.indexMissRefreshes = s.indexMissRefreshes
  clock : s'.clock = s.clock

omit [SemverCrate] [JsonCrate] in
theorem SameTimers.retryTime (h : SameTimers s s') (timer : Timer) :
    retryTime s' timer = RefusalCauses.retryTime s timer := by
  cases timer with
  | index key => exact congrArg (AList.lookup key) h.index
  | version key => exact congrArg (AList.lookup key) h.version
  | miss key => exact congrArg (AList.lookup key) h.miss

omit [SemverCrate] [JsonCrate] in
theorem sameTimers_fileOp {issue : ℕ} {op : FileOp} {choice : Choice} {answer : Except IoError Bytes}
    (h : s.fileOp issue op choice = some (answer, s')) : SameTimers s s' := by
  by_cases hop : ∀ source target document, op ≠ .rename source target document
  · obtain ⟨files, unreported, found, rfl, -, -⟩ := MetadataFiles.fileOp_touches hop h
    exact ⟨rfl, rfl, rfl, rfl⟩
  · push Not at hop
    obtain ⟨source, target, document, rfl⟩ := hop
    rcases MetadataFiles.rename_cases h with ⟨rfl, -⟩ | ⟨bytes, -, -, rfl⟩
    · exact ⟨rfl, rfl, rfl, rfl⟩
    · exact ⟨rfl, rfl, rfl, rfl⟩

/-- Operations other than those on the timers. -/
def Timeless : Op → Prop
  | .recordFailure _ | .clearFailure _ => False
  | _ => True

theorem sameTimers_exec {op : Op} {choice : Choice} {answer : Res op} (hop : Timeless op)
    (h : exec U service t s op choice = some (answer, s')) : SameTimers s s' := by
  cases op with
  | recordFailure timer => exact hop.elim
  | clearFailure timer => exact hop.elim
  | insertIndex key entry source =>
    cases always_some h
    cases source <;> exact ⟨rfl, rfl, rfl, rfl⟩
  | insertVersion key entry source =>
    cases always_some h
    cases source <;> exact ⟨rfl, rfl, rfl, rfl⟩
  | indexLock op =>
    obtain ⟨locks, -, heq⟩ := Option.map_eq_some_iff.mp (eventually_some h)
    cases heq
    exact ⟨rfl, rfl, rfl, rfl⟩
  | versionLock op =>
    obtain ⟨locks, -, heq⟩ := Option.map_eq_some_iff.mp (eventually_some h)
    cases heq
    exact ⟨rfl, rfl, rfl, rfl⟩
  | nowEpoch =>
    cases choice with
    | epoch now =>
      cases h
      exact ⟨rfl, rfl, rfl, rfl⟩
    | _ => cases h
  | awaitVersions key stamp =>
    change s.awaitVersions t key stamp choice = some (answer, s') at h
    unfold Shared.awaitVersions at h
    cases choice with
    | versions reply =>
      cases reply with
      | error error =>
        cases h
        exact ⟨rfl, rfl, rfl, rfl⟩
      | ok versions =>
        cases h
        exact ⟨rfl, rfl, rfl, rfl⟩
    | _ => cases h
  | packages key platforms =>
    unfold exec at h
    cases choice with
    | packages answers =>
      dsimp only at h
      split at h
      · cases h
        exact ⟨rfl, rfl, rfl, rfl⟩
      · cases h
    | _ => cases h
  | file op =>
    have h' : ({ s with issued := s.issued + 1 } : Shared).fileOp s.issued op choice =
        some (answer, s') := h
    have hsame := sameTimers_fileOp h'
    exact ⟨hsame.index, hsame.version, hsame.miss, hsame.clock⟩
  | trySync =>
    unfold exec at h
    dsimp only at h
    split at h
    · cases always_some h
      exact ⟨rfl, rfl, rfl, rfl⟩
    · cases always_some h
      exact ⟨rfl, rfl, rfl, rfl⟩
  | _ =>
    cases always_some h
    exact ⟨rfl, rfl, rfl, rfl⟩

/-- Steps that are no operations leave the timers, while time may pass. -/
theorem silent_timers (h : Silent (machine U service) s s') :
    (∀ timer, retryTime s' timer = retryTime s timer) ∧ s.clock ≤ s'.clock := by
  cases h with
  | start t entry program h =>
    rw [start_same h]
    exact ⟨fun _ => rfl, le_rfl⟩
  | cancel t op h =>
    have h' : MetadataMachine.cancel t s op = some s' := h
    have hsame : SameTimers s s' := by
      unfold MetadataMachine.cancel at h'
      split at h'
      · cases h'
        exact ⟨rfl, rfl, rfl, rfl⟩
      · cases h'
        exact ⟨rfl, rfl, rfl, rfl⟩
      · cases h'
        exact ⟨rfl, rfl, rfl, rfl⟩
      · cases h'
        exact ⟨rfl, rfl, rfl, rfl⟩
      · cases h'
        exact ⟨rfl, rfl, rfl, rfl⟩
      · cases h'
        exact ⟨rfl, rfl, rfl, rfl⟩
      · cases h'
    exact ⟨hsame.retryTime, hsame.clock.ge⟩
  | move m h =>
    have h' : MetadataMachine.move s m = some s' := h
    unfold MetadataMachine.move at h'
    cases m with
    | tick duration =>
      cases h'
      refine ⟨fun timer => ?_, Nat.le_add_right _ _⟩
      cases timer <;> rfl
    | land position choice =>
      dsimp only at h'
      split at h'
      · cases h'
      · obtain ⟨⟨answer, s₁⟩, hop, rfl⟩ := Option.map_eq_some_iff.mp h'
        have hsame := sameTimers_fileOp hop
        refine ⟨fun timer => ?_, hsame.clock.ge⟩
        rw [hsame.retryTime timer]
        cases timer <;> rfl

omit [SemverCrate] [JsonCrate] in
/-- Recording sets its own timer. -/
theorem retryTime_record {retryAt : ℕ} {timer' : Timer}
    (h : retryTime (s.recordFailure timer) timer' = some retryAt) :
    (timer' = timer ∧ retryAt = s.clock + refreshBackoff) ∨ retryTime s timer' = some retryAt := by
  cases timer with
  | index key =>
    cases timer' with
    | index key' => exact (lookup_record_cases h).imp_left (And.imp_left (congrArg Timer.index))
    | version key' => exact .inr h
    | miss key' => exact .inr h
  | version key =>
    cases timer' with
    | version key' => exact (lookup_record_cases h).imp_left (And.imp_left (congrArg Timer.version))
    | index key' => exact .inr h
    | miss key' => exact .inr h
  | miss key =>
    cases timer' with
    | miss key' => exact (lookup_record_cases h).imp_left (And.imp_left (congrArg Timer.miss))
    | index key' => exact .inr h
    | version key' => exact .inr h

omit [SemverCrate] [JsonCrate] in
/-- Clearing sets none. -/
theorem retryTime_clear {retryAt : ℕ} {timer' : Timer}
    (h : retryTime (s.clearFailure timer) timer' = some retryAt) :
    retryTime s timer' = some retryAt := by
  have herase : ∀ {K : Type} [DecidableEq K] {failures : AList fun _ : K => ℕ} {key key' : K},
      (failures.erase key).lookup key' = some retryAt → failures.lookup key' = some retryAt := by
    intro K _ failures key key' hlookup
    by_cases heq : key' = key
    · rw [heq, AList.lookup_erase] at hlookup
      cases hlookup
    · rw [AList.lookup_erase_ne heq] at hlookup
      exact hlookup
  cases timer with
  | index key =>
    cases timer' with
    | index key' => exact herase h
    | version key' => exact h
    | miss key' => exact h
  | version key =>
    cases timer' with
    | version key' => exact herase h
    | index key' => exact h
    | miss key' => exact h
  | miss key =>
    cases timer' with
    | miss key' => exact herase h
    | index key' => exact h
    | version key' => exact h

end Timers

section Founded

variable {U : Type} [UrlCrate U] [SemverCrate] [JsonCrate]
variable {service : ProviderMetadataService} {files : Files} {pid : ℕ} {s : Shared}
variable {c : Config Op Res MetadataMachine.Out (Noted Shared (Performance Res Shared))}

/-- Every retry time is due to a failure that was recorded 30 seconds before it. -/
def Founded (s : Noted Shared (Performance Res Shared)) : Prop :=
  ∀ timer retryAt, retryTime s.state timer = some retryAt → ∃ failure ∈ s.history,
    failure.event.1 = .recordFailure timer ∧ retryAt = failure.after.clock + refreshBackoff

theorem founded_of_run (hboot : boot service files pid = .ok s) (h : Logged U service s c) :
    Founded c.shared := by
  induction h with
  | refl =>
    intro timer retryAt hretry
    unfold boot at hboot
    cases hindices : discoverIndices files service.dataDir service.allowedRegistries with
    | error error =>
      rw [hindices] at hboot
      cases hboot
    | ok indices =>
      rw [hindices] at hboot
      cases hboot
      cases timer <;> cases hretry
  | @tail c₁ c₂ _ hnext ih =>
    intro timer retryAt hretry
    rcases logging_next (fun _ => rfl) hnext with ⟨hhistory, hsilent⟩ |
      ⟨p, choice, hhistory, hafter, hexec⟩
    · rw [(silent_timers hsilent).1 timer] at hretry
      rw [hhistory]
      exact ih timer retryAt hretry
    · have hold : retryTime c₁.shared.state timer = some retryAt →
          ∃ failure ∈ c₂.shared.history, failure.event.1 = .recordFailure timer ∧
            retryAt = failure.after.clock + refreshBackoff := by
        intro hretry
        obtain ⟨failure, hmem, hfailure⟩ := ih timer retryAt hretry
        rw [hhistory]
        exact ⟨failure, List.mem_cons_of_mem _ hmem, hfailure⟩
      rw [← hafter] at hretry
      obtain ⟨t, ⟨op, answer⟩, after⟩ := p
      dsimp only at hexec hretry
      by_cases hop : Timeless op
      · rw [(sameTimers_exec hop hexec).retryTime timer] at hretry
        exact hold hretry
      · cases op with
        | recordFailure timer' =>
          have hstate : after = c₁.shared.state.recordFailure timer' :=
            congrArg Prod.snd (always_some hexec)
          rw [hstate] at hretry
          rcases retryTime_record hretry with ⟨rfl, rfl⟩ | hretry
          · rw [hhistory]
            refine ⟨_, List.mem_cons_self, rfl, ?_⟩
            dsimp only
            rw [hstate]
            cases timer <;> rfl
          · exact hold hretry
        | clearFailure timer' =>
          have hstate : after = c₁.shared.state.clearFailure timer' :=
            congrArg Prod.snd (always_some hexec)
          rw [hstate] at hretry
          exact hold (retryTime_clear hretry)
        | _ => exact absurd trivial hop

/-- The clock does not go back. -/
theorem clock_ordered (h : Logged U service s c) :
    Ordered (fun before after => before.clock ≤ after.clock) c.shared := by
  refine ordered_of_run (fun _ => rfl) (fun s => le_refl s.clock) (fun _ _ _ h h' => h.trans h') ?_ h
  intro c₁ c₂ _ hnext
  rcases logging_next (fun _ => rfl) hnext with ⟨-, hsilent⟩ | ⟨p, choice, -, hafter, hexec⟩
  · exact (silent_timers hsilent).2
  · rw [← hafter]
    obtain ⟨t, ⟨op, answer⟩, after⟩ := p
    dsimp only at hexec ⊢
    by_cases hop : Timeless op
    · exact (sameTimers_exec hop hexec).clock.ge
    · cases op with
      | recordFailure timer =>
        have hstate : after = c₁.shared.state.recordFailure timer :=
          congrArg Prod.snd (always_some hexec)
        rw [hstate]
        cases timer <;> exact le_rfl
      | clearFailure timer =>
        have hstate : after = c₁.shared.state.clearFailure timer :=
          congrArg Prod.snd (always_some hexec)
        rw [hstate]
        cases timer <;> exact le_rfl
      | _ => exact absurd trivial hop

/-- Who is told not to refresh yet comes within 30 seconds after a recorded failure. -/
theorem refused_founded (hboot : boot service files pid = .ok s) (h : Logged U service s c)
    {later earlier : List (Performance Res Shared)} {asked : Performance Res Shared}
    (hhistory : c.shared.history = later ++ asked :: earlier) {timer : Timer} {site : Site}
    (hasked : asked.event = ⟨.refreshAllowed timer site, false⟩) :
    ∃ failure ∈ earlier, failure.event.1 = .recordFailure timer ∧
      failure.after.clock ≤ asked.after.clock ∧
      asked.after.clock < failure.after.clock + refreshBackoff := by
  have hmem : asked ∈ c.shared.history := by
    rw [hhistory]
    exact List.mem_append_right _ List.mem_cons_self
  obtain ⟨before, choice, hexec⟩ := executed_of_run (fun _ => rfl) h asked hmem
  rw [hasked] at hexec
  have hran := always_some hexec
  have hafter : asked.after = before := congrArg Prod.snd hran
  have hrefused : false = before.refreshAllowed timer := congrArg Prod.fst hran
  obtain ⟨retryAt, hretry, hlate⟩ :
      ∃ retryAt, retryTime asked.after timer = some retryAt ∧ asked.after.clock < retryAt := by
    rw [hafter]
    have hlookup : ∀ {K : Type} [DecidableEq K] {failures : AList fun _ : K => ℕ} {key : K},
        false = refreshAllowedAt failures key before.clock refreshBackoff →
        ∃ retryAt, failures.lookup key = some retryAt ∧ before.clock < retryAt := by
      intro K _ failures key hallowed
      unfold refreshAllowedAt at hallowed
      cases hfound : failures.lookup key with
      | none =>
        rw [hfound] at hallowed
        cases hallowed
      | some retryAt =>
        rw [hfound] at hallowed
        refine ⟨retryAt, rfl, ?_⟩
        have hnot : ¬(retryAt ≤ before.clock ∨ refreshBackoff = 0) := by
          simpa using hallowed.symm
        omega
    cases timer with
    | index key => exact hlookup hrefused
    | version key => exact hlookup hrefused
    | miss key => exact hlookup hrefused
  have hfounded : Founded ⟨asked.after, asked :: earlier⟩ :=
    at_moment (fun _ => rfl) (fun c hrun => founded_of_run hboot hrun) h later asked earlier hhistory
  obtain ⟨failure, hfailure, hrecorded, rfl⟩ := hfounded timer retryAt hretry
  have hclock : Ordered (fun before after => before.clock ≤ after.clock)
      (⟨asked.after, asked :: earlier⟩ : Noted Shared (Performance Res Shared)) :=
    at_moment (fun _ => rfl) (fun c hrun => clock_ordered hrun) h later asked earlier hhistory
  rcases List.mem_cons.mp hfailure with rfl | hearlier
  · rw [hasked] at hrecorded
    cases hrecorded
  · exact ⟨failure, hearlier, hrecorded, hclock.now failure hfailure, hlate⟩

end Founded

section Attempts

variable {U : Type} [UrlCrate U] [SemverCrate] [JsonCrate] {service : ProviderMetadataService}
variable {α β : Type} {a b trace : List (Sigma Res)}

variable (U service) in
/-- A refresh has failed with an error to back off from. A forced refresh is
noted before it is tried. -/
def FailedRefresh : Timer → List (Sigma Res) → Prop
  | .index key, attempt => ∃ error, Traced (refreshIndexUnlocked service key).run attempt (.error error) ∧
      shouldBackoff error = true
  | .version key, attempt => ∃ error, Traced (refreshVersion U service key).run attempt (.error error) ∧
      shouldBackoff error = true
  | .miss _, _ => True

variable (U service) in
/-- Failures are recorded right after a refresh has failed. -/
def Justified (trace : List (Sigma Res)) : Prop :=
  ∀ timer answer front rest, trace = front ++ ⟨.recordFailure timer, answer⟩ :: rest →
    ∃ start attempt, front = start ++ attempt ∧ FailedRefresh U service timer attempt

theorem justified_append (ha : Justified U service a) (hb : Justified U service b) :
    Justified U service (a ++ b) := by
  intro timer answer front rest heq
  rcases List.append_eq_append_iff.mp heq.symm with ⟨inner, rfl, hb'⟩ | ⟨inner, rfl, hb'⟩
  · cases inner with
    | nil =>
      obtain ⟨start, attempt, hfront, hfailed⟩ := hb timer answer [] rest (by simpa using hb'.symm)
      obtain ⟨rfl, rfl⟩ := List.append_eq_nil_iff.mp hfront.symm
      exact ⟨front, [], (List.append_nil _).symm, hfailed⟩
    | cons event inner =>
      obtain ⟨rfl, -⟩ := List.cons.inj hb'
      exact ha timer answer front inner rfl
  · obtain ⟨start, attempt, rfl, hfailed⟩ := hb timer answer inner rest hb'
    exact ⟨a ++ start, attempt, (List.append_assoc _ _ _).symm, hfailed⟩

theorem looksBack_justified : LooksBack (Justified U service) where
  left a b h := by
    intro timer answer front rest heq
    refine h timer answer front (rest ++ b) ?_
    rw [heq, List.append_assoc]
    rfl
  append _ _ ha hb := justified_append ha hb

/-- Operations that record no failure. -/
def Unrecorded : Op → Prop
  | .recordFailure _ => False
  | _ => True

theorem justified_unrecorded (h : ∀ event ∈ trace, Unrecorded event.1) : Justified U service trace := by
  intro timer answer front rest heq
  have hrecord := h ⟨.recordFailure timer, answer⟩ (by rw [heq]; simp)
  exact hrecord.elim

variable (U service) in
/-- All that the program may perform is justified. -/
def Just (program : Code α) : Prop :=
  ∀ trace value, Traced program trace value → Justified U service trace

theorem just_each {program : Code α} (h : Each Unrecorded program) : Just U service program :=
  fun _ _ htraced => justified_unrecorded (traced_each h htraced)

theorem just_bind {program : Code α} {next : α → Code β} (h : Just U service program)
    (hnext : ∀ value, Just U service (next value)) : Just U service (program >>= next) := by
  intro trace value htraced
  obtain ⟨first, rest, middle, rfl, hfirst, hrest⟩ := traced_bind.mp htraced
  exact justified_append (h first middle hfirst) (hnext middle rest value hrest)

theorem just_lift_bind {program : Code α} {next : α → MetadataService.Task β}
    (h : Just U service program) (hnext : ∀ value, Just U service (next value).run) :
    Just U service (lift program >>= next).run := by
  rw [Fallible.run_lift_bind]
  exact just_bind h hnext

theorem just_run_bind {program : MetadataService.Task α} {next : α → MetadataService.Task β}
    (h : Just U service program.run) (hnext : ∀ value, Just U service (next value).run) :
    Just U service (program >>= next).run := by
  rw [Fallible.run_bind]
  refine just_bind h fun result => ?_
  cases result with
  | ok value => exact hnext value
  | error error => exact just_each trivial

theorem just_guarded {K : Type} {embed : LockOp K → Code Unit} {key : K} {body : Code α}
    (hembed : ∀ op, Each Unrecorded (embed op)) (h : Just U service body) :
    Just U service (guarded embed key body) := by
  unfold guarded
  refine just_bind (just_each (hembed _)) fun _ => just_bind (just_each (hembed _)) fun _ => ?_
  refine just_bind h fun result => ?_
  refine just_bind (just_each (hembed _)) fun _ => just_bind (just_each (hembed _)) fun _ => ?_
  exact just_bind (just_each (hembed _)) fun _ => just_each trivial

/-- A refresh, its error recorded when it is one to back off from, and what follows. -/
theorem just_recorded {timer : Timer} {refresh : MetadataService.Task α}
    {next : Except MetadataError α → MetadataService.Task β} (hrefresh : Just U service refresh.run)
    (hfailed : ∀ trace error, Traced refresh.run trace (.error error) → shouldBackoff error = true →
      FailedRefresh U service timer trace)
    (hok : ∀ value, Just U service (next (.ok value)).run)
    (herror : ∀ error, shouldBackoff error = true → ∃ rest : MetadataService.Task β,
      next (.error error) = (do lift (recordFailure timer); rest) ∧ Just U service rest.run)
    (hother : ∀ error, shouldBackoff error = false → Just U service (next (.error error)).run) :
    Just U service (lift refresh.run >>= next).run := by
  intro trace value htraced
  obtain ⟨attempt, rest, result, rfl, hattempt, hrest⟩ := traced_lift_bind.mp htraced
  have hjust := hrefresh attempt result hattempt
  cases result with
  | ok fetched => exact justified_append hjust (hok fetched rest value hrest)
  | error error =>
    cases hbackoff : shouldBackoff error with
    | false => exact justified_append hjust (hother error hbackoff rest value hrest)
    | true =>
      obtain ⟨continuation, heq, hcontinuation⟩ := herror error hbackoff
      rw [heq] at hrest
      obtain ⟨record, tail, ⟨⟩, rfl, hrecord, htail⟩ := traced_lift_bind.mp hrest
      rw [traced_op.mp hrecord]
      have hrecorded : Justified U service (attempt ++ [⟨.recordFailure timer, ()⟩]) := by
        intro timer' answer front after hsplit
        rcases List.append_eq_append_iff.mp hsplit with ⟨inner, rfl, hinner⟩ | ⟨inner, rfl, hinner⟩
        · cases inner with
          | nil =>
            obtain ⟨heq, -⟩ := List.cons.inj hinner
            cases heq
            exact ⟨[], attempt, by simp, hfailed attempt error hattempt hbackoff⟩
          | cons event inner =>
            obtain ⟨-, hnil⟩ := List.cons.inj hinner
            simp at hnil
        · cases inner with
          | nil =>
            obtain ⟨heq, -⟩ := List.cons.inj hinner
            cases heq
            exact ⟨[], front, by simp, by simpa using hfailed _ error hattempt hbackoff⟩
          | cons event inner =>
            obtain ⟨rfl, -⟩ := List.cons.inj hinner
            exact hjust timer' answer front inner rfl
      rw [← List.append_assoc]
      exact justified_append hrecorded (hcontinuation tail value htail)

end Attempts

section Programs

variable {U : Type} [UrlCrate U] [SemverCrate] [JsonCrate] {service : ProviderMetadataService}

omit [UrlCrate U] [SemverCrate] [JsonCrate] in
theorem writes_unrecorded {path : Path} : Writes Unrecorded path := by
  constructor <;> intros <;> trivial

omit [UrlCrate U] [SemverCrate] in
theorem each_fetch_unrecorded {key : ProviderKey} :
    Each Unrecorded (refreshIndexUnlocked service key).run :=
  each_refreshIndexUnlocked trivial (fun _ => trivial) trivial writes_unrecorded fun _ _ => trivial

/-- A timed refresh records only its own failure. -/
theorem just_refreshIndexTimed {key : ProviderKey} :
    Just U service (refreshIndexTimed service key).run := by
  have hfailed : ∀ trace error, Traced (refreshIndexUnlocked service key).run trace (.error error) →
      shouldBackoff error = true → FailedRefresh U service (.index key) trace :=
    fun _ error h hbackoff => ⟨error, h, hbackoff⟩
  unfold refreshIndexTimed
  refine just_recorded (just_each each_fetch_unrecorded) hfailed
    (fun entry => just_each (each_lift_bind (each_call trivial) fun _ => trivial))
    (fun error hbackoff => ⟨throw error, if_pos hbackoff, just_each trivial⟩)
    (fun error hbackoff => ?_)
  dsimp only
  rw [hbackoff]
  exact just_each trivial

variable {K α : Type} {L : Loader K α} {key : K}

/-- A loader records only the failures of its own refresh. -/
theorem just_load (hreads : Reads Unrecorded L key) (hlock : ∀ op, Each Unrecorded (L.lock op))
    (henter : Each Unrecorded (L.enter key))
    (hleave : ∀ presence result, Each Unrecorded (L.leave key presence result))
    (hrefresh : Just U service (L.refresh key).run)
    (hfailed : ∀ trace error, Traced (L.refresh key).run trace (.error error) →
      shouldBackoff error = true → FailedRefresh U service (L.timer key) trace) :
    Just U service (L.load service key).run := by
  have hfresh : Each Unrecorded (L.freshEntry service key) := each_freshEntry hreads
  unfold Loader.load
  refine just_bind (just_each henter) fun presence => ?_
  refine just_bind ?_ fun result => just_bind (just_each (hleave _ _)) fun _ => just_each trivial
  refine just_bind (just_each hfresh) fun fresh => ?_
  cases fresh with
  | some entry => exact just_each trivial
  | none =>
    refine just_guarded hlock ?_
    unfold Loader.loadLocked
    refine just_lift_bind (just_each hfresh) fun fresh => ?_
    cases fresh with
    | some entry => exact just_each trivial
    | none =>
      refine just_run_bind (just_each (each_readPersisted hreads)) fun _ => ?_
      refine just_lift_bind (just_each hfresh) fun fresh => ?_
      cases fresh with
      | some entry => exact just_each trivial
      | none =>
        dsimp only
        unfold Loader.refreshOrCached
        refine just_lift_bind (just_each hreads.entry) fun cached => ?_
        refine just_lift_bind (just_each (each_call trivial)) fun allowed => ?_
        cases allowed with
        | false => cases cached <;> exact just_each trivial
        | true =>
          refine just_recorded hrefresh hfailed
            (fun entry => just_each (each_lift_bind (each_call trivial) fun _ => trivial))
            (fun error hbackoff => ⟨L.fallback key cached error, if_pos hbackoff,
              just_each (each_fallback hreads cached error)⟩) (fun error hbackoff => ?_)
          dsimp only
          rw [hbackoff]
          exact just_each (each_fallback hreads cached error)

end Programs

section Requests

variable {U : Type} [UrlCrate U] [SemverCrate] [JsonCrate] {service : ProviderMetadataService}

theorem just_loadIndex {key : ProviderKey} : Just U service (loadIndex service key).run :=
  just_load ⟨each_call trivial, each_call trivial, fun _ => each_call trivial, trivial, trivial, trivial⟩
    (fun _ => each_call trivial) (each_call trivial) (fun _ _ => each_call trivial)
    (just_each each_fetch_unrecorded) fun _ error h hbackoff => ⟨error, h, hbackoff⟩

theorem just_whenMissing {key : VersionKey} {index : IndexEntry}
    {force : MetadataService.Task IndexEntry} (h : Just U service force.run) :
    Just U service (whenMissing key index force).run := by
  unfold whenMissing
  cases listedVersion index key.version with
  | some summary => exact just_each trivial
  | none =>
    refine just_lift_bind (just_each (each_call trivial)) fun allowed => ?_
    cases allowed with
    | false => exact just_each trivial
    | true =>
      refine just_lift_bind (just_each (each_call trivial)) fun allowed => ?_
      cases allowed with
      | false => exact just_each trivial
      | true => exact h

/-- A forced refresh is noted before it is tried. -/
theorem just_recordMiss {key : ProviderKey} : Just U service (recordFailure (.miss key)) := by
  intro trace value h timer answer front rest heq
  have htrace : trace = [⟨.recordFailure (.miss key), value⟩] := traced_op.mp h
  rw [htrace] at heq
  cases front with
  | nil =>
    obtain ⟨heq, -⟩ := List.cons.inj heq
    cases heq
    exact ⟨[], [], rfl, trivial⟩
  | cons event front =>
    obtain ⟨-, hnil⟩ := List.cons.inj heq
    simp at hnil

theorem just_forceIndex {key : VersionKey} {index : IndexEntry} :
    Just U service (forceIndex service key index).run := by
  unfold forceIndex
  refine just_whenMissing (just_guarded (fun _ => each_call trivial) ?_)
  unfold forceIndexLocked
  refine just_lift_bind (just_each (each_call trivial)) fun current => just_whenMissing ?_
  exact just_lift_bind just_recordMiss fun _ => just_refreshIndexTimed

theorem just_refreshVersion {key : VersionKey} : Just U service (refreshVersion U service key).run := by
  unfold refreshVersion
  refine just_run_bind just_loadIndex fun index => just_run_bind just_forceIndex fun forced => ?_
  cases listedVersion forced key.version with
  | none => exact just_each trivial
  | some summary =>
    exact just_each (each_refreshListed trivial (fun _ => trivial) trivial writes_unrecorded
      fun _ _ => trivial)

theorem just_loadVersion {key : VersionKey} : Just U service (loadVersion U service key).run :=
  just_load ⟨each_call trivial, each_call trivial, fun _ => each_call trivial, trivial, trivial, trivial⟩
    (fun _ => each_call trivial) (each_call trivial) (fun _ _ => each_call trivial)
    just_refreshVersion fun _ error h hbackoff => ⟨error, h, hbackoff⟩

theorem just_getVersionEntry {hostname providerNamespace providerType version : String} :
    Just U service
      (getVersionEntry U service hostname providerNamespace providerType version).run := by
  unfold getVersionEntry
  cases validateVersion version "version" with
  | error error => exact just_each trivial
  | ok value =>
    cases service.providerKey hostname providerNamespace providerType with
    | error error => exact just_each trivial
    | ok provider =>
      refine just_lift_bind just_loadVersion fun result => ?_
      cases result with
      | ok entry => exact just_each trivial
      | error error => cases error <;> exact just_each trivial

theorem just_syncKeys {keys : List ProviderKey} {failures : ℕ} :
    Just U service (syncKeys service keys failures) := by
  induction keys generalizing failures with
  | nil => exact just_each trivial
  | cons key rest ih =>
    unfold syncKeys
    refine just_bind (just_guarded (fun _ => each_call trivial) just_refreshIndexTimed) fun result => ?_
    cases result with
    | error error => exact ih
    | ok entry => exact ih

/-- All requests record only failures of their refreshes. -/
theorem just_request {entry : Entry} : Just U service (request U service entry) := by
  cases entry with
  | listVersions hostname providerNamespace providerType =>
    refine just_bind ?_ fun _ => just_each trivial
    unfold listVersions
    cases service.providerKey hostname providerNamespace providerType with
    | error error => exact just_each trivial
    | ok key => exact just_run_bind just_loadIndex fun _ => just_each trivial
  | getVersion hostname providerNamespace providerType version =>
    exact just_bind (just_run_bind just_getVersionEntry fun _ => just_each trivial) fun _ =>
      just_each trivial
  | getPlatform hostname providerNamespace providerType filename =>
    refine just_bind ?_ fun _ => just_each trivial
    unfold getPlatformByArchive
    cases ArchiveName.parse providerType filename with
    | error error => exact just_each trivial
    | ok archive => exact just_run_bind just_getVersionEntry fun _ => just_each trivial
  | sync =>
    refine just_bind ?_ fun _ => just_each trivial
    unfold syncKnown
    refine just_lift_bind (just_each (each_call trivial)) fun mine => ?_
    cases mine with
    | false => exact just_each trivial
    | true =>
      refine just_lift_bind (just_each (each_call trivial)) fun keys => ?_
      refine just_lift_bind just_syncKeys fun failures => ?_
      refine just_lift_bind (just_each (each_call trivial)) fun _ => ?_
      split <;> exact just_each trivial

end Requests

section Errors

variable {U : Type} [UrlCrate U] [SemverCrate] [JsonCrate] {service : ProviderMetadataService}
variable {trace : List (Sigma Res)}

omit [UrlCrate U] [SemverCrate] [JsonCrate] in
theorem mapRegistry_tried {error : RegistryError} : mapRegistry error ≠ .refreshBackoff := by
  cases error <;> exact fun h => by cases h

omit [UrlCrate U] [SemverCrate] [JsonCrate] in
theorem namesField_tried {check : Except MetadataError Unit} (h : NamesField check) :
    check ≠ .error .refreshBackoff := by
  intro heq
  obtain ⟨field, hfield⟩ := h _ heq
  cases hfield

omit [UrlCrate U] [SemverCrate] in
theorem writeJsonAtomic_tried {path : Path} {document : Document} :
    ¬ Traced (writeJsonAtomic path document).run trace (.error .refreshBackoff) := by
  intro h
  rcases RefreshTraces.writeJsonAtomic_error h with ⟨e, heq⟩ | ⟨message, heq⟩
  · cases heq
  · cases heq

omit [UrlCrate U] [SemverCrate] in
/-- A fetch is never refused by the timers. -/
theorem refreshIndexUnlocked_tried {key : ProviderKey} :
    ¬ Traced (refreshIndexUnlocked service key).run trace (.error .refreshBackoff) := by
  intro h
  unfold refreshIndexUnlocked at h
  obtain ⟨_, _, stamp, _, _, h⟩ := traced_lift_bind.mp h
  obtain ⟨_, _, answer, _, _, h⟩ := traced_lift_bind.mp h
  cases answer with
  | error error =>
    obtain ⟨-, heq⟩ := traced_done.mp h
    exact mapRegistry_tried (Except.error.inj heq).symm
  | ok versions =>
    dsimp only at h
    cases hvalid : validateRegistryVersions versions with
    | error error =>
      rw [hvalid] at h
      obtain ⟨-, heq⟩ := traced_done.mp h
      cases heq
      exact namesField_tried (validateRegistryVersions_namesField versions) hvalid
    | ok value =>
      rw [hvalid] at h
      obtain ⟨_, _, now, _, _, h⟩ := traced_lift_bind.mp h
      rcases traced_run_bind h with ⟨_, _, _, _, _, h⟩ | ⟨error, heq, hwrite⟩
      · obtain ⟨_, _, _, _, _, h⟩ := traced_lift_bind.mp h
        obtain ⟨-, heq⟩ := traced_done.mp h
        cases heq
      · cases heq
        exact writeJsonAtomic_tried hwrite

omit [UrlCrate U] [SemverCrate] in
theorem refreshIndexTimed_tried {key : ProviderKey} :
    ¬ Traced (refreshIndexTimed service key).run trace (.error .refreshBackoff) := by
  intro h
  unfold refreshIndexTimed at h
  obtain ⟨fetch, _, result, _, hfetch, h⟩ := traced_lift_bind.mp h
  cases result with
  | ok entry =>
    obtain ⟨_, _, _, _, _, h⟩ := traced_lift_bind.mp h
    obtain ⟨-, heq⟩ := traced_done.mp h
    cases heq
  | error error =>
    have herror : error = .refreshBackoff := by
      dsimp only at h
      split at h
      · obtain ⟨_, _, _, _, _, h⟩ := traced_lift_bind.mp h
        exact (Except.error.inj (traced_done.mp h).2).symm
      · exact (Except.error.inj (traced_done.mp h).2).symm
    subst herror
    exact refreshIndexUnlocked_tried hfetch

omit [UrlCrate U] [SemverCrate] [JsonCrate] in
theorem whenMissing_tried {key : VersionKey} {index : IndexEntry}
    {force : MetadataService.Task IndexEntry}
    (hforce : ∀ trace, ¬ Traced force.run trace (.error .refreshBackoff)) :
    ¬ Traced (whenMissing key index force).run trace (.error .refreshBackoff) := by
  intro h
  unfold whenMissing at h
  cases hlisted : listedVersion index key.version with
  | some summary =>
    rw [hlisted] at h
    obtain ⟨-, heq⟩ := traced_done.mp h
    cases heq
  | none =>
    rw [hlisted] at h
    obtain ⟨_, _, missed, _, _, h⟩ := traced_lift_bind.mp h
    cases missed with
    | false =>
      obtain ⟨-, heq⟩ := traced_done.mp h
      cases heq
    | true =>
      obtain ⟨_, _, allowed, _, _, h⟩ := traced_lift_bind.mp h
      cases allowed with
      | false =>
        obtain ⟨-, heq⟩ := traced_done.mp h
        cases heq
      | true => exact hforce _ h

omit [UrlCrate U] [SemverCrate] in
theorem forceIndex_tried {key : VersionKey} {index : IndexEntry} :
    ¬ Traced (forceIndex service key index).run trace (.error .refreshBackoff) := by
  unfold forceIndex
  refine whenMissing_tried fun trace h => ?_
  obtain ⟨_, inside, _, _, hinside⟩ := traced_guarded h
  unfold forceIndexLocked at hinside
  obtain ⟨_, _, current, _, _, hinside⟩ := traced_lift_bind.mp hinside
  refine whenMissing_tried (fun trace h => ?_) hinside
  obtain ⟨_, _, _, _, _, h⟩ := traced_lift_bind.mp h
  exact refreshIndexTimed_tried h

omit [JsonCrate] in
theorem mergeVersion_tried {key : VersionKey} {cached : Option VersionEntry}
    {platforms : List RegistryPlatform}
    {answers : List (ℕ × Except RegistryError PlatformMetadata)} :
    mergeVersion key cached platforms (packageResults U key platforms answers) ≠
      .error .refreshBackoff := by
  intro h
  have hfirst : firstError (packageResults U key platforms answers) = some .refreshBackoff := by
    unfold mergeVersion at h
    dsimp only at h
    split at h
    · next heq =>
        cases h
        exact heq
    · cases h
  have hmem := VersionMerge.firstError_mem hfirst
  unfold packageResults at hmem
  obtain ⟨i, hi, heq⟩ := List.mem_iff_getElem.mp hmem
  have hplatform : i < platforms.length := by
    rw [List.length_zipWith] at hi
    omega
  rw [List.getElem_zipWith] at heq
  unfold acceptPackage at heq
  split at heq
  · exact mapRegistry_tried (Except.error.inj heq)
  · next package _ =>
      cases hvalid : validatePackage U key platforms[i] package with
      | ok value =>
        rw [hvalid] at heq
        cases heq
      | error error =>
        rw [hvalid] at heq
        cases heq
        exact namesField_tried (validatePackage_namesField U key _ package) hvalid

theorem refreshListed_tried {key : VersionKey} {summary : RegistryVersion} :
    ¬ Traced (refreshListed U service key summary).run trace (.error .refreshBackoff) := by
  intro h
  unfold refreshListed at h
  obtain ⟨_, _, cached, _, _, h⟩ := traced_lift_bind.mp h
  obtain ⟨_, _, answers, _, _, h⟩ := traced_lift_bind.mp h
  cases hmerged : mergeVersion key cached summary.platforms
      (packageResults U key summary.platforms answers) with
  | error error =>
    rw [hmerged] at h
    obtain ⟨-, heq⟩ := traced_done.mp h
    cases heq
    exact mergeVersion_tried hmerged
  | ok merged =>
    rw [hmerged] at h
    obtain ⟨_, _, now, _, _, h⟩ := traced_lift_bind.mp h
    rcases traced_run_bind h with ⟨_, _, _, _, _, h⟩ | ⟨error, heq, hwrite⟩
    · obtain ⟨_, _, _, _, _, h⟩ := traced_lift_bind.mp h
      obtain ⟨-, heq⟩ := traced_done.mp h
      cases heq
    · cases heq
      exact writeJsonAtomic_tried hwrite

end Errors

section Refusals

variable {U : Type} [UrlCrate U] [SemverCrate] [JsonCrate] {service : ProviderMetadataService}
variable {K α : Type} {L : Loader K α} {key : K} {trace : List (Sigma Res)}

/-- A loader was told not to refresh yet. -/
def Told (timer : Timer) (trace : List (Sigma Res)) : Prop :=
  ⟨.refreshAllowed timer .load, false⟩ ∈ trace

omit [UrlCrate U] [SemverCrate] [JsonCrate] in
theorem readPersisted_tried : ¬ Traced (L.readPersisted key).run trace (.error .refreshBackoff) := by
  intro h
  unfold Loader.readPersisted at h
  obtain ⟨_, _, cached, _, _, h⟩ := traced_lift_bind.mp h
  cases cached with
  | true =>
    obtain ⟨-, heq⟩ := traced_done.mp h
    cases heq
  | false =>
    rcases traced_run_bind h with ⟨_, _, found, _, _, h⟩ | ⟨error, heq, hread⟩
    · cases found with
      | none =>
        obtain ⟨-, heq⟩ := traced_done.mp h
        cases heq
      | some entry =>
        dsimp only at h
        cases hvalid : L.validate key entry.value with
        | error error =>
          rw [hvalid] at h
          obtain ⟨-, heq⟩ := traced_done.mp h
          cases heq
        | ok value =>
          rw [hvalid] at h
          obtain ⟨_, _, _, _, _, h⟩ := traced_bind.mp h
          obtain ⟨-, heq⟩ := traced_done.mp h
          cases heq
    · cases heq
      unfold readJson at hread
      obtain ⟨_, _, answer, _, _, hread⟩ := traced_lift_bind.mp hread
      cases answer with
      | ok bytes =>
        dsimp only at hread
        cases hdecode : L.decode bytes with
        | ok value =>
          rw [hdecode] at hread
          obtain ⟨-, heq⟩ := traced_done.mp hread
          cases heq
        | error message =>
          rw [hdecode] at hread
          obtain ⟨-, heq⟩ := traced_done.mp hread
          cases heq
      | error error =>
        cases error with
        | notFound =>
          obtain ⟨-, heq⟩ := traced_done.mp hread
          cases heq
        | other message =>
          obtain ⟨-, heq⟩ := traced_done.mp hread
          cases heq

omit [UrlCrate U] [SemverCrate] [JsonCrate] in
/-- A loader that fails so was told so, or its refresh was. -/
theorem told_load (h : Traced (L.load service key).run trace (.error .refreshBackoff)) :
    Told (L.timer key) trace ∨ ∃ part, (∀ event ∈ part, event ∈ trace) ∧
      Traced (L.refresh key).run part (.error .refreshBackoff) := by
  unfold Loader.load at h
  obtain ⟨enter, rest, presence, rfl, -, h⟩ := traced_bind.mp h
  obtain ⟨body, rest, result, rfl, hbody, h⟩ := traced_bind.mp h
  obtain ⟨leave, rest, ⟨⟩, rfl, -, h⟩ := traced_bind.mp h
  obtain ⟨-, rfl⟩ := traced_done.mp h
  obtain ⟨first, rest, fresh, rfl, -, hbody⟩ := traced_bind.mp hbody
  cases fresh with
  | some entry =>
    obtain ⟨-, heq⟩ := traced_done.mp hbody
    cases heq
  | none =>
    obtain ⟨before, inside, after, rfl, hinside⟩ := traced_guarded hbody
    unfold Loader.loadLocked at hinside
    obtain ⟨look, rest, fresh, rfl, -, hinside⟩ := traced_lift_bind.mp hinside
    cases fresh with
    | some entry =>
      obtain ⟨-, heq⟩ := traced_done.mp hinside
      cases heq
    | none =>
      rcases traced_run_bind hinside with ⟨read, rest, ⟨⟩, rfl, -, hinside⟩ | ⟨error, heq, hread⟩
      · obtain ⟨again, rest, fresh, rfl, -, hinside⟩ := traced_lift_bind.mp hinside
        cases fresh with
        | some entry =>
          obtain ⟨-, heq⟩ := traced_done.mp hinside
          cases heq
        | none =>
          dsimp only at hinside
          unfold Loader.refreshOrCached at hinside
          obtain ⟨cache, rest, cached, rfl, -, hinside⟩ := traced_lift_bind.mp hinside
          obtain ⟨ask, rest, allowed, rfl, hask, hinside⟩ := traced_lift_bind.mp hinside
          rw [traced_op.mp hask]
          cases allowed with
          | false =>
            left
            unfold Told
            simp
          | true =>
            obtain ⟨fetch, rest, result, rfl, hfetch, hinside⟩ := traced_lift_bind.mp hinside
            right
            cases result with
            | ok entry =>
              obtain ⟨_, _, _, _, _, hinside⟩ := traced_lift_bind.mp hinside
              obtain ⟨-, heq⟩ := traced_done.mp hinside
              cases heq
            | error error =>
              have hfallback : ∀ {trace : List (Sigma Res)},
                  Traced (L.fallback key cached error).run trace (.error .refreshBackoff) →
                  error = .refreshBackoff := by
                intro trace h
                unfold Loader.fallback at h
                cases cached with
                | some entry =>
                  obtain ⟨-, heq⟩ := traced_done.mp h
                  cases heq
                | none =>
                  obtain ⟨_, _, found, _, _, h⟩ := traced_lift_bind.mp h
                  cases found with
                  | some entry =>
                    obtain ⟨-, heq⟩ := traced_done.mp h
                    cases heq
                  | none => exact (Except.error.inj (traced_done.mp h).2).symm
              have herror : error = .refreshBackoff := by
                dsimp only at hinside
                split at hinside
                · obtain ⟨_, _, _, _, _, hinside⟩ := traced_lift_bind.mp hinside
                  exact hfallback hinside
                · exact hfallback hinside
              subst herror
              refine ⟨fetch, fun event hevent => ?_, hfetch⟩
              simp [hevent]
      · cases heq
        exact absurd hread readPersisted_tried

omit [UrlCrate U] [SemverCrate] in
theorem told_loadIndex {provider : ProviderKey}
    (h : Traced (loadIndex service provider).run trace (.error .refreshBackoff)) :
    Told (.index provider) trace := by
  rcases told_load h with htold | ⟨part, -, hfetch⟩
  · exact htold
  · exact absurd hfetch refreshIndexUnlocked_tried

/-- A version is refused by its own timer, or by that of the index. -/
theorem told_loadVersion {version : VersionKey}
    (h : Traced (loadVersion U service version).run trace (.error .refreshBackoff)) :
    Told (.version version) trace ∨ Told (.index version.provider) trace := by
  rcases told_load h with htold | ⟨part, hpart, hrefresh⟩
  · exact .inl htold
  · right
    change Traced (refreshVersion U service version).run part (.error .refreshBackoff) at hrefresh
    unfold refreshVersion at hrefresh
    rcases traced_run_bind hrefresh with ⟨_, _, index, _, _, hrefresh⟩ | ⟨error, heq, hload⟩
    · rcases traced_run_bind hrefresh with ⟨_, _, forced, _, _, hrefresh⟩ | ⟨error, heq, hforce⟩
      · cases hlisted : listedVersion forced version.version with
        | none =>
          rw [hlisted] at hrefresh
          obtain ⟨-, heq⟩ := traced_done.mp hrefresh
          cases heq
        | some summary =>
          rw [hlisted] at hrefresh
          exact absurd hrefresh refreshListed_tried
      · cases heq
        exact absurd hforce forceIndex_tried
    · cases heq
      exact hpart _ (told_loadIndex hload)

end Refusals

section Law

variable {U : Type} [UrlCrate U] [SemverCrate] [JsonCrate] {service : ProviderMetadataService}
variable {files : Files} {pid : ℕ} {s : Shared} {t : ℕ} {timer : Timer}
variable {c : Config Op Res MetadataMachine.Out (Noted Shared (Performance Res Shared))}

variable (U service) in
/-- The task was told not to refresh yet, within 30 seconds after a failure was
recorded, right where the same refresh had failed. -/
def Refused (t : ℕ) (timer : Timer) (history : List (Performance Res Shared)) : Prop :=
  ∃ later asked since failure before,
    history = later ++ asked :: (since ++ failure :: before) ∧
    asked.task = t ∧ asked.event = ⟨.refreshAllowed timer .load, false⟩ ∧
    failure.event.1 = .recordFailure timer ∧ failure.after.clock ≤ asked.after.clock ∧
    asked.after.clock < failure.after.clock + refreshBackoff ∧
    ∃ start attempt, events failure.task before = start ++ attempt ∧
      FailedRefresh U service timer attempt

omit [UrlCrate U] [SemverCrate] [JsonCrate] in
theorem nonempty_answers (op : Op) : Nonempty (Res op) := by
  cases op with
  | enterIndex key => exact ⟨(.missing : Presence)⟩
  | enterVersion key => exact ⟨(.missing : Presence)⟩
  | awaitVersions key stamp =>
    exact ⟨(.ok [] : Except RegistryError (List RegistryVersion))⟩
  | file op => exact ⟨(.ok [] : Except IoError Bytes)⟩
  | indexEntry key => exact ⟨(none : Option IndexEntry)⟩
  | versionEntry key => exact ⟨(none : Option VersionEntry)⟩
  | indexKeys => exact ⟨([] : List ProviderKey)⟩
  | packages key platforms =>
    exact ⟨([] : List (ℕ × Except RegistryError PlatformMetadata))⟩
  | containsIndex key => exact ⟨false⟩
  | containsVersion key => exact ⟨false⟩
  | refreshAllowed timer site => exact ⟨false⟩
  | trySync => exact ⟨false⟩
  | nowEpoch => exact ⟨(0 : ℕ)⟩
  | startVersions key => exact ⟨(0 : ℕ)⟩
  | nextSequence => exact ⟨(0 : ℕ)⟩
  | processId => exact ⟨(0 : ℕ)⟩
  | _ => exact ⟨()⟩

/-- Every log is justified. -/
theorem justified_of_run (h : Logged U service s c) (t : ℕ) :
    Justified U service (events t c.shared.history) := by
  refine (accounted_of_run (fun _ => rfl) h).all nonempty_answers looksBack_justified ?_ ?_ t
  · intro t s entry first s' hstart trace value htraced
    rw [start_request hstart] at htraced
    exact just_request trace value htraced
  · intro trace value htraced
    refine justified_unrecorded (traced_each ?_ htraced)
    exact ⟨trivial, fun _ => ⟨trivial, fun _ => ⟨trivial, fun _ => ⟨trivial, fun _ => ⟨trivial,
      fun _ => ⟨trivial, fun _ => ⟨trivial, fun _ => trivial⟩⟩⟩⟩⟩⟩⟩

/-- Who is told not to refresh yet is refused for a failed refresh. -/
theorem refused_of_told (hboot : boot service files pid = .ok s) (h : Logged U service s c)
    (htold : Told timer (events t c.shared.history)) : Refused U service t timer c.shared.history := by
  obtain ⟨asked, hlog, hasked⟩ := List.mem_map.mp htold
  obtain ⟨hmem, htask⟩ := mem_log.mp hlog
  obtain ⟨later, earlier, hhistory⟩ := List.append_of_mem hmem
  obtain ⟨failure, hfailure, hrecorded, hpast, hsoon⟩ := refused_founded hboot h hhistory hasked
  obtain ⟨since, before, rfl⟩ := List.append_of_mem hfailure
  refine ⟨later, asked, since, failure, before, hhistory, htask, hasked, hrecorded, hpast, hsoon, ?_⟩
  have hjustified := justified_of_run h failure.task
  obtain ⟨u, ⟨op, answer⟩, after⟩ := failure
  dsimp only at hrecorded hjustified
  subst hrecorded
  have hsplit : c.shared.history =
      (later ++ asked :: since) ++
        ⟨u, (⟨Op.recordFailure timer, answer⟩ : Sigma Res), after⟩ :: before := by
    rw [hhistory]
    simp
  have hself : events u (⟨u, (⟨Op.recordFailure timer, answer⟩ : Sigma Res), after⟩ :: before) =
      events u before ++ [(⟨Op.recordFailure timer, answer⟩ : Sigma Res)] :=
    events_cons_self (p := ⟨u, ⟨Op.recordFailure timer, answer⟩, after⟩) rfl
  rw [hsplit, events_append, hself, List.append_assoc] at hjustified
  exact hjustified timer answer _ _ rfl

/-- Requests that fail with `RefreshBackoff`. -/
structure RefusalLaw (U : Type) [UrlCrate U] [SemverCrate] [JsonCrate]
    (service : ProviderMetadataService)
    (c : Config Op Res MetadataMachine.Out (Noted Shared (Performance Res Shared))) : Prop where
  listed : ∀ t hostname providerNamespace providerType,
    c.tasks t = some (.done
      (.listed hostname providerNamespace providerType (.error .refreshBackoff))) →
    ∃ key, service.providerKey hostname providerNamespace providerType = .ok key ∧
      Refused U service t (.index key) c.shared.history
  version : ∀ t hostname providerNamespace providerType version,
    c.tasks t = some (.done
      (.version hostname providerNamespace providerType version (.error .refreshBackoff))) →
    ∃ key, service.providerKey hostname providerNamespace providerType = .ok key ∧
      (Refused U service t (.version ⟨key, normalizeVersion version⟩) c.shared.history ∨
        Refused U service t (.index key) c.shared.history)
  platform : ∀ t hostname providerNamespace providerType filename,
    c.tasks t = some (.done
      (.platform hostname providerNamespace providerType filename (.error .refreshBackoff))) →
    ∃ archive key, ArchiveName.parse providerType filename = .ok archive ∧
      service.providerKey hostname providerNamespace providerType = .ok key ∧
      (Refused U service t (.version ⟨key, normalizeVersion archive.version⟩) c.shared.history ∨
        Refused U service t (.index key) c.shared.history)

omit [UrlCrate U] [SemverCrate] [JsonCrate] in
theorem providerKey_tried {hostname providerNamespace providerType : String} :
    service.providerKey hostname providerNamespace providerType ≠ .error .refreshBackoff := by
  unfold ProviderMetadataService.providerKey validateHostname validateComponent
  split
  · exact fun h => by cases h
  · split
    · exact fun h => by cases h
    · split
      · exact fun h => by cases h
      · simp only [bind, Except.bind]
        split
        · exact fun h => by cases h
        · exact fun h => by cases h

/-- The entry of a version is refused by its own timer, or by that of the index. -/
theorem told_getVersionEntry {hostname providerNamespace providerType version : String}
    {trace : List (Sigma Res)}
    (h : Traced (getVersionEntry U service hostname providerNamespace providerType version).run trace
      (.error .refreshBackoff)) :
    ∃ key, service.providerKey hostname providerNamespace providerType = .ok key ∧
      (Told (.version ⟨key, normalizeVersion version⟩) trace ∨ Told (.index key) trace) := by
  unfold getVersionEntry at h
  cases hvalid : validateVersion version "version" with
  | error error =>
    rw [hvalid] at h
    obtain ⟨-, heq⟩ := traced_done.mp h
    cases heq
    exact absurd hvalid (namesField_tried (validateVersion_namesField version "version"))
  | ok value =>
    rw [hvalid] at h
    cases hkey : service.providerKey hostname providerNamespace providerType with
    | error error =>
      rw [hkey] at h
      obtain ⟨-, heq⟩ := traced_done.mp h
      cases heq
      exact absurd hkey providerKey_tried
    | ok key =>
      rw [hkey] at h
      obtain ⟨first, rest, result, rfl, hload, h⟩ := traced_lift_bind.mp h
      cases result with
      | ok entry =>
        obtain ⟨-, heq⟩ := traced_done.mp h
        cases heq
      | error error =>
        have herror : rest = [] ∧ error = .refreshBackoff := by
          cases error with
          | notFound =>
            obtain ⟨-, heq⟩ := traced_done.mp h
            cases heq
          | _ =>
            obtain ⟨hnil, heq⟩ := traced_done.mp h
            exact ⟨hnil, (Except.error.inj heq).symm⟩
        obtain ⟨rfl, rfl⟩ := herror
        rw [List.append_nil]
        exact ⟨key, rfl, told_loadVersion hload⟩

/-- In every run, requests are refused only within 30 seconds after a failure. -/
theorem refusals_founded (hboot : boot service files pid = .ok s) (h : Logged U service s c) :
    RefusalLaw U service c := by
  constructor
  · intro t hostname providerNamespace providerType ht
    obtain ⟨entry, htraced⟩ := performed_request h ht fun heq => by cases heq
    have hlist := traced_listed htraced
    unfold listVersions at hlist
    cases hkey : service.providerKey hostname providerNamespace providerType with
    | error error =>
      rw [hkey] at hlist
      obtain ⟨-, heq⟩ := traced_done.mp hlist
      cases heq
      exact absurd hkey providerKey_tried
    | ok key =>
      rw [hkey] at hlist
      rcases traced_run_bind hlist with ⟨_, _, entry, _, _, hdone⟩ | ⟨error, heq, hload⟩
      · obtain ⟨-, heq⟩ := traced_done.mp hdone
        cases heq
      · cases heq
        exact ⟨key, rfl, refused_of_told hboot h (told_loadIndex hload)⟩
  · intro t hostname providerNamespace providerType version ht
    obtain ⟨entry, htraced⟩ := performed_request h ht fun heq => by cases heq
    have hget := traced_version htraced
    unfold getVersion at hget
    rcases traced_run_bind hget with ⟨_, _, entry, _, _, hdone⟩ | ⟨error, heq, hentry⟩
    · obtain ⟨-, heq⟩ := traced_done.mp hdone
      cases heq
    · cases heq
      obtain ⟨key, hkey, htold⟩ := told_getVersionEntry hentry
      exact ⟨key, hkey, htold.imp (refused_of_told hboot h) (refused_of_told hboot h)⟩
  · intro t hostname providerNamespace providerType filename ht
    obtain ⟨entry, htraced⟩ := performed_request h ht fun heq => by cases heq
    have hget := traced_platform htraced
    unfold getPlatformByArchive at hget
    cases harchive : ArchiveName.parse providerType filename with
    | error error =>
      rw [harchive] at hget
      obtain ⟨-, heq⟩ := traced_done.mp hget
      cases heq
    | ok archive =>
      rw [harchive] at hget
      rcases traced_run_bind hget with ⟨_, _, entry, _, _, hdone⟩ | ⟨error, heq, hentry⟩
      · obtain ⟨-, heq⟩ := traced_done.mp hdone
        cases heq
      · cases heq
        obtain ⟨key, hkey, htold⟩ := told_getVersionEntry hentry
        exact ⟨archive, key, rfl, hkey, htold.imp (refused_of_told hboot h) (refused_of_told hboot h)⟩

end Law

section Plain

open PlainLibraries PlainMetadata

/-- The address whose versions were refused. -/
def refusedAddress (c : Config Op Res MetadataMachine.Out (Noted Shared (Performance Res Shared)))
    (t : ℕ) : Option (String × String × String) :=
  match c.tasks t with
  | some (.done (.listed hostname providerNamespace providerType (.error .refreshBackoff))) =>
    some (hostname, providerNamespace, providerType)
  | _ => none

theorem task_of_refusedAddress
    {c : Config Op Res MetadataMachine.Out (Noted Shared (Performance Res Shared))} {t : ℕ}
    {hostname providerNamespace providerType : String}
    (h : refusedAddress c t = some (hostname, providerNamespace, providerType)) :
    c.tasks t = some (.done
      (.listed hostname providerNamespace providerType (.error .refreshBackoff))) := by
  unfold refusedAddress at h
  split at h
  · next heq =>
      cases h
      exact heq
  · cases h

/-- The registry fails at first, and another request 29 seconds later is refused. -/
theorem refusals_founded_plain :
    letI := plainJson
    letI := plainSemver
    ∃ c, Logged PlainUrl (plainService 0) (bootWith ∅ ∅ 7) c ∧
      c.tasks 1 = some (.done (.listed plainProvider.hostname plainProvider.providerNamespace
        plainProvider.providerType (.error .refreshBackoff))) ∧
      Refused PlainUrl (plainService 0) 1 (.index plainProvider) c.shared.history := by
  let _ := plainJson
  let _ := plainSemver
  let M := logging (machine PlainUrl (plainService 0))
  let c₀ : Config Op Res MetadataMachine.Out (Noted Shared (Performance Res Shared)) :=
    ⟨⟨bootWith ∅ ∅ 7, []⟩, fun _ => none⟩
  let failing : Op → Choice := answers 100 (.error (.invalidResponse "empty answer")) []
  let c₁ := M.follow 0 failing (fun _ _ => false) 100 (M.act c₀ (.start 0 listPlain))
  let c₂ := M.act c₁ (.move (.tick 29))
  let c₃ := M.follow 1 (listing 129 ["1.0.0"]) (fun _ _ => false) 100 (M.act c₂ (.start 1 listPlain))
  have hact : ∀ t entry c, M.Run .free c (M.act c (.start t entry)) :=
    fun t entry c => run_act M .free trivial
  have htick : M.Run .free c₁ c₂ := run_act M .free trivial
  have hfollow : ∀ t answer n c, M.Run .free c (M.follow t answer (fun _ _ => false) n c) :=
    fun t answer n c => run_follow M .free _ (fun _ _ _ => trivial) n c
  have hrun : M.Run .free c₀ c₃ :=
    ((hact 0 _ _).trans (hfollow 0 _ _ _)).trans
      (htick.trans ((hact 1 _ _).trans (hfollow 1 _ _ _)))
  have hend : refusedAddress c₃ 1 = some (plainProvider.hostname, plainProvider.providerNamespace,
        plainProvider.providerType) ∧
      (plainService 0).providerKey plainProvider.hostname plainProvider.providerNamespace
        plainProvider.providerType = .ok plainProvider := by
    decide +kernel
  have hboot : boot (plainService 0) ∅ 7 = .ok (bootWith ∅ ∅ 7) := rfl
  obtain ⟨key, hkey, hrefused⟩ := (refusals_founded hboot hrun).listed 1 _ _ _
    (task_of_refusedAddress hend.1)
  rw [hend.2] at hkey
  cases hkey
  exact ⟨c₃, hrun, task_of_refusedAddress hend.1, hrefused⟩

end Plain

end OpenTfMirror.RefusalCauses
