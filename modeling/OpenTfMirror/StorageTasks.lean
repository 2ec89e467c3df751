import OpenTfMirror.StorageProofs

/-!
# Downloads, detached tasks and calls

The specifications above the rename: the permit around a download, the second
cache check inside the key's section, the detached task, and the call that
spawns and awaits it. They make every reachable state of the store satisfy the
invariant, and every finished call its postcondition.
-/

namespace OpenTfMirror.StorageTasks

open TaskProgram TaskLogic KeyedLocks LockSections TextOps FileNames FileStore Outbound Provider
  Metadata Storage StorageMachine StorageInvariant StorageSteps StorageProofs

section Specs

variable {U : Type} [UrlCrate U] [SemverCrate] [Sha256Crate]
variable {store : ProviderStorage} {initial : Path → Option Node} {focus : Focus} {t : ℕ}
variable {number : ℕ} {job : Job} {s : Shared U}

/-- The task runs the job and has not begun to download it. -/
structure Opened (t number : ℕ) (job : Job) (s : Shared U) : Prop where
  runs : Runs t number job s
  unpermitted : t ∉ s.permits
  unfinished : s.results number = none
  unentered : .entered job.key number ∉ s.events
  unrenamed : .renamed job.key number ∉ s.events

/-- What a download leaves: the section is still held, and a failed one without
a failure of the disk has renamed nothing. -/
structure Downloaded (focus : Focus) (t number : ℕ) (job : Job)
    (result : Except ProviderStorageError Unit) (s : Shared U) : Prop extends
    Held t number job s where
  failed : ∀ error, result = .error error → focus ≠ none → .renamed job.key number ∉ s.events
  renamed : result = .ok () → .renamed job.key number ∈ s.events

omit [UrlCrate U] in
theorem keep_opened : Keep store initial focus t (Opened (U := U) t number job) := by
  intro s s' hinv hframe h
  refine ⟨keep_runs s s' hinv hframe h.runs, ?_, ?_, ?_, ?_⟩
  · exact fun hmem => h.unpermitted ((Frame.permits hframe).mp hmem)
  · exact (Frame.results hframe number h.runs.1).trans h.unfinished
  · exact fun hmem => h.unentered (Frame.entries hframe job.key number h.runs.1 hmem)
  · exact fun hmem => h.unrenamed (Frame.renames hframe job.key number h.runs.1 hmem)

omit [UrlCrate U] in
theorem keep_downloaded (result : Except ProviderStorageError Unit) :
    Keep store initial focus t (Downloaded (U := U) focus t number job result) := by
  intro s s' hinv hframe h
  refine ⟨keep_held s s' hinv hframe h.toHeld, ?_, ?_⟩
  · exact fun error herror hfocus hmem => h.failed error herror hfocus
      (Frame.renames hframe job.key number h.runs.1 hmem)
  · exact fun hok => Frame.events hframe _ (h.renamed hok)

omit [UrlCrate U] [SemverCrate] [Sha256Crate] in
/-- The directory of an archive, with a temporary name in it. -/
theorem archivePath_temp (store : ProviderStorage) (key : ProviderArchiveKey) (pid n : ℕ) :
    ∃ dir, (store.archivePath key).dropLast ++ [tempName key.filename pid n] =
      tempPath dir key.filename pid n ∧
      Below store.root ((store.archivePath key).dropLast ++ [tempName key.filename pid n]) := by
  refine ⟨(store.archivePath key).dropLast, rfl, ?_⟩
  have hdir : (store.archivePath key).dropLast =
      store.root ++ ["providers", key.hostname, key.providerNamespace, key.providerType] := by
    rw [ProviderStorage.archivePath, List.dropLast_append_of_ne_nil (by simp)]
    rfl
  rw [hdir, List.append_assoc]
  exact List.prefix_append _ _

/-- Drawing a sequence number: the names with it are the task's own. -/
theorem wp_nextSequence {Q : ℕ → Shared U → Prop}
    (hdestination : job.destination = store.archivePath job.key)
    (hs : Fetching store focus t number job s)
    (hnext : ∀ n s', Fetching store focus t number job s' ∧
      (∀ pid, Owns store t (job.destination.dropLast ++ [tempName job.key.filename pid n]) s') →
      Q n s') :
    Wp store initial focus t nextSequence Q s := by
  refine wp_call hs keep_fetching (fun s₁ _ hs₁ => ⟨⟨number, job, hs₁.runs, hs₁.holds⟩, hs₁.missing⟩) ?_
  intro s₁ choice n s₂ _ hs₁ _ hexec _
  cases choice with
  | ok =>
    cases hexec
    refine hnext _ _ ⟨{ hs₁ with }, fun pid => ?_⟩
    obtain ⟨dir, hdir, hbelow⟩ := archivePath_temp store job.key pid s₁.sequence
    rw [hdestination]
    exact ⟨hbelow, dir, job.key.filename, pid, s₁.sequence, hdir, Function.update_self ..⟩
  | _ => cases hexec

/-- `download` while the permit is held. -/
theorem downloadPermitted_spec {url : U} (hdestination : job.destination = store.archivePath job.key)
    (hkey : ValidKey job.key) (hs : Fetching store focus t number job s) :
    Wp store initial focus t
      (downloadPermitted store job.key url job.expected job.destination).run
      (fun result s' => Downloaded focus t number job result s') s := by
  have hfailed : ∀ (s' : Shared U) error, Fetching store focus t number job s' →
      Downloaded focus t number job (.error error) s' :=
    fun s' error h => ⟨⟨h.runs, h.holds, h.entered, h.unfinished⟩, fun _ _ _ => h.unrenamed, nofun⟩
  unfold downloadPermitted
  refine wp_io_bind (R := fun result s' => Fetching store focus t number job s') ?_ ?_ ?_
  · refine wp_createDirAll keep_fetching hs (fun s₁ hs₁ => ?_) (fun s₁ hs₁ => hs₁)
      (fun s₁ message _ hs₁ => hs₁)
    exact ⟨⟨number, job, hs₁.runs, hs₁.holds⟩, hs₁.missing⟩
  · intro _ s₁ hs₁
    refine wp_lift_bind (wp_nextSequence hdestination hs₁ fun n s₂ hs₂ => ?_)
    let ψ : Shared U → Prop := fun s' => Fetching store focus t number job s' ∧
      ∀ pid, Owns store t (job.destination.dropLast ++ [tempName job.key.filename pid n]) s'
    have hψ : Keep store initial focus t ψ := by
      intro s s' hinv hframe h
      exact ⟨keep_fetching s s' hinv hframe h.1, fun pid => (Frame.temps hframe _ (h.2 pid)).1⟩
    refine wp_lift_bind (wp_always (φ := ψ) hψ hs₂ (fun _ _ => rfl)
      (fun s₃ _ hs₃ => ⟨⟨number, job, hs₃.1.runs, hs₃.1.holds⟩, hs₃.1.missing⟩)
      (fun s₃ => frame_refl store focus t s₃) fun s₃ s₄ _ hs₄ => ?_)
    refine wp_bind_of (withTempCleanup_spec ⟨hs₄.1, hs₄.2 _⟩) ?_ ?_
    · intro _ s₅ hs₅
      have hpath : ¬Temporary job.destination := by
        rw [hdestination]
        exact archivePath_not_temporary store hkey
      refine wp_mono (publish_spec hpath hs₅) fun result s₆ hs₆ => ?_
      refine ⟨hs₆.1.toHeld, fun error herror hfocus => ?_, fun _ => hs₆.1.renamed⟩
      rw [hs₆.2 hfocus] at herror
      cases herror
    · exact fun error s₅ hs₅ => ⟨hs₅.1, fun _ _ _ => hs₅.2, nofun⟩
  · exact fun error s₁ hs₁ => hfailed s₁ _ hs₁

/-- What a download leaves after its permit was given back. -/
theorem download_spec (hdestination : job.destination = store.archivePath job.key)
    (hkey : ValidKey job.key)
    (hs : Opened t number job s ∧ s.locks.Holds t job.key ∧ Absent store focus job s) :
    Wp store initial focus t (download store job.key job.metadata job.expected job.destination).run
      (fun result s' => Downloaded focus t number job result s' ∧ t ∉ s'.permits) s := by
  let φ : Shared U → Prop := fun s' =>
    Opened t number job s' ∧ s'.locks.Holds t job.key ∧ Absent store focus job s'
  have hφ : Keep store initial focus t φ := by
    rintro s s' hinv hframe ⟨hopened, hholds, habsent⟩
    refine ⟨keep_opened s s' hinv hframe hopened, (Frame.locks hframe).holds_iff.mpr hholds, ?_⟩
    rintro expected hfocus ⟨file, hfile, hrest⟩
    rw [Frame.archive hframe job.key hkey hholds] at hfile
    exact habsent expected hfocus ⟨file, hfile, hrest⟩
  let ψ : Shared U → Prop := fun s' => Fetching store focus t number job s' ∧ t ∉ s'.permits
  have hψ : Keep store initial focus t ψ := by
    rintro s s' hinv hframe ⟨hfetching, hpermit⟩
    exact ⟨keep_fetching s s' hinv hframe hfetching, fun hmem => hpermit ((Frame.permits hframe).mp hmem)⟩
  unfold download
  refine wp_lift_bind (wp_call (φ := φ) hs hφ (fun s₁ _ hs₁ => ?_) ?_)
  · exact ⟨⟨number, job, hs₁.1.runs, hs₁.2.1, hs₁.1.unfinished⟩, missing_of_absent hs₁.1.runs hs₁.2.2⟩
  intro s₁ choice answer s₂ _ hs₁ _ hexec _
  have hentered : ψ s₂ := by
    cases choice with
    | ok =>
      cases hexec
      have hnote : s₁.note t .entered =
          { s₁ with events := .entered job.key number :: s₁.events } := by
        simp [Shared.note, Shared.keyOf, hs₁.1.runs.1, hs₁.1.runs.2]
      rw [hnote]
      refine ⟨⟨hs₁.1.runs, hs₁.2.1, List.mem_cons_self, hs₁.1.unfinished, ?_, hs₁.2.2⟩,
        hs₁.1.unpermitted⟩
      simpa using hs₁.1.unrenamed
    | _ => cases hexec
  cases hurl : (UrlCrate.parse job.metadata.downloadUrl : Option U) with
  | none =>
    exact ⟨⟨⟨hentered.1.runs, hentered.1.holds, hentered.1.entered, hentered.1.unfinished⟩,
      fun _ _ _ => hentered.1.unrenamed, fun h => by cases h⟩, hentered.2⟩
  | some url =>
    refine (wp_bind t _ _ _ s₂).mpr (wp_call (φ := ψ) hentered hψ (fun s₃ _ hs₃ => ?_) ?_)
    · exact ⟨⟨number, job, hs₃.1.runs, hs₃.1.holds⟩, hs₃.2, hs₃.1.missing⟩
    intro s₃ choice answer s₄ _ hs₃ _ hexec _
    have hfetching : Fetching store focus t number job s₄ := by
      cases choice with
      | ok =>
        change (if s₃.permits.length < maxConcurrentDownloads then
          some ((), { s₃ with permits := t :: s₃.permits }) else none) = some (answer, s₄) at hexec
        split at hexec
        · cases hexec
          exact { hs₃.1 with }
        · cases hexec
      | _ => cases hexec
    refine (wp_bind t _ _ _ s₄).mpr
      (wp_mono (downloadPermitted_spec hdestination hkey hfetching) fun result s₅ hs₅ => ?_)
    refine wp_call hs₅ (keep_downloaded result) (fun s₆ _ hs₆ => ⟨number, job, hs₆.runs, hs₆.holds⟩) ?_
    intro s₆ choice answer s₇ hinv hs₆ _ hexec _
    cases choice with
    | ok =>
      cases hexec
      exact ⟨{ hs₆ with }, hinv.permits_nodup.not_mem_erase⟩
    | _ => cases hexec

/-- The job has its result, not stored yet. -/
structure Ended (store : ProviderStorage) (focus : Focus) (t number : ℕ) (job : Job)
    (result : Except ProviderStorageError Path) (s : Shared U) : Prop where
  runs : Runs t number job s
  unpermitted : t ∉ s.permits
  unfinished : s.results number = none
  good : JobResult store focus s.events number job result

omit [UrlCrate U] in
theorem keep_ended (result : Except ProviderStorageError Path) :
    Keep store initial focus t (Ended (U := U) store focus t number job result) := by
  intro s s' hinv hframe h
  refine ⟨keep_runs s s' hinv hframe h.runs, fun hmem => h.unpermitted ((Frame.permits hframe).mp hmem),
    (Frame.results hframe number h.runs.1).trans h.unfinished, ?_⟩
  exact jobResult_mono h.good (Frame.events hframe) (fun key => Frame.renames hframe key number h.runs.1)
    fun key => Frame.entries hframe key number h.runs.1

omit [UrlCrate U] [SemverCrate] [Sha256Crate] in
/-- A job that ends without a download. -/
theorem Opened.ended (h : Opened t number job s) {result : Except ProviderStorageError Path}
    (hpath : ∀ path, result = .ok path → path = job.destination ∨ store.bundledPath job.key = some path)
    (herror : ∀ error, result = .error error → focus = none) :
    Ended store focus t number job result s := by
  refine ⟨h.runs, h.unpermitted, h.unfinished, hpath, ?_, ?_⟩
  · exact fun _ _ hentered => absurd hentered h.unentered
  · intro key expected error hfocus _ hresult
    rw [herror error hresult] at hfocus
    cases hfocus

omit [UrlCrate U] [SemverCrate] [Sha256Crate] in
/-- A job that ends with its download. -/
theorem Downloaded.ended {result : Except ProviderStorageError Unit}
    (h : Downloaded focus t number job result s) (hpermit : t ∉ s.permits) :
    Ended store focus t number job (result.map fun _ => job.destination) s := by
  refine ⟨h.runs, hpermit, h.unfinished, ?_, ?_, ?_⟩
  · intro path hpath
    cases result with
    | ok value =>
      cases hpath
      exact .inl rfl
    | error error => cases hpath
  · intro path hpath _
    cases result with
    | ok value =>
      cases hpath
      exact ⟨rfl, h.renamed rfl⟩
    | error error => cases hpath
  · rintro key expected error hfocus rfl hresult
    cases result with
    | ok value => cases hresult
    | error error' =>
      refine ⟨h.entered, h.failed error' rfl ?_⟩
      rw [hfocus]
      exact Option.some_ne_none _

/-- The body of `locked_load_or_fetch`: the second check decides whether the
archive is downloaded. -/
theorem loadOrFetchLocked_spec (hinv : Inv store initial focus s)
    (hholds : s.locks.Holds t job.key) (hs : Opened t number job s) :
    Wp store initial focus t (loadOrFetchLocked store job).run
      (fun result s' => s'.locks.Holds t job.key ∧ Ended store focus t number job result s') s := by
  have haccepted := hinv.jobs number job hs.runs.2
  have hagree : ∀ expected, focus = some (job.key, expected) → job.expected = expected :=
    fun expected hfocus => hinv.jobs_agree job.key expected hfocus number job hs.runs.2 rfl
  let φ : Shared U → Prop := fun s' => Opened t number job s' ∧ s'.locks.Holds t job.key
  have hφ : Keep store initial focus t φ := by
    intro s s' hinv hframe h
    exact ⟨keep_opened s s' hinv hframe h.1, (Frame.locks hframe).holds_iff.mpr h.2⟩
  have hlook : ∀ (s : Shared U) looked, φ s → φ { s with looked } :=
    fun s looked h => ⟨{ h.1 with }, h.2⟩
  unfold loadOrFetchLocked
  refine wp_bind_of (bundledMatches_spec job.expected haccepted.key hφ ⟨hs, hholds⟩ hlook) ?_ ?_
  · rintro found s₁ ⟨hs₁, -, hbundled⟩
    cases found with
    | some path =>
      refine ⟨hs₁.2, hs₁.1.ended (fun path' hpath => ?_) nofun⟩
      cases hpath
      exact .inr (hbundled path rfl)
    | none =>
      have hpath : ¬Temporary job.destination := by
        rw [haccepted.destination]
        exact archivePath_not_temporary store haccepted.key
      by_cases hin : InPlace store focus job.destination job.expected s₁
      · refine wp_bind_of (archiveMatchesChecksum_spec job.expected hφ hs₁ hlook hpath) ?_ ?_
        · rintro value s₂ ⟨hs₂, hchecked⟩
          cases hchecked.found hin
          exact ⟨hs₂.2, hs₂.1.ended (fun path' hpath' => .inl (by cases hpath'; rfl)) nofun⟩
        · rintro error s₂ ⟨-, hchecked⟩
          cases hchecked.found hin
      · have habsent : Absent store focus job s₁ := by
          intro expected hfocus hcached
          have hexpected := hagree expected hfocus
          subst hexpected
          exact hin ⟨job.key, hfocus, haccepted.key, haccepted.destination, hcached⟩
        let χ : Shared U → Prop := fun s' => φ s' ∧ Absent store focus job s'
        have hχ : Keep store initial focus t χ := by
          rintro s s' hinv hframe ⟨h, hmissing⟩
          refine ⟨hφ s s' hinv hframe h, ?_⟩
          rintro expected hfocus ⟨file, hfile, hrest⟩
          rw [Frame.archive hframe job.key haccepted.key h.2] at hfile
          exact hmissing expected hfocus ⟨file, hfile, hrest⟩
        have hχlook : ∀ (s : Shared U) looked, χ s → χ { s with looked } :=
          fun s looked h => ⟨hlook s looked h.1, h.2⟩
        refine wp_bind_of
          (archiveMatchesChecksum_spec job.expected hχ ⟨hs₁, habsent⟩ hχlook hpath) ?_ ?_
        · rintro value s₂ ⟨hs₂, -⟩
          cases value with
          | true => exact ⟨hs₂.1.2, hs₂.1.1.ended (fun path' hpath' => .inl (by cases hpath'; rfl)) nofun⟩
          | false =>
            simp only [Bool.false_eq_true, if_false]
            refine wp_bind_of (download_spec haccepted.destination haccepted.key
              ⟨hs₂.1.1, hs₂.1.2, hs₂.2⟩) ?_ ?_
            · exact fun value s₃ hs₃ => ⟨hs₃.1.holds, hs₃.1.ended hs₃.2⟩
            · exact fun error s₃ hs₃ => ⟨hs₃.1.holds, hs₃.1.ended hs₃.2⟩
        · rintro error s₂ ⟨hs₂, hchecked⟩
          refine ⟨hs₂.1.2, hs₂.1.1.ended nofun fun error' _ => ?_⟩
          by_contra hfocus
          obtain ⟨answer, hanswer⟩ := hchecked.answered hfocus
          cases hanswer
  · rintro error s₁ ⟨hs₁, hanswered, -⟩
    refine ⟨hs₁.2, hs₁.1.ended nofun fun error' _ => ?_⟩
    by_contra hfocus
    obtain ⟨found, hfound⟩ := hanswered hfocus
    cases hfound

/-- The table of archive locks, as the task of a job uses it. -/
theorem lock_access (number : ℕ) (job : Job) : LockAccess (assertions (U := U) store initial focus) (policy focus)
    (machine store) t (fun s => s.locks) (fun s locks => { s with locks }) (fun key => key = job.key)
    (fun s => t ∉ s.permits ∧ Runs t number job s) lock where
  consistent s hinv := Inv.consistent hinv
  same s s' hframe := Frame.locks hframe
  table_replace _ _ := rfl
  perform op Q s hs h := by
    intro s₁ hinv hframe
    obtain ⟨hpermit, hruns⟩ := hs
    have hpermit₁ : t ∉ s₁.permits := fun hmem => hpermit ((Frame.permits hframe).mp hmem)
    have hruns₁ := keep_runs s s₁ hinv hframe hruns
    obtain ⟨hop, hkey, hdone⟩ := h s₁ hinv hframe
    refine ⟨⟨hop, hpermit₁, number, job, hruns₁, hkey⟩, ?_⟩
    intro choice answer s₂ _ hexec hinv₂
    cases choice with
    | ok =>
      obtain ⟨locks, hperform, heq⟩ := Option.map_eq_some_iff.mp hexec
      cases heq
      exact hdone locks hperform hinv₂
    | _ => cases hexec

/-- `locked_load_or_fetch`. -/
theorem lockedLoadOrFetch_spec (hs : Opened t number job s)
    (hfree : s.locks.handles.lookup t = none) :
    Wp store initial focus t (lockedLoadOrFetch store job).run
      (fun result s' => s'.locks.handles.lookup t = none ∧
        Ended store focus t number job result s') s := by
  refine wp_guarded (lock_access number job) rfl (φ := Opened t number job)
    (ψ := fun result s' => Ended store focus t number job result s') keep_opened keep_ended
    (fun s locks h => { h with }) (fun result s locks h => { h with })
    (fun s h => ⟨h.unpermitted, h.runs⟩) (fun result s h => ⟨h.unpermitted, h.runs⟩) ?_ hfree hs
  exact fun s₁ hinv hholds hs₁ => loadOrFetchLocked_spec hinv hholds hs₁

/-- The error of a call whose arguments are refused. -/
def refusal (key : ProviderArchiveKey) (metadata : PlatformMetadata) : Option ProviderStorageError :=
  match validateKey key with
  | .error error => some error
  | .ok _ =>
    if metadata.filename ≠ key.filename then
      some (.invalidKey "metadata filename does not match request")
    else
      match expectedChecksum metadata with
      | .error error => some error
      | .ok _ => none

/-- How a call ends: refused, with one of its two paths, or with the result of
its job. -/
structure Answered (store : ProviderStorage) (focus : Focus) (call : Call)
    (result : Except ProviderStorageError Path) (s : Shared U) : Prop where
  refused : ∀ error, refusal call.key call.metadata = some error → result = .error error
  path : ∀ path, result = .ok path →
    path = store.archivePath call.key ∨ store.bundledPath call.key = some path
  joined : ∀ number, call.job = some number → s.results number = some result
  failed : ∀ error, result = .error error → call.job = none → focus ≠ none →
    refusal call.key call.metadata = some error

/-- What a finished task leaves. -/
def Post (store : ProviderStorage) (focus : Focus) (t : ℕ) (out : Out) (s : Shared U) : Prop :=
  match out with
  | .returned result => ∃ call, s.calls t = some call ∧ Answered store focus call result s
  | .detached => s.locks.handles.lookup t = none ∧
      ∃ number result, s.jobOf t = some number ∧ s.results number = some result
  | .dropped => s.calls t = none ∧ s.jobOf t = none

omit [UrlCrate U] in
theorem keep_post (out : Out) : Keep store initial focus t (Post (U := U) store focus t out) := by
  intro s s' _ hframe h
  cases out with
  | returned result =>
    obtain ⟨call, hcall, hanswered⟩ := h
    refine ⟨call, (Frame.calls hframe).trans hcall, { hanswered with joined := ?_ }⟩
    exact fun number hnumber => Frame.finished hframe number result (hanswered.joined number hnumber)
  | detached =>
    obtain ⟨hfree, number, result, hjobOf, hresult⟩ := h
    exact ⟨(Frame.locks hframe).handle.trans hfree, number, result,
      (Frame.jobOf hframe).trans hjobOf, Frame.finished hframe number result hresult⟩
  | dropped => exact ⟨(Frame.calls hframe).trans h.1, (Frame.jobOf hframe).trans h.2⟩

/-- The detached task stores the result of its job. -/
theorem detached_spec (hs : Opened t number job s)
    (hfree : s.locks.handles.lookup t = none) :
    Wp store initial focus t (detached store job) (fun _ s' => Post store focus t .detached s') s := by
  refine (wp_bind t _ _ _ s).mpr (wp_mono (lockedLoadOrFetch_spec hs hfree) ?_)
  rintro result s₁ ⟨hfree₁, hs₁⟩
  refine wp_call (φ := fun s' => s'.locks.handles.lookup t = none ∧
    Ended store focus t number job result s') ⟨hfree₁, hs₁⟩
    ((stable_free (lock_access number job)).and (keep_ended result))
    (fun s₂ _ hs₂ => ⟨number, job, hs₂.2.runs, hs₂.2.unfinished, hs₂.2.good⟩) ?_
  intro s₂ choice answer s₃ _ hs₂ _ hexec _
  cases choice with
  | ok =>
    obtain ⟨n, hn, heq⟩ := Option.map_eq_some_iff.mp hexec
    rw [hs₂.2.runs.1] at hn
    cases hn
    cases heq
    exact ⟨hs₂.1, number, result, hs₂.2.runs.1, Function.update_self ..⟩
  | _ => cases hexec

/-- Spawning the detached task and awaiting its result. -/
theorem spawn_join_spec {key : ProviderArchiveKey} {metadata : PlatformMetadata} {expected : String}
    (hkey : ValidKey key) (hexpected : expectedChecksum metadata = .ok expected)
    (haccepted : refusal key metadata = none) (hs : s.calls t = some ⟨key, metadata, none⟩) :
    Wp store initial focus t (spawn ⟨key, metadata, expected, store.archivePath key⟩)
      (fun number s' => Wp store initial focus t (join number)
        (fun result s'' => Post store focus t (.returned result) s'') s') s := by
  refine wp_call (φ := fun s' : Shared U => s'.calls t = some ⟨key, metadata, none⟩) hs
    (fun s s' _ hframe h => (Frame.calls hframe).trans h)
    (fun s₁ _ hs₁ => ⟨⟨hkey, rfl, hexpected⟩, _, hs₁, rfl, rfl⟩) ?_
  intro s₁ choice (number : ℕ) s₂ _ hs₁ _ hexec _
  have hspawned : s₂.calls t = some ⟨key, metadata, some number⟩ ∧
      s₂.jobs[number]? = some ⟨key, metadata, expected, store.archivePath key⟩ := by
    cases choice with
    | ok =>
      cases hexec
      refine ⟨?_, by simp⟩
      dsimp only
      rw [Function.update_self, hs₁]
      rfl
    | _ => cases hexec
  refine wp_call (φ := fun s' : Shared U => s'.calls t = some ⟨key, metadata, some number⟩ ∧
      s'.jobs[number]? = some ⟨key, metadata, expected, store.archivePath key⟩) hspawned
    (fun s s' _ hframe h => ⟨(Frame.calls hframe).trans h.1, Frame.jobs hframe _ _ h.2⟩)
    (fun s₃ _ hs₃ => ⟨_, hs₃.1, rfl⟩) ?_
  intro s₃ choice result s₄ hinv hs₃ _ hexec _
  cases choice with
  | ok =>
    obtain ⟨result', hresult, heq⟩ := Option.map_eq_some_iff.mp hexec
    cases heq
    obtain ⟨job, hjob, hgood⟩ := hinv.results number result hresult
    rw [hs₃.2] at hjob
    cases hjob
    refine ⟨_, hs₃.1, ?_, hgood.path, ?_, nofun⟩
    · intro error herror
      rw [haccepted] at herror
      cases herror
    · intro n hn
      cases hn
      exact hresult
  | _ => cases hexec

/-- `load_or_fetch`. -/
theorem loadOrFetch_spec {key : ProviderArchiveKey} {metadata : PlatformMetadata}
    (hs : s.calls t = some ⟨key, metadata, none⟩) :
    Wp store initial focus t (loadOrFetch store key metadata).run
      (fun result s' => Post store focus t (.returned result) s') s := by
  let φ : Shared U → Prop := fun s' => s'.calls t = some ⟨key, metadata, none⟩
  have hφ : Keep store initial focus t φ := fun s s' _ hframe h => (Frame.calls hframe).trans h
  have hlook : ∀ (s : Shared U) looked, φ s → φ { s with looked } := fun _ _ h => h
  have hrefused : ∀ error, refusal key metadata = some error →
      Post store focus t (.returned (.error error)) s := by
    refine fun error herror => ⟨_, hs, fun error' herror' => ?_, nofun, nofun, fun error' heq _ _ => ?_⟩
    · rw [herror] at herror'
      cases herror'
      rfl
    · cases heq
      exact herror
  unfold loadOrFetch
  cases hkey : validateKey key with
  | error error => exact hrefused error (by simp [refusal, hkey])
  | ok value =>
    by_cases hfilename : metadata.filename ≠ key.filename
    · simp only [hfilename, ne_eq, not_false_eq_true, if_true]
      exact hrefused _ (by simp [refusal, hkey, hfilename])
    · simp only [hfilename, if_false]
      cases hexpected : expectedChecksum metadata with
      | error error => exact hrefused error (by simp [refusal, hkey, hfilename, hexpected])
      | ok expected =>
        have haccepted : refusal key metadata = none := by
          simp [refusal, hkey, hfilename, hexpected]
        have hplain : ∀ (s' : Shared U) result, φ s' →
            (∀ path, result = .ok path → path = store.archivePath key ∨
              store.bundledPath key = some path) →
            (∀ error, result = .error error → focus = none) →
            Post store focus t (.returned result) s' := by
          refine fun s' result hs' hpath herror =>
            ⟨_, hs', ⟨fun error hrefusal => ?_, hpath, nofun, fun error heq _ hfocus => ?_⟩⟩
          · rw [haccepted] at hrefusal
            cases hrefusal
          · exact absurd (herror error heq) hfocus
        refine wp_bind_of (bundledMatches_spec expected hkey hφ hs hlook) ?_ ?_
        · rintro found s₁ ⟨hs₁, -, hbundled⟩
          cases found with
          | some path => exact hplain s₁ _ hs₁ (fun path' h => by cases h; exact .inr (hbundled path rfl)) nofun
          | none =>
            refine wp_bind_of (archiveMatchesChecksum_spec expected hφ hs₁ hlook
              (archivePath_not_temporary store hkey)) ?_ ?_
            · rintro value s₂ ⟨hs₂, -⟩
              cases value with
              | true => exact hplain s₂ _ hs₂ (fun path' h => by cases h; exact .inl rfl) nofun
              | false =>
                simp only [Bool.false_eq_true, if_false]
                exact wp_lift_bind (spawn_join_spec hkey hexpected haccepted hs₂)
            · rintro error s₂ ⟨hs₂, hchecked⟩
              refine hplain s₂ _ hs₂ nofun fun error' _ => ?_
              by_contra hfocus
              obtain ⟨answer, hanswer⟩ := hchecked.answered hfocus
              cases hanswer
        · rintro error s₁ ⟨hs₁, hanswered, -⟩
          refine hplain s₁ _ hs₁ nofun fun error' _ => ?_
          by_contra hfocus
          obtain ⟨found, hfound⟩ := hanswered hfocus
          cases hfound

omit [UrlCrate U] in
/-- A detached task starts before anything happened to its job. -/
theorem opened_of_waiting (hinv : Inv store initial focus s) (hwaiting : number ∈ s.waiting)
    (hjob : s.jobs[number]? = some job) (hnew : s.jobOf t = none) :
    Opened t number job { s with
      waiting := s.waiting.erase number
      jobOf := Function.update s.jobOf t (some number) } ∧
      s.locks.handles.lookup t = none := by
  obtain ⟨-, -, hresult, hevents⟩ := hinv.waiting number hwaiting
  refine ⟨⟨⟨Function.update_self .., hjob⟩, ?_, hresult, (hevents job.key).2, (hevents job.key).1⟩, ?_⟩
  · intro hmem
    obtain ⟨n, j, ⟨hn, -⟩, -⟩ := hinv.permits t hmem
    rw [hnew] at hn
    cases hn
  · cases hlookup : s.locks.handles.lookup t with
    | none => rfl
    | some handle =>
      obtain ⟨n, j, ⟨hn, -⟩, -⟩ := hinv.handles t handle hlookup
      rw [hnew] at hn
      cases hn

/-- A new task is verified, and starting it disturbs nobody. -/
theorem start_sound {s' : Shared U} {entry : Entry} {program : Code U Out}
    (hinv : Inv store initial focus s) (hpolicy : (policy (U := U) focus).start t s entry)
    (hstart : start store t s entry = some (program, s')) :
    Keeps store initial focus t s s' ∧ Wp store initial focus t program (Post store focus t) s' := by
  cases entry with
  | call key metadata =>
    simp only [start] at hstart
    split at hstart
    · cases hstart
    · rename_i hunused
      cases hstart
      simp only [Shared.unused, Bool.not_eq_true', Bool.not_eq_false, Bool.and_eq_true,
        Option.isNone_iff_eq_none] at hunused
      refine ⟨keeps_call hinv hunused.2 fun key' expected hfocus hkey => ?_, ?_⟩
      · subst hfocus
        exact hpolicy hkey
      · refine (wp_bind t _ _ _ _).mpr (wp_mono (loadOrFetch_spec ?_) fun result s₁ hs₁ => hs₁)
        exact Function.update_self ..
  | detached number =>
    simp only [start] at hstart
    split at hstart
    · cases hstart
    · rename_i job hjob
      split at hstart
      · rename_i hcond
        cases hstart
        simp only [Shared.unused, Bool.and_eq_true, Option.isNone_iff_eq_none, decide_eq_true_eq]
          at hcond
        obtain ⟨⟨hcall, hnew⟩, hwaiting⟩ := hcond
        obtain ⟨hopened, hfree⟩ := opened_of_waiting hinv hwaiting hjob hnew
        refine ⟨keeps_detach hinv hwaiting hnew hcall, ?_⟩
        exact (wp_bind t _ _ _ _).mpr
          (wp_mono (detached_spec hopened hfree) fun _ _ h => h)
      · cases hstart

omit [SemverCrate] [Sha256Crate] [UrlCrate U] in
/-- Only calls are dropped. -/
theorem cancel_eq {op : Op U} {s' : Shared U} (h : StorageMachine.cancel t s op = some s') :
    s.jobOf t = none ∧ s' = { s with calls := Function.update s.calls t none } := by
  unfold StorageMachine.cancel at h
  split at h
  case h_4 => cases h
  all_goals
    split at h
    · cases h
    · rename_i hsome
      cases h
      exact ⟨by simpa using hsome, rfl⟩

/-- Every obligation of the machine holds. -/
theorem machine_sound (store : ProviderStorage) (initial : Path → Option Node) (focus : Focus) :
    Sound (assertions (U := U) store initial focus) (policy focus) (machine store)
      (Post store focus) where
  exec _ _ _ _ _ _ hinv hpre _ hexec := keeps_exec hinv hpre hexec
  start _ _ _ _ _ hinv hpolicy hstart := by
    obtain ⟨⟨hinv', hframe⟩, hwp⟩ := start_sound hinv hpolicy hstart
    exact ⟨hinv', hframe, hwp⟩
  cancel t s op s' hinv _ _ hcancel := by
    obtain ⟨hjobOf, rfl⟩ := cancel_eq hcancel
    obtain ⟨hinv', hframe⟩ := keeps_drop (t := t) hinv
    exact ⟨hinv', hframe, Function.update_self .., hjobOf⟩
  move _ _ _ hinv _ hmove := keeps_move hinv hmove
  reboot _ _ hinv hpolicy hreboot := by
    cases focus with
    | none => exact keeps_reboot hinv rfl hreboot
    | some pair => exact absurd hpolicy id
  post _ out := keep_post out

omit [UrlCrate U] in
/-- The invariant holds when the process starts over any directory. -/
theorem boot_inv (disk : AList fun _ : Path => Node) (pids : ℕ → ℕ) :
    Inv store (fun path => disk.lookup path) focus (boot (U := U) disk pids) where
  consistent := empty_consistent
  handles t handle h := by simp [boot, LockTable.empty] at h
  archives key _ := .inl rfl
  published := nofun
  renamed_published := nofun
  memo path entry h := by simp [boot] at h
  files_seen path node file _ hnode hopened := by
    refine List.mem_filterMap.mpr ⟨⟨path, node⟩, mem_entries_of_lookup hnode, ?_⟩
    simp [hopened]
  looked := nofun
  hits := nofun
  owner := nofun
  idle _ := ⟨fun _ => rfl, rfl, fun _ => rfl, fun _ => rfl⟩
  permits := nofun
  permits_nodup := List.nodup_nil
  jobs number job h := by simp [boot] at h
  waiting := nofun
  waiting_nodup := List.nodup_nil
  event_lt key number h := by simp [boot] at h
  running_lt := nofun
  running := nofun
  exclusive := nofun
  spawned := nofun
  results := nofun
  calls_agree := nofun
  jobs_agree key expected _ number job h := by simp [boot] at h
  started key expected _ number h := by simp [boot] at h
  ordered _ _ _ := List.Pairwise.nil
  cached key expected _ h := by simp [boot] at h

end Specs

end OpenTfMirror.StorageTasks
