import OpenTfMirror.StorageTasks

/-!
# Calls for a published archive come to their end

Once the archive in focus is in place, no task that works for it waits for a
permit or for the network: the holder of the key's section can run to its end,
after it every other detached task of the key, and then every call.
-/

namespace OpenTfMirror.StorageProgress

open TaskProgram TaskLogic KeyedLocks LockSections TextOps FileNames FileStore Outbound Provider
  Metadata Storage StorageMachine StorageInvariant StorageSteps StorageProofs StorageTasks

section Progress

variable {U : Type} [UrlCrate U] [SemverCrate] [Sha256Crate]
variable {store : ProviderStorage} {initial : Path → Option Node} {focus : Focus} {t : ℕ}
variable {key : ProviderArchiveKey} {expected : String} {s s' : Shared U}

omit [UrlCrate U] [SemverCrate] [Sha256Crate] in
theorem always_eq {α : Type} {result : α × Shared U} {choice : Choice U} {answer : α}
    (h : always result choice = some (answer, s')) : s' = result.2 := by
  cases choice with
  | ok =>
    cases h
    rfl
  | _ => cases h

omit [UrlCrate U] [SemverCrate] [Sha256Crate] in
theorem eventually_eq {α : Type} {result : Option (α × Shared U)} {choice : Choice U}
    {answer : α} (h : eventually result choice = some (answer, s')) :
    result = some (answer, s') := by
  cases choice with
  | ok => exact h
  | _ => cases h

/-- Who runs what is the same, apart from newly spawned jobs. -/
structure SameTasks (s s' : Shared U) : Prop where
  jobOf : s'.jobOf = s.jobOf
  calls : ∀ u call, s.calls u = some call → ∃ job, s'.calls u = some { call with job }

omit [UrlCrate U] [SemverCrate] [Sha256Crate] in
theorem sameTasks_of (hjobOf : s'.jobOf = s.jobOf) (hcalls : s'.calls = s.calls) :
    SameTasks s s' :=
  ⟨hjobOf, fun u call h => ⟨call.job, by rw [hcalls]; exact h⟩⟩

omit [UrlCrate U] [SemverCrate] [Sha256Crate] in
theorem sameTasks_refl (s : Shared U) : SameTasks s s := sameTasks_of rfl rfl

omit [UrlCrate U] [SemverCrate] [Sha256Crate] in
theorem sameTasks_note (s : Shared U) (t : ℕ) (event : ProviderArchiveKey → ℕ → Event) :
    (s.note t event).jobOf = s.jobOf ∧ (s.note t event).calls = s.calls := by
  unfold Shared.note
  split <;> exact ⟨rfl, rfl⟩

omit [UrlCrate U] [SemverCrate] [Sha256Crate] in
theorem sameTasks_write {path : Path} {bytes : Bytes} {choice : Choice U}
    {result : Except IoError Unit} (h : s.write path bytes choice = some (result, s')) :
    SameTasks s s' := by
  unfold Shared.write at h
  split at h
  · split at h
    · split at h <;> cases h
      exact sameTasks_of rfl rfl
    · cases h
  · split at h <;> cases h
    exact sameTasks_of rfl rfl
  · split at h
    · split at h <;> cases h
      exact sameTasks_of rfl rfl
    · cases h
  · cases h
    exact sameTasks_of rfl rfl
  · cases h

omit [UrlCrate U] [SemverCrate] [Sha256Crate] in
theorem sameTasks_renamed (s : Shared U) (t : ℕ) (source target : Path) (file : File) :
    SameTasks s (s.renamed t source target file) := by
  unfold Shared.renamed
  split
  · exact sameTasks_of rfl rfl
  · split <;> exact sameTasks_of rfl rfl

omit [UrlCrate U] [SemverCrate] [Sha256Crate] in
theorem sameTasks_spawn (s : Shared U) (t : ℕ) (job : Job) : SameTasks s (s.spawn t job).2 := by
  refine ⟨rfl, fun u call h => ?_⟩
  by_cases heq : u = t
  · subst heq
    exact ⟨some s.jobs.length, by simp [Shared.spawn, h]⟩
  · exact ⟨call.job, by simp [Shared.spawn, Function.update_of_ne heq, h]⟩

omit [SemverCrate] in
/-- No operation changes who runs what. -/
theorem sameTasks_exec {op : Op U} {choice : Choice U} {answer : Res U op}
    (h : exec store t s op choice = some (answer, s')) : SameTasks s s' := by
  have hattempt : ∀ {s₁ : Shared U} {result : Except IoError Unit},
      s.attempt s₁ choice = some (result, s') → SameTasks s s₁ → SameTasks s s' := by
    intro s₁ result h hsame
    rcases attempt_cases h with ⟨-, rfl⟩ | ⟨-, -, rfl, -⟩
    · exact hsame
    · exact sameTasks_refl s'
  have halways : ∀ {α : Type} {result : α × Shared U} {answer : α},
      always result choice = some (answer, s') → SameTasks s result.2 → SameTasks s s' := by
    intro α result answer h hsame
    rw [always_eq h]
    exact hsame
  cases op with
  | symlinkMetadata path =>
    change s.symlinkMetadata t path choice = some (answer, s') at h
    unfold Shared.symlinkMetadata at h
    split at h
    · split at h <;> cases h <;> exact sameTasks_of rfl rfl
    · cases h
      exact sameTasks_refl s
    · cases h
  | verifiedMatches path identity expected =>
    refine halways h ?_
    unfold Shared.verifiedMatches
    split
    · exact sameTasks_refl s
    · split
      · split <;> exact sameTasks_of rfl rfl
      · exact sameTasks_refl s
  | hashFile path =>
    change s.hashFile store.maxArchiveBytes path choice = some (answer, s') at h
    unfold Shared.hashFile at h
    split at h
    · split at h <;> cases h
      exact sameTasks_refl s
    · split at h
      · cases h
      · split at h <;> cases h
        exact sameTasks_refl s
    · cases h
      exact sameTasks_refl s
    · cases h
  | lock op =>
    obtain ⟨locks, -, heq⟩ := Option.map_eq_some_iff.mp (eventually_eq h)
    cases heq
    exact sameTasks_of rfl rfl
  | acquirePermit =>
    have heq := eventually_eq h
    split at heq <;> cases heq
    exact sameTasks_of rfl rfl
  | createDirAll dir => exact hattempt h (sameTasks_refl s)
  | createNew path =>
    change s.createNew path choice = some (answer, s') at h
    unfold Shared.createNew at h
    split at h
    · split at h <;> cases h
      exact sameTasks_of rfl rfl
    · cases h
      exact sameTasks_refl s
    · cases h
  | outboundGet url =>
    change s.outboundGet store.outbound t url choice = some (answer, s') at h
    unfold Shared.outboundGet at h
    split at h
    · split at h <;> cases h
      obtain ⟨hjobOf, hcalls⟩ := sameTasks_note s t .requested
      exact sameTasks_of hjobOf hcalls
    · cases h
  | writeAll path bytes => exact sameTasks_write h
  | syncAll path =>
    change s.syncAll path choice = some (answer, s') at h
    unfold Shared.syncAll at h
    split at h
    · split at h <;> cases h
      exact sameTasks_refl s
    · cases h
      exact sameTasks_of rfl rfl
    · cases h
  | rename source target =>
    change s.rename t source target choice = some (answer, s') at h
    unfold Shared.rename at h
    split at h
    · split at h <;> cases h
      exact sameTasks_renamed s t source target _
    · cases h
      exact sameTasks_refl s
    · cases h
  | removeFile path => exact hattempt h (sameTasks_of rfl rfl)
  | syncParent dir => exact hattempt h (sameTasks_refl s)
  | join number =>
    obtain ⟨result, -, heq⟩ := Option.map_eq_some_iff.mp (eventually_eq h)
    cases heq
    exact sameTasks_refl s
  | enterDownload =>
    obtain ⟨hjobOf, hcalls⟩ := sameTasks_note s t .entered
    exact halways h (sameTasks_of hjobOf hcalls)
  | finish result =>
    obtain ⟨number, -, heq⟩ := Option.map_eq_some_iff.mp (eventually_eq h)
    cases heq
    exact sameTasks_of rfl rfl
  | recordVerified path identity checksum => exact halways h (sameTasks_of rfl rfl)
  | removeVerified path => exact halways h (sameTasks_of rfl rfl)
  | releasePermit => exact halways h (sameTasks_of rfl rfl)
  | nextSequence => exact halways h (sameTasks_of rfl rfl)
  | processId => exact halways h (sameTasks_refl s)
  | spawn job => exact halways h (sameTasks_spawn s t job)

/-- The archive in focus was renamed into place, and the task works for no other. -/
structure Driving (key : ProviderArchiveKey) (t : ℕ) (s : Shared U) : Prop where
  renamed : ∃ n, .renamed key n ∈ s.events
  own : ∀ number job, Runs t number job s → job.key = key

/-- Its own operations keep a task at work for the archive in focus. -/
theorem driving_exec {op : Op U} {choice : Choice U} {answer : Res U op}
    (hinv : Inv store initial focus s) (h : Driving key t s)
    (hexec : exec store t s op choice = some (answer, s'))
    (hframes : ∀ t', t' ≠ t → Frame store focus t' s s') : Driving key t s' := by
  have hframe := hframes (t + 1) (by omega)
  refine ⟨?_, fun number job hruns => ?_⟩
  · obtain ⟨n, hn⟩ := h.renamed
    exact ⟨n, hframe.events _ hn⟩
  · have hjobOf : s.jobOf t = some number := by
      rw [← (sameTasks_exec hexec).jobOf]
      exact hruns.1
    have hlt := hinv.running_lt t number hjobOf
    have hold : s.jobs[number]? = some s.jobs[number] := List.getElem?_eq_getElem hlt
    have hsame := (hframe.jobs number _ hold).symm.trans hruns.2
    cases hsame
    exact h.own number _ ⟨hjobOf, hold⟩

omit [UrlCrate U] in
/-- With the archive in place, the code of a download is not reached. -/
theorem not_missing (hinv : Inv store initial (some (key, expected)) s) (hkey : ValidKey key)
    (h : Driving key t s) (hruns : ∃ number job, Runs t number job s) :
    ¬Missing store (some (key, expected)) t s := by
  intro hmissing
  obtain ⟨number, job, hruns⟩ := hruns
  exact hmissing key expected rfl number job hruns (h.own number job hruns)
    (hinv.cached key expected rfl h.renamed hkey)

/-- An operation is ready when some answer that fails nothing is defined. -/
theorem ready_of_isSome {pair : ProviderArchiveKey × String} {op : Op U} (choice : Choice U)
    (hcalm : Choice.Calm choice) (h : (exec store t s op choice).isSome) :
    Ready (policy (some pair)) (machine store) t s op := by
  obtain ⟨⟨answer, s'⟩, hexec⟩ := Option.isSome_iff_exists.mp h
  exact ⟨choice, answer, s', hcalm, hexec⟩

omit [SemverCrate] [Sha256Crate] in
/-- A file can be read byte by byte. -/
theorem isReading_bytes (file : File) : IsReading file (file.bytes.map fun b => [b]) := by
  refine ⟨?_, fun read hread => ?_⟩
  · induction file.bytes with
    | nil => rfl
    | cons b bytes ih => rw [List.map_cons, List.flatten_cons, ih]; rfl
  · obtain ⟨b, -, rfl⟩ := List.mem_map.mp hread
    exact ⟨List.cons_ne_nil b [], by simp [hashBufferBytes]⟩

/-- A task for an archive in place waits for nothing but its key and its job. -/
theorem ready_of_driving {op : Op U} (hinv : Inv store initial (some (key, expected)) s)
    (hkey : ValidKey key) (hpre : Pre store (some (key, expected)) t op s) (h : Driving key t s)
    (hacquire : op ≠ .lock .acquire) (hjoin : ∀ number, op ≠ .join number) :
    Ready (policy (some (key, expected))) (machine store) t s op := by
  have hdownload : Inside t s → Missing store (some (key, expected)) t s →
      Ready (policy (some (key, expected))) (machine store) t s op := by
    rintro ⟨number, job, hruns, -⟩ hmissing
    exact absurd hmissing (not_missing hinv hkey h ⟨number, job, hruns⟩)
  have hok : (exec store t s op .ok).isSome →
      Ready (policy (some (key, expected))) (machine store) t s op := ready_of_isSome .ok trivial
  cases op with
  | symlinkMetadata path =>
    refine hok ?_
    change (s.symlinkMetadata t path .ok).isSome
    simp only [Shared.symlinkMetadata]
    split <;> rfl
  | hashFile path =>
    cases hopened : (s.files path).bind Node.opened with
    | none =>
      refine hok ?_
      change (s.hashFile store.maxArchiveBytes path .ok).isSome
      simp [Shared.hashFile, hopened]
    | some file =>
      refine ready_of_isSome (.reads (file.bytes.map fun b => [b])) trivial ?_
      change (s.hashFile store.maxArchiveBytes path (.reads (file.bytes.map fun b => [b]))).isSome
      simp [Shared.hashFile, hopened, isReading_bytes]
  | lock op =>
    refine hok ?_
    cases op with
    | acquire => exact absurd rfl hacquire
    | _ => rfl
  | join number => exact absurd rfl (hjoin number)
  | finish result =>
    obtain ⟨number, job, hruns, -⟩ := hpre
    refine hok ?_
    simp [exec, eventually, hruns.1]
  | acquirePermit => exact hdownload hpre.1 hpre.2.2
  | createDirAll dir => exact hdownload hpre.1 hpre.2
  | nextSequence => exact hdownload hpre.1 hpre.2
  | processId => exact hdownload hpre.1 hpre.2
  | outboundGet url => exact hdownload hpre.1 hpre.2
  | createNew path => exact hdownload hpre.2.1 hpre.2.2
  | writeAll path bytes => exact hdownload hpre.2.1 hpre.2.2
  | syncAll path => exact hdownload hpre.2.1 hpre.2.2
  | removeFile path => exact hdownload hpre.2.1 hpre.2.2
  | rename source target =>
    obtain ⟨-, hmissing, number, job, response, hruns, hholds, -⟩ := hpre
    exact hdownload ⟨number, job, hruns, hholds⟩ hmissing
  | enterDownload =>
    obtain ⟨⟨number, job, hruns, hholds, -⟩, hmissing⟩ := hpre
    exact hdownload ⟨number, job, hruns, hholds⟩ hmissing
  | verifiedMatches path identity checksum => exact hok rfl
  | recordVerified path identity checksum => exact hok rfl
  | removeVerified path => exact hok rfl
  | releasePermit => exact hok rfl
  | syncParent dir => exact hok rfl
  | spawn job => exact hok rfl

/-- The configurations of a run of the store. -/
abbrev Conf (U : Type) : Type := Config (Op U) (Res U) Out (Shared U)

/-- The task number is in use. -/
def Registered (t : ℕ) (s : Shared U) : Prop := s.calls t ≠ none ∨ s.jobOf t ≠ none

/-- What the runs with a focus reach. -/
structure Reached (store : ProviderStorage) (initial : Path → Option Node)
    (pair : ProviderArchiveKey × String) (c : Conf U) : Prop where
  verified : Verified (assertions store initial (some pair)) (policy (some pair)) (machine store)
    (Post store (some pair)) c
  registered : ∀ t, Registered t c.shared → c.tasks t ≠ none
  idle : ∃ n, ∀ t, n ≤ t → c.tasks t = none

variable {pair : ProviderArchiveKey × String}

theorem reached_run {c c' : Conf U} (hc : Reached store initial pair c)
    (hrun : (machine store).Run (policy (some pair)) c c') : Reached store initial pair c' := by
  have hsound := machine_sound (U := U) store initial (some pair)
  obtain ⟨n, hn⟩ := hc.idle
  refine ⟨adequacy hsound hc.verified hrun, ?_, exists_idle hn hrun⟩
  refine task_of_registered hsound Registered ?_ ?_ hc.verified hc.registered hrun
  · intro t s s' hframe h
    unfold Registered at h ⊢
    rw [← Frame.calls hframe, ← Frame.jobOf hframe]
    exact h
  · intro s s' hreboot t h
    cases hreboot
    rcases h with h | h
    · exact h rfl
    · exact h rfl

theorem reached_boot (store : ProviderStorage) (pair : ProviderArchiveKey × String)
    (disk : AList fun _ : Path => Node) (pids : ℕ → ℕ) :
    Reached store (fun path => disk.lookup path) pair
      (⟨boot disk pids, fun _ => none⟩ : Conf U) := by
  refine ⟨verified_idle (boot_inv disk pids), fun t h => ?_, 0, fun _ _ => rfl⟩
  rcases h with h | h
  · exact absurd rfl h
  · exact absurd rfl h

/-- Tasks of jobs ran. What they leave of the calls, the jobs and the events. -/
structure Worked (store : ProviderStorage) (pair : ProviderArchiveKey × String) (c c' : Conf U) :
    Prop where
  run : (machine store).Run (policy (some pair)) c c'
  calls : ∀ t, c.shared.jobOf t = none → c.tasks t ≠ none → c'.tasks t = c.tasks t ∧
    c'.shared.jobOf t = none ∧ c'.shared.calls t = c.shared.calls t
  workers : ∀ t number, c.shared.jobOf t = some number → c'.shared.jobOf t = some number
  jobs : ∀ (number : ℕ) (job : Job), c.shared.jobs[number]? = some job →
    c'.shared.jobs[number]? = some job
  events : ∀ event ∈ c.shared.events, event ∈ c'.shared.events

theorem worked_refl (c : Conf U) : Worked store pair c c :=
  ⟨.refl, fun _ h _ => ⟨rfl, h, rfl⟩, fun _ _ h => h, fun _ _ h => h, fun _ h => h⟩

theorem worked_trans {c₁ c₂ c₃ : Conf U} (h : Worked store pair c₁ c₂)
    (h' : Worked store pair c₂ c₃) : Worked store pair c₁ c₃ := by
  refine ⟨h.run.trans h'.run, fun t hjobOf htask => ?_, fun t n hn => h'.workers t n (h.workers t n hn),
    fun n j hj => h'.jobs n j (h.jobs n j hj), fun e he => h'.events e (h.events e he)⟩
  obtain ⟨htask₂, hjobOf₂, hcall₂⟩ := h.calls t hjobOf htask
  obtain ⟨htask₃, hjobOf₃, hcall₃⟩ := h'.calls t hjobOf₂ (by rw [htask₂]; exact htask)
  exact ⟨htask₃.trans htask₂, hjobOf₃, hcall₃.trans hcall₂⟩

/-- Steps of one task of a job. -/
theorem worked_of_frames {c c' : Conf U} {number : ℕ}
    (hrun : (machine store).Run (policy (some pair)) c c')
    (hothers : ∀ t', t' ≠ t → c'.tasks t' = c.tasks t')
    (hframes : ∀ t', t' ≠ t → Frame store (some pair) t' c.shared c'.shared)
    (hbefore : c.shared.jobOf t = some number) (hafter : c'.shared.jobOf t = some number) :
    Worked store pair c c' := by
  have hnext := hframes (t + 1) (by omega)
  refine ⟨hrun, fun t' hjobOf htask => ?_, fun t' n hn => ?_, hnext.jobs, hnext.events⟩
  · have hne : t' ≠ t := by
      rintro rfl
      rw [hbefore] at hjobOf
      cases hjobOf
    exact ⟨hothers t' hne, (hframes t' hne).jobOf.trans hjobOf, (hframes t' hne).calls⟩
  · by_cases heq : t' = t
    · subst heq
      rw [hbefore] at hn
      cases hn
      exact hafter
    · exact (hframes t' heq).jobOf.trans hn

/-- The task of a job for the archive in focus, which is in place. -/
structure Working (key : ProviderArchiveKey) (t number : ℕ) (s : Shared U) : Prop
    extends Driving key t s where
  jobOf : s.jobOf t = some number

/-- Its own operations keep it so. -/
theorem working_exec {number : ℕ} {op : Op U} {choice : Choice U} {answer : Res U op}
    (hinv : Inv store initial focus s) (h : Working key t number s)
    (hexec : exec store t s op choice = some (answer, s'))
    (hframes : ∀ t', t' ≠ t → Frame store focus t' s s') : Working key t number s' := by
  refine ⟨driving_exec hinv h.toDriving hexec hframes, ?_⟩
  rw [(sameTasks_exec hexec).jobOf]
  exact h.jobOf

/-- It only ever waits for its key. -/
theorem ready_of_working {number : ℕ} {op : Op U}
    (hinv : Inv store initial (some (key, expected)) s) (hkey : ValidKey key)
    (hpre : Pre store (some (key, expected)) t op s) (h : Working key t number s)
    (hacquire : op ≠ .lock .acquire) : Ready (policy (some (key, expected))) (machine store) t s op := by
  refine ready_of_driving hinv hkey hpre h.toDriving hacquire ?_
  rintro n rfl
  obtain ⟨call, hcall, -⟩ := hpre
  have hnone := hinv.exclusive t call hcall
  rw [h.jobOf] at hnone
  cases hnone

omit [UrlCrate U] in
/-- The holder of the key in focus works for the archive in focus. -/
theorem working_of_holds (hinv : Inv store initial focus s)
    (hrenamed : ∃ n, .renamed key n ∈ s.events) {hd : Handle ProviderArchiveKey}
    (hhandle : s.locks.handles.lookup t = some hd) (hhd : hd.key = key) :
    ∃ number, Working key t number s := by
  obtain ⟨number, job, hruns, hjob⟩ := hinv.handles t hd hhandle
  refine ⟨number, ⟨hrenamed, fun n j hj => ?_⟩, hruns.1⟩
  have hn := hj.1.symm.trans hruns.1
  cases hn
  have hsame := hj.2.symm.trans hruns.2
  cases hsame
  exact hjob.trans hhd

/-- The holder of the key in focus can be scheduled until it has left the section. -/
theorem holder_leaves {c : Conf U} (hc : Reached store initial (key, expected) c)
    (hkey : ValidKey key) (hrenamed : ∃ n, .renamed key n ∈ c.shared.events)
    (hholds : c.shared.locks.Holds t key) :
    ∃ c', Worked store (key, expected) c c' ∧ ¬c'.shared.locks.Holds t key ∧
      (∀ t', t' ≠ t → c'.tasks t' = c.tasks t') ∧
      ∀ t', t' ≠ t → Frame store (some (key, expected)) t' c.shared c'.shared := by
  have hsound := machine_sound (U := U) store initial (some (key, expected))
  have hinv := hc.verified.1
  obtain ⟨m, hhandle, -⟩ := hholds
  obtain ⟨number, hworking⟩ := working_of_holds hinv hrenamed hhandle rfl
  cases htask : c.tasks t with
  | none =>
    refine absurd htask (hc.registered t (.inr ?_))
    rw [hworking.jobOf]
    exact Option.some_ne_none number
  | some program =>
    obtain ⟨c', hdriven⟩ := drive hsound (t := t) (φ := Working key t number)
      (fun op => op = .lock .acquire)
      (fun s op choice answer s' hinv _ h hexec _ hframes => working_exec hinv h hexec hframes)
      (fun s op hinv hpre h hstop => ready_of_working hinv hkey hpre h hstop)
      hc.verified htask hworking
    have hc' := reached_run hc hdriven.run
    refine ⟨c', worked_of_frames hdriven.run hdriven.others hdriven.frames hworking.jobOf
      hdriven.kept.jobOf, ?_, hdriven.others, hdriven.frames⟩
    rcases hdriven.stopped with ⟨out, hout⟩ | ⟨op, next, hop, rfl⟩
    · have hpost := hc'.verified.result hout
      cases out with
      | returned result =>
        obtain ⟨call, hcall, -⟩ := hpost
        have hnone := Inv.exclusive hc'.verified.1 t call hcall
        rw [hdriven.kept.jobOf] at hnone
        cases hnone
      | detached =>
        rintro ⟨m', hm', -⟩
        rw [hpost.1] at hm'
        cases hm'
      | dropped =>
        have hnone := hpost.2
        rw [hdriven.kept.jobOf] at hnone
        cases hnone
    · have hpre := hc'.verified.head_pre hop
      exact not_holds_of_outside hpre.1.2

/-- Waiting for its key, a task of the archive in focus can be let in. -/
theorem acquire_ready {c : Conf U} (hc : Reached store initial (key, expected) c)
    (hkey : ValidKey key) {number : ℕ} (hworking : Working key t number c.shared)
    {next : Unit → Code U Out} (htask : c.tasks t = some (.call (.lock .acquire) next)) :
    ∃ c', Worked store (key, expected) c c' ∧ c'.tasks t = c.tasks t ∧
      Ready (policy (some (key, expected))) (machine store) t c'.shared (.lock .acquire) := by
  have hready : ∀ (s : Shared U) L, s.locks.acquire t = some L →
      Ready (policy (some (key, expected))) (machine store) t s (.lock .acquire) := by
    intro s L hL
    refine ready_of_isSome .ok trivial ?_
    simp [exec, eventually, LockTable.perform, hL]
  obtain ⟨⟨⟨k, hhas⟩, hout⟩, -⟩ := hc.verified.head_pre htask
  have hk : k = key := by
    obtain ⟨m, hm⟩ := hhas
    obtain ⟨n, job, hruns, hjob⟩ := Inv.handles hc.verified.1 t _ hm
    exact hjob.symm.trans (hworking.own n job hruns)
  subst hk
  cases hL : c.shared.locks.acquire t with
  | some L => exact ⟨c, worked_refl c, rfl, hready c.shared L hL⟩
  | none =>
    obtain ⟨holder, hholds⟩ := holder_of_blocked (Inv.consistent hc.verified.1) hhas hL
    have hne : t ≠ holder := by
      rintro rfl
      exact not_holds_of_outside hout hholds
    obtain ⟨c', hworked, hleft, hothers, hframes⟩ := holder_leaves hc hkey hworking.renamed hholds
    refine ⟨c', hworked, hothers t hne, ?_⟩
    have hc' := reached_run hc hworked.run
    have hhas' := (hframes t hne).locks.has_iff.mpr hhas
    cases hL' : c'.shared.locks.acquire t with
    | some L => exact hready c'.shared L hL'
    | none =>
      obtain ⟨holder', hholds'⟩ := holder_of_blocked (Inv.consistent hc'.verified.1) hhas' hL'
      have hne' : holder' ≠ holder := by
        rintro rfl
        exact hleft hholds'
      have hbefore := (hframes holder' hne').locks.holds_iff.mp hholds'
      exact absurd (holds_unique (Inv.consistent hc.verified.1) hbefore hholds) hne'

/-- The task of a job for the archive in focus can be scheduled to its end. -/
theorem worker_ends {c : Conf U} {program : Code U Out} {number : ℕ}
    (hc : Reached store initial (key, expected) c) (hkey : ValidKey key)
    (htask : c.tasks t = some program) (hworking : Working key t number c.shared) :
    ∃ c' out, Worked store (key, expected) c c' ∧ c'.tasks t = some (.done out) := by
  have hsound := machine_sound (U := U) store initial (some (key, expected))
  induction program generalizing c with
  | done out => exact ⟨c, out, worked_refl c, htask⟩
  | call op next ih =>
    -- Let the task wait until it is ready, then perform its operation.
    have hwait : ∃ c', Worked store (key, expected) c c' ∧ c'.tasks t = c.tasks t ∧
        Ready (policy (some (key, expected))) (machine store) t c'.shared op := by
      by_cases hacquire : op = .lock .acquire
      · subst hacquire
        exact acquire_ready hc hkey hworking htask
      · exact ⟨c, worked_refl c, rfl, ready_of_working hc.verified.1 hkey
          (hc.verified.head_pre htask) hworking hacquire⟩
    obtain ⟨c₁, hworked, hsame, hready⟩ := hwait
    have hc₁ := reached_run hc hworked.run
    have htask₁ := hsame.trans htask
    have hworking₁ : Working key t number c₁.shared := by
      have hjobOf := hworked.workers t number hworking.jobOf
      refine ⟨⟨?_, fun n j hj => ?_⟩, hjobOf⟩
      · obtain ⟨n, hn⟩ := hworking.renamed
        exact ⟨n, hworked.events _ hn⟩
      · have hn := hj.1.symm.trans hjobOf
        cases hn
        have hlt := Inv.running_lt hc.verified.1 t number hworking.jobOf
        have hold : c.shared.jobs[number]? = some c.shared.jobs[number] :=
          List.getElem?_eq_getElem hlt
        have heq := (hworked.jobs number _ hold).symm.trans hj.2
        cases heq
        exact hworking.own number _ ⟨hworking.jobOf, hold⟩
    obtain ⟨choice, answer, s, hexec, hinv, hframes, hnext⟩ :=
      step_of_ready hsound hc₁.verified htask₁ hready
    have hworking₂ := working_exec hc₁.verified.1 hworking₁ hexec hframes
    have hworked₂ : Worked store (key, expected) c₁
        ⟨s, Function.update c₁.tasks t (some (next answer))⟩ :=
      worked_of_frames (.single hnext) (fun t' hne => Function.update_of_ne hne _ _) hframes
        hworking₁.jobOf hworking₂.jobOf
    obtain ⟨c', out, hworked', hout⟩ := ih answer (reached_run hc₁ (.single hnext))
      (Function.update_self ..) hworking₂
    exact ⟨c', out, worked_trans hworked (worked_trans hworked₂ hworked'), hout⟩

/-- A job for the archive in focus comes to a result. -/
theorem job_ends {c : Conf U} {number : ℕ} {job : Job}
    (hc : Reached store initial (key, expected) c) (hkey : ValidKey key)
    (hrenamed : ∃ n, .renamed key n ∈ c.shared.events) (hjob : c.shared.jobs[number]? = some job)
    (hjobkey : job.key = key) :
    ∃ c' result, Worked store (key, expected) c c' ∧ c'.shared.results number = some result := by
  have hlt := (List.getElem?_eq_some_iff.mp hjob).1
  -- First its task is started, if it has not.
  have hstarted : ∃ c₁ t program, Worked store (key, expected) c c₁ ∧
      c₁.tasks t = some program ∧ c₁.shared.jobOf t = some number := by
    rcases Inv.started hc.verified.1 key expected rfl number hlt with hwaiting | ⟨t, ht⟩
    · obtain ⟨n, hn⟩ := hc.idle
      have hnone : c.tasks n = none := hn n (Nat.le_refl n)
      have hfree : ¬Registered n c.shared := fun h => hc.registered n h hnone
      have hcalls : c.shared.calls n = none := by
        by_contra h
        exact hfree (.inl h)
      have hjobOf : c.shared.jobOf n = none := by
        by_contra h
        exact hfree (.inr h)
      have hunused : (c.shared.unused n && decide (number ∈ c.shared.waiting)) = true := by
        simp [Shared.unused, hcalls, hjobOf, hwaiting]
      let s : Shared U := { c.shared with
        waiting := c.shared.waiting.erase number
        jobOf := Function.update c.shared.jobOf n (some number) }
      let program : Code U Out := detached store job >>= fun _ => .done .detached
      refine ⟨⟨s, Function.update c.tasks n (some program)⟩, n, program, ?_,
        Function.update_self .., Function.update_self ..⟩
      have hnext : (machine store).Next (policy (some (key, expected))) c
          ⟨s, Function.update c.tasks n (some program)⟩ := by
        refine ⟨.start n (.detached number), trivial, ?_⟩
        simp only [Machine.step, hnone]
        change (start store n c.shared (.detached number)).map _ = _
        simp only [start, hjob, hunused, if_true, Option.map_some]
        rfl
      refine ⟨.single hnext, fun t hjobOf' htask => ?_, fun t m hm => ?_, fun _ _ h => h, fun _ h => h⟩
      · have hne : t ≠ n := by
          rintro rfl
          exact htask hnone
        exact ⟨Function.update_of_ne hne _ _, (Function.update_of_ne hne _ _).trans hjobOf', rfl⟩
      · have hne : t ≠ n := by
          rintro rfl
          rw [hjobOf] at hm
          cases hm
        exact (Function.update_of_ne hne _ _).trans hm
    · cases htask : c.tasks t with
      | none =>
        refine absurd htask (hc.registered t (.inr ?_))
        rw [ht]
        exact Option.some_ne_none number
      | some program => exact ⟨c, t, program, worked_refl c, htask, ht⟩
  obtain ⟨c₁, t, program, hworked, htask, hjobOf⟩ := hstarted
  have hc₁ := reached_run hc hworked.run
  have hworking : Working key t number c₁.shared := by
    refine ⟨⟨?_, fun n j hj => ?_⟩, hjobOf⟩
    · obtain ⟨n, hn⟩ := hrenamed
      exact ⟨n, hworked.events _ hn⟩
    · have hn := hj.1.symm.trans hjobOf
      cases hn
      have heq := (hworked.jobs number job hjob).symm.trans hj.2
      cases heq
      exact hjobkey
  obtain ⟨c₂, out, hworked₂, hout⟩ := worker_ends hc₁ hkey htask hworking
  have hc₂ := reached_run hc₁ hworked₂.run
  have hjobOf₂ := hworked₂.workers t number hjobOf
  have hpost := hc₂.verified.result hout
  cases out with
  | returned result =>
    obtain ⟨call, hcall, -⟩ := hpost
    have hnone := Inv.exclusive hc₂.verified.1 t call hcall
    rw [hjobOf₂] at hnone
    cases hnone
  | detached =>
    obtain ⟨-, n, result, hn, hresult⟩ := hpost
    rw [hjobOf₂] at hn
    cases hn
    exact ⟨c₂, result, worked_trans hworked hworked₂, hresult⟩
  | dropped =>
    have hnone := hpost.2
    rw [hjobOf₂] at hnone
    cases hnone

/-- A call for the archive in focus can be scheduled to its end, once the
archive is in place. -/
theorem call_ends {c : Conf U} {program : Code U Out} {call : Call}
    (hc : Reached store initial (key, expected) c) (hkey : ValidKey key)
    (hrenamed : ∃ n, .renamed key n ∈ c.shared.events) (htask : c.tasks t = some program)
    (hcall : c.shared.calls t = some call) (hcallkey : call.key = key) :
    ∃ c' result, (machine store).Run (policy (some (key, expected))) c c' ∧
      c'.tasks t = some (.done (.returned result)) := by
  have hsound := machine_sound (U := U) store initial (some (key, expected))
  induction program generalizing c call with
  | done out =>
    have hpost := hc.verified.result htask
    cases out with
    | returned result => exact ⟨c, result, .refl, htask⟩
    | detached =>
      obtain ⟨-, n, -, hn, -⟩ := hpost
      rw [Inv.exclusive hc.verified.1 t call hcall] at hn
      cases hn
    | dropped =>
      rw [hpost.1] at hcall
      cases hcall
  | call op next ih =>
    have hjobOf := Inv.exclusive hc.verified.1 t call hcall
    have hpre := hc.verified.head_pre htask
    -- Its job, when it has one to wait for, ends first.
    have hwait : ∃ c₁, Worked store (key, expected) c c₁ ∧
        Ready (policy (some (key, expected))) (machine store) t c₁.shared op := by
      by_cases hjoin : ∃ number, op = .join number
      · obtain ⟨number, rfl⟩ := hjoin
        obtain ⟨call', hcall', hnumber⟩ := hpre
        rw [hcall] at hcall'
        cases hcall'
        obtain ⟨job, hjob, hjobkey, -⟩ := Inv.spawned hc.verified.1 t call number hcall hnumber
        obtain ⟨c₁, result, hworked, hresult⟩ :=
          job_ends hc hkey hrenamed hjob (hjobkey.trans hcallkey)
        refine ⟨c₁, hworked, ready_of_isSome .ok trivial ?_⟩
        simp only [exec, eventually, hresult]
        rfl
      · refine ⟨c, worked_refl c, ready_of_driving hc.verified.1 hkey hpre ⟨hrenamed, ?_⟩ ?_ ?_⟩
        · intro number job hruns
          have hnone := hruns.1
          rw [hjobOf] at hnone
          cases hnone
        · rintro rfl
          obtain ⟨-, -, number, job, hruns, -⟩ := hpre
          have hnone := hruns.1
          rw [hjobOf] at hnone
          cases hnone
        · exact fun number heq => hjoin ⟨number, heq⟩
    obtain ⟨c₁, hworked, hready⟩ := hwait
    have hc₁ := reached_run hc hworked.run
    obtain ⟨htask₁, -, hcall₁⟩ := hworked.calls t hjobOf (by rw [htask]; exact Option.some_ne_none _)
    obtain ⟨choice, answer, s, hexec, -, hframes, hnext⟩ :=
      step_of_ready hsound hc₁.verified (htask₁.trans htask) hready
    obtain ⟨job, hcall₂⟩ := (sameTasks_exec hexec).calls t call (hcall₁.trans hcall)
    have hrenamed₂ : ∃ n, .renamed key n ∈ s.events := by
      obtain ⟨n, hn⟩ := hrenamed
      exact ⟨n, Frame.events (hframes (t + 1) (by omega)) _ (hworked.events _ hn)⟩
    obtain ⟨c', result, hrun, hdone⟩ := ih answer (reached_run hc₁ (.single hnext)) hrenamed₂
      (Function.update_self ..) hcall₂ hcallkey
    exact ⟨c', result, hworked.run.trans (.head hnext hrun), hdone⟩

end Progress

end OpenTfMirror.StorageProgress
