import OpenTfMirror.StorageMachine

/-!
# What every step of the archive store keeps

The invariant of the shared state, the frame of each task, and the precondition
of each operation. A focus follows one key and one checksum through runs in
which no local file operation fails and the process does not die; without a
focus everything may happen.
-/

namespace OpenTfMirror.StorageInvariant

open TaskProgram TaskLogic KeyedLocks TextOps FileNames FileStore Outbound Provider Metadata Storage
  StorageMachine

/-- The key and the checksum that a run is about. -/
abbrev Focus := Option (ProviderArchiveKey × String)

section Definitions

variable {U : Type} [SemverCrate] [Sha256Crate]

/-- Keys that `validate_key` accepts. -/
def ValidKey (key : ProviderArchiveKey) : Prop := validateKey key = .ok ()

/-- Jobs as `load_or_fetch` spawns them. -/
structure AcceptedJob (store : ProviderStorage) (job : Job) : Prop where
  key : ValidKey job.key
  destination : job.destination = store.archivePath job.key
  expected : expectedChecksum job.metadata = .ok job.expected

/-- A complete archive: all chunks of one response, within the bound, with the
expected checksum. -/
structure VerifiedPublication (store : ProviderStorage) (p : Publication U) : Prop where
  accepted : AcceptedJob store p.job
  body : ∃ chunks : List Bytes, p.response.chunks = chunks.map .ok ∧ p.file.bytes = chunks.flatten
  size : p.file.bytes.length ≤ store.maxArchiveBytes
  digest : sha256Hex p.file.bytes = p.job.expected

/-- The archive of the key is in place, with this checksum. -/
def Cached (store : ProviderStorage) (key : ProviderArchiveKey) (expected : String)
    (s : Shared U) : Prop :=
  ∃ file, s.files (store.archivePath key) = some (.regular file) ∧
    file.bytes.length ≤ store.maxArchiveBytes ∧ sha256Hex file.bytes = expected

/-- The task runs this job. -/
def Runs (t number : ℕ) (job : Job) (s : Shared U) : Prop :=
  s.jobOf t = some number ∧ s.jobs[number]? = some job

/-- The task runs a job inside the section of the job's key. -/
def Inside (t : ℕ) (s : Shared U) : Prop :=
  ∃ number job, Runs t number job s ∧ s.locks.Holds t job.key

/-- The task's archive is not in place, when it is the one in focus. -/
def Missing (store : ProviderStorage) (focus : Focus) (t : ℕ) (s : Shared U) : Prop :=
  ∀ key expected, focus = some (key, expected) → ∀ number job, Runs t number job s →
    job.key = key → ¬Cached store key expected s

/-- The path is a temporary file of the task. -/
def Owns (store : ProviderStorage) (t : ℕ) (path : Path) (s : Shared U) : Prop :=
  Below store.root path ∧ ∃ dir base pid n, path = tempPath dir base pid n ∧ s.owner n = some t

/-- No download of the key is entered, and nothing requested, after a rename. -/
def Ordered (key : ProviderArchiveKey) (events : List Event) : Prop :=
  events.Pairwise fun later earlier => ∀ n m,
    later = .entered key n ∨ later = .requested key n → earlier ≠ .renamed key m

/-- A result of a job: one of its two paths, and the destination after a
download, or an error of a download that was entered and renamed nothing. -/
structure JobResult (store : ProviderStorage) (focus : Focus) (events : List Event) (number : ℕ)
    (job : Job) (result : Except ProviderStorageError Path) : Prop where
  path : ∀ path, result = .ok path → path = job.destination ∨ store.bundledPath job.key = some path
  downloaded : ∀ path, result = .ok path → .entered job.key number ∈ events →
    path = job.destination ∧ .renamed job.key number ∈ events
  error : ∀ key expected error, focus = some (key, expected) → job.key = key →
    result = .error error → .entered key number ∈ events ∧ .renamed key number ∉ events

/-- The invariant of the store that was started over the initial files. -/
structure Inv (store : ProviderStorage) (initial : Path → Option Node) (focus : Focus)
    (s : Shared U) : Prop where
  consistent : s.locks.Consistent
  /-- Tasks lock the keys of their jobs. -/
  handles : ∀ t h, s.locks.handles.lookup t = some h → ∃ number job, Runs t number job s ∧ job.key = h.key
  /-- An archive is what it was, or was published. -/
  archives : ∀ key, ValidKey key →
    s.files (store.archivePath key) = initial (store.archivePath key) ∨
      ∃ p ∈ s.published, p.job.key = key ∧
        s.files (store.archivePath key) = some (.regular p.file)
  published : ∀ p ∈ s.published, VerifiedPublication store p ∧ s.jobs[p.number]? = some p.job
  renamed_published : ∀ key number, .renamed key number ∈ s.events →
    ∃ p ∈ s.published, p.number = number ∧ p.job.key = key
  /-- Memo entries were computed from a file seen at their path. -/
  memo : ∀ path entry, s.verified.lookup path = some entry → ∃ file, (path, file) ∈ s.seen ∧
    file.identity = entry.identity ∧ sha256Hex file.bytes = entry.checksum
  files_seen : ∀ path node file, ¬Temporary path → s.files path = some node →
    node.opened = some file → (path, file) ∈ s.seen
  looked : ∀ t path file, s.looked t = some (path, file) → (path, file) ∈ s.seen
  hits : ∀ hit ∈ s.hits, (hit.path, hit.file) ∈ s.seen ∧
    hit.file.bytes.length ≤ store.maxArchiveBytes ∧ ∃ file, (hit.path, file) ∈ s.seen ∧
    file.identity = hit.file.identity ∧ sha256Hex file.bytes = hit.checksum
  owner : ∀ n t, s.owner n = some t → n < s.sequence
  /-- Nothing runs before requests are served. -/
  idle : s.serving = false → (∀ t, s.calls t = none) ∧ s.waiting = [] ∧
    (∀ t, s.jobOf t = none) ∧ ∀ n, s.owner n = none
  permits : ∀ t ∈ s.permits, Inside t s
  permits_nodup : s.permits.Nodup
  jobs : ∀ (number : ℕ) (job : Job), s.jobs[number]? = some job → AcceptedJob store job
  waiting : ∀ number ∈ s.waiting, number < s.jobs.length ∧ (∀ t, s.jobOf t ≠ some number) ∧
    s.results number = none ∧ ∀ key, .renamed key number ∉ s.events ∧ .entered key number ∉ s.events
  waiting_nodup : s.waiting.Nodup
  event_lt : ∀ key number, .renamed key number ∈ s.events ∨ .entered key number ∈ s.events →
    number < s.jobs.length
  running_lt : ∀ t number, s.jobOf t = some number → number < s.jobs.length
  running : ∀ t t' number, s.jobOf t = some number → s.jobOf t' = some number → t = t'
  /-- Calls and detached tasks have different numbers. -/
  exclusive : ∀ t call, s.calls t = some call → s.jobOf t = none
  spawned : ∀ t call number, s.calls t = some call → call.job = some number →
    ∃ job, s.jobs[number]? = some job ∧ job.key = call.key ∧ job.metadata = call.metadata
  results : ∀ number result, s.results number = some result →
    ∃ job, s.jobs[number]? = some job ∧ JobResult store focus s.events number job result
  /-- All calls for the key in focus expect the checksum in focus. -/
  calls_agree : ∀ key expected, focus = some (key, expected) → ∀ t call, s.calls t = some call →
    call.key = key → ∀ e, expectedChecksum call.metadata = .ok e → e = expected
  jobs_agree : ∀ key expected, focus = some (key, expected) → ∀ (number : ℕ) (job : Job),
    s.jobs[number]? = some job → job.key = key → job.expected = expected
  /-- Every job has its task. -/
  started : ∀ key expected, focus = some (key, expected) → ∀ number, number < s.jobs.length →
    number ∈ s.waiting ∨ ∃ t, s.jobOf t = some number
  ordered : ∀ key expected, focus = some (key, expected) → Ordered key s.events
  cached : ∀ key expected, focus = some (key, expected) → (∃ n, .renamed key n ∈ s.events) →
    ValidKey key → Cached store key expected s

/-- What the others leave unchanged for a task. -/
structure Frame (store : ProviderStorage) (focus : Focus) (t : ℕ) (s s' : Shared U) : Prop where
  locks : s.locks.Same t s'.locks
  seen : ∀ x ∈ s.seen, x ∈ s'.seen
  /-- The archive whose lock the task holds. -/
  archive : ∀ key, ValidKey key → s.locks.Holds t key →
    s'.files (store.archivePath key) = s.files (store.archivePath key)
  /-- The task's temporary files. -/
  temps : ∀ path, Owns store t path s → Owns store t path s' ∧ s'.files path = s.files path ∧
    s'.unreported path = s.unreported path
  looked : s'.looked t = s.looked t
  responses : s'.responses t = s.responses t
  permits : t ∈ s'.permits ↔ t ∈ s.permits
  jobOf : s'.jobOf t = s.jobOf t
  jobs : ∀ (number : ℕ) (job : Job), s.jobs[number]? = some job → s'.jobs[number]? = some job
  calls : s'.calls t = s.calls t
  events : ∀ event ∈ s.events, event ∈ s'.events
  finished : ∀ number result, s.results number = some result → s'.results number = some result
  /-- Nobody else finishes the task's job, enters its download or renames for it. -/
  results : ∀ number, s.jobOf t = some number → s'.results number = s.results number
  renames : ∀ key number, s.jobOf t = some number → .renamed key number ∈ s'.events →
    .renamed key number ∈ s.events
  entries : ∀ key number, s.jobOf t = some number → .entered key number ∈ s'.events →
    .entered key number ∈ s.events
  /-- The archive in focus stays. -/
  cached : ∀ key expected, focus = some (key, expected) → ValidKey key →
    Cached store key expected s → Cached store key expected s'

/-- What a task needs before each operation. -/
def Pre (store : ProviderStorage) (focus : Focus) (t : ℕ) (op : Op U) (s : Shared U) : Prop :=
  match op with
  | .symlinkMetadata path | .hashFile path => ¬Temporary path
  | .verifiedMatches path identity _ =>
    ∃ file, s.looked t = some (path, file) ∧ file.identity = identity ∧
      file.bytes.length ≤ store.maxArchiveBytes
  | .recordVerified path identity checksum => ∃ file, (path, file) ∈ s.seen ∧
      file.identity = identity ∧ sha256Hex file.bytes = checksum
  | .removeVerified _ => True
  | .lock op => op.Pre s.locks t ∧ t ∉ s.permits ∧
      ∃ number job, Runs t number job s ∧ ∀ key, op = .lockFor key → key = job.key
  | .acquirePermit => Inside t s ∧ t ∉ s.permits ∧ Missing store focus t s
  | .releasePermit | .syncParent _ => Inside t s
  | .enterDownload =>
    (∃ number job, Runs t number job s ∧ s.locks.Holds t job.key ∧ s.results number = none) ∧
      Missing store focus t s
  | .createDirAll _ | .nextSequence | .processId | .outboundGet _ =>
    Inside t s ∧ Missing store focus t s
  | .createNew path | .writeAll path _ | .syncAll path | .removeFile path =>
    Owns store t path s ∧ Inside t s ∧ Missing store focus t s
  | .rename source target => Owns store t source s ∧ Missing store focus t s ∧
      ∃ number job response, Runs t number job s ∧ s.locks.Holds t job.key ∧
        s.results number = none ∧ target = job.destination ∧ s.responses t = some response ∧
        ∀ file, s.files source = some (.regular file) →
          VerifiedPublication store ⟨number, job, response, file⟩
  | .spawn job => AcceptedJob store job ∧ ∃ call, s.calls t = some call ∧ call.key = job.key ∧
      call.metadata = job.metadata
  | .join number => ∃ call, s.calls t = some call ∧ call.job = some number
  | .finish result => ∃ number job, Runs t number job s ∧ s.results number = none ∧
      JobResult store focus s.events number job result

/-- The answers of runs with a focus: no local file operation fails. -/
def Choice.Calm : Choice U → Prop
  | .fail _ | .cut _ _ | .lost _ => False
  | _ => True

/-- The runs with a focus. -/
def policy : Focus → Policy (Op U) (Shared U) (Choice U) Entry Move
  | none => .free
  | some (key, expected) => {
    start := fun _ _ entry =>
      match entry with
      | .call key' metadata =>
        key' = key → ∀ e, expectedChecksum metadata = .ok e → e = expected
      | .detached _ => True
    run := fun _ _ _ choice => Choice.Calm choice
    cancel := fun _ _ _ => True
    move := fun _ _ => True
    reboot := False }

end Definitions

section Paths

/-- Archives are below the data directory. -/
theorem archivePath_below (store : ProviderStorage) (key : ProviderArchiveKey) :
    Below store.root (store.archivePath key) := List.prefix_append _ _

/-- Different keys have different archives. -/
theorem archivePath_inj (store : ProviderStorage) {key key' : ProviderArchiveKey}
    (h : store.archivePath key = store.archivePath key') : key = key' := by
  have hparts := List.append_cancel_left h
  cases key
  cases key'
  simpa using hparts

variable [SemverCrate]

/-- A valid key's file name has the ending of an archive. -/
theorem validKey_filename {key : ProviderArchiveKey} (h : ValidKey key) :
    ∃ stem, key.filename = stem ++ ".zip" := by
  unfold ValidKey validateKey at h
  split at h
  · cases h
  · rename_i hchecks
    cases hparse : ArchiveName.parse key.providerType key.filename with
    | error message => simp [hparse, Except.isOk, Except.toBool] at hchecks
    | ok name => exact (parse_wellformed hparse).2

/-- Archives have no temporary names. -/
theorem archivePath_not_temporary (store : ProviderStorage) {key : ProviderArchiveKey}
    (h : ValidKey key) : ¬Temporary (store.archivePath key) := by
  obtain ⟨stem, hstem⟩ := validKey_filename h
  have hpath : store.archivePath key = (store.root ++
      ["providers", key.hostname, key.providerNamespace, key.providerType]) ++ [stem ++ ".zip"] := by
    rw [ProviderStorage.archivePath, hstem]
    simp
  rw [hpath]
  exact not_temporary (by decide) (by decide)

/-- Neither have bundled archives. -/
theorem bundledPath_not_temporary (store : ProviderStorage) {key : ProviderArchiveKey}
    (h : ValidKey key) {path : Path} (hpath : store.bundledPath key = some path) :
    ¬Temporary path := by
  obtain ⟨stem, hstem⟩ := validKey_filename h
  simp only [ProviderStorage.bundledPath, Option.map_eq_some_iff] at hpath
  obtain ⟨root, -, rfl⟩ := hpath
  have hpath' : root ++ [key.hostname, key.providerNamespace, key.providerType, key.filename] =
      (root ++ [key.hostname, key.providerNamespace, key.providerType]) ++ [stem ++ ".zip"] := by
    rw [hstem]
    simp
  rw [hpath']
  exact not_temporary (by decide) (by decide)

end Paths

end OpenTfMirror.StorageInvariant
