import OpenTfMirror.Storage

/-!
# The archive store as a machine

The state that all calls and detached downloads share, and what each operation
does to it. The environment picks the answers: which I/O calls fail, how reads
and writes are cut, and what the network says. Only this process writes below
the data directory; other paths may be replaced by anyone at any time.

The last fields are a record of the run. No operation reads them.
-/

namespace OpenTfMirror.StorageMachine

open TaskProgram TaskLogic KeyedLocks TextOps FileNames FileStore Outbound Provider Metadata Storage

/-- One call of `load_or_fetch`, with the job it spawned. -/
structure Call where
  key : ProviderArchiveKey
  metadata : PlatformMetadata
  job : Option ℕ
  deriving DecidableEq, Repr

/-- An archive that was renamed into place. -/
structure Publication (U : Type) where
  /-- The number of the job that did it. -/
  number : ℕ
  job : Job
  /-- The response it came from. -/
  response : Response U
  file : File

/-- What the download of a job did, for the order of events. -/
inductive Event where
  | entered (key : ProviderArchiveKey) (number : ℕ)
  | requested (key : ProviderArchiveKey) (number : ℕ)
  | renamed (key : ProviderArchiveKey) (number : ℕ)
  deriving DecidableEq, Repr

/-- A memo hit: the path, the file that was looked at, and the checksum. -/
structure Hit where
  path : Path
  file : File
  checksum : String
  deriving DecidableEq, Repr

structure Shared (U : Type) where
  files : Path → Option Node
  verified : AList fun _ : Path => VerifiedFile
  locks : LockTable ProviderArchiveKey
  /-- Tasks that hold a download permit. -/
  permits : List ℕ
  sequence : ℕ
  /-- How often the process was started, and its number after each start. -/
  starts : ℕ
  pids : ℕ → ℕ
  /-- Requests are being served. -/
  serving : Bool
  /-- Every spawned job, and those whose task has not started. -/
  jobs : List Job
  waiting : List ℕ
  /-- The job of a detached task, and its result once it has finished. -/
  jobOf : ℕ → Option ℕ
  results : ℕ → Option (Except ProviderStorageError Path)
  /-- Files with a failed write that was not reported yet. -/
  unreported : Path → Bool
  /-- The calls of `load_or_fetch` that were not dropped, by task. -/
  calls : ℕ → Option Call
  /-- The task that drew a sequence number since the start. -/
  owner : ℕ → Option ℕ
  /-- The last response of a task. -/
  responses : ℕ → Option (Response U)
  /-- The last regular file that a task looked at. -/
  looked : ℕ → Option (Path × File)
  /-- Every regular file that a path has led to, apart from temporary ones. -/
  seen : List (Path × File)
  hits : List Hit
  published : List (Publication U)
  /-- Requests and renames, the latest first. -/
  events : List Event

/-- The answers of the environment. -/
inductive Choice (U : Type) where
  | ok
  | fail (message : String)
  /-- The inode data of a new file. -/
  | created (modified : Option ℕ) (dev ino : ℕ)
  /-- The write stops after some bytes, and says so. -/
  | cut (n : ℕ) (message : String)
  /-- The write stops after some bytes; a later operation reports it. -/
  | lost (n : ℕ)
  /-- How reading a file to its end is cut. -/
  | reads (chunks : List Bytes)
  | network (answers : ℕ → Answer U)

/-- What can start a task. -/
inductive Entry where
  | call (key : ProviderArchiveKey) (metadata : PlatformMetadata)
  | detached (job : ℕ)

/-- What happens besides the tasks. -/
inductive Move where
  /-- Somebody replaces what stands at a path outside the data directory. -/
  | replace (path : Path) (node : Option Node)
  /-- Start-up removes a stale temporary file. -/
  | removeStale (path : Path)

/-- How a task ends. -/
inductive Out where
  | returned (result : Except ProviderStorageError Path)
  | detached
  | dropped

/-- The loop of `hash_file` over the reads; `none` when the bound is exceeded. -/
def hashLoop (maxBytes : ℕ) : List Bytes → ℕ → Bytes → Option Bytes
  | [], _, hashed => some hashed
  | read :: rest, total, hashed =>
    let total := min (total + read.length) (2 ^ 64 - 1)
    if maxBytes < total then none else hashLoop maxBytes rest total (hashed ++ read)

/-- `hash_file` on the file it opened. -/
def hashOpened [Sha256Crate] (maxBytes : ℕ) (file : File) (reads : List Bytes) :
    Option (String × FileIdentity) :=
  if maxBytes < file.identity.len then none
  else (hashLoop maxBytes reads 0 []).map fun hashed => (sha256Hex hashed, file.identity)

/-- The reads reach the end of the file, each filling part of the buffer. -/
def IsReading (file : File) (reads : List Bytes) : Prop :=
  reads.flatten = file.bytes ∧ ∀ read ∈ reads, read ≠ [] ∧ read.length ≤ hashBufferBytes

instance (file : File) (reads : List Bytes) : Decidable (IsReading file reads) :=
  inferInstanceAs (Decidable (_ ∧ _))

/-- The name that `remove_stale_temp_files` looks for. -/
def isStaleName (path : Path) : Bool :=
  path.getLast?.any fun name => (stripPrefix "." name).isSome && (stripSuffix ".tmp" name).isSome

section Machine

variable {U : Type}

/-- `ProviderStorage::record_verified`. -/
def memoRecord (verified : AList fun _ : Path => VerifiedFile) (path : Path)
    (identity : FileIdentity) (checksum : String) : AList fun _ : Path => VerifiedFile :=
  let kept := if maxVerifiedEntries ≤ verified.entries.length ∧ path ∉ verified then ∅ else verified
  kept.insert path ⟨identity, checksum⟩

/-- The longest file: the largest `off_t`. -/
def maxFileBytes : ℕ := 2 ^ 63 - 1

/-- The file at a path after a write of these bytes. -/
def Shared.append (s : Shared U) (path : Path) (file : File) (bytes : Bytes) : Shared U :=
  { s with
    files := Function.update s.files path (some (.regular { file with bytes := file.bytes ++ bytes })) }

/-- `write_all` to the open file at a path. -/
def Shared.write (s : Shared U) (path : Path) (bytes : Bytes) :
    Choice U → Option (Except IoError Unit × Shared U)
  | .ok =>
    match s.files path with
    | some (.regular file) =>
      if s.unreported path || maxFileBytes < file.bytes.length + bytes.length then none
      else some (.ok (), s.append path file bytes)
    | _ => none
  | .cut n message =>
    match s.files path with
    | some (.regular file) => some (.error (.other message), s.append path file (bytes.take n))
    | _ => none
  | .lost n =>
    match s.files path with
    | some (.regular file) =>
      if s.unreported path then none
      else some (.ok (),
        { s.append path file (bytes.take n) with unreported := Function.update s.unreported path true })
    | _ => none
  | .fail message =>
    some (.error (.other message), { s with unreported := Function.update s.unreported path false })
  | _ => none

/-- An operation that only succeeds or fails. -/
def Shared.attempt (s s' : Shared U) : Choice U → Option (Except IoError Unit × Shared U)
  | .ok => some (.ok (), s')
  | .fail message => some (.error (.other message), s)
  | _ => none

/-- The rename of a finished download, with its entry in the record. -/
def Shared.renamed (s : Shared U) (t : ℕ) (source target : Path) (file : File) : Shared U :=
  let s' := { s with
    files := Function.update (Function.update s.files source none) target (some (.regular file))
    seen := (target, file) :: s.seen }
  match s.jobOf t with
  | none => s'
  | some number =>
    match s.jobs[number]?, s.responses t with
    | some job, some response => { s' with
        published := ⟨number, job, response, file⟩ :: s.published
        events := .renamed job.key number :: s.events }
    | _, _ => s'

/-- The key and the job number of a detached task. -/
def Shared.keyOf (s : Shared U) (t : ℕ) : Option (ProviderArchiveKey × ℕ) :=
  (s.jobOf t).bind fun number => (s.jobs[number]?).map fun job => (job.key, number)

/-- Add an event of the task's job to the record. -/
def Shared.note (s : Shared U) (t : ℕ) (event : ProviderArchiveKey → ℕ → Event) : Shared U :=
  match s.keyOf t with
  | none => s
  | some (key, number) => { s with events := event key number :: s.events }

variable [Sha256Crate]

/-- `symlink_metadata`. -/
def Shared.symlinkMetadata (s : Shared U) (t : ℕ) (path : Path) :
    Choice U → Option (Except IoError FileMetadata × Shared U)
  | .ok =>
    match s.files path with
    | none => some (.error .notFound, s)
    | some (.regular file) => some (.ok ⟨true, file.identity⟩,
        { s with looked := Function.update s.looked t (some (path, file)) })
    | some _ => some (.ok ⟨false, ⟨0, none, 0, 0⟩⟩, s)
  | .fail message => some (.error (.other message), s)
  | _ => none

/-- The lookup in the memo, which records its hits. -/
def Shared.verifiedMatches (s : Shared U) (t : ℕ) (path : Path) (identity : FileIdentity)
    (expected : String) : Bool × Shared U :=
  match s.verified.lookup path with
  | none => (false, s)
  | some entry =>
    if entry.identity = identity ∧ entry.checksum = expected then
      match s.looked t with
      | some (_, file) => (true, { s with hits := ⟨path, file, expected⟩ :: s.hits })
      | none => (true, s)
    else (false, s)

/-- `hash_file`: open the path and read what was opened. -/
def Shared.hashFile (s : Shared U) (maxBytes : ℕ) (path : Path) :
    Choice U → Option (Except IoError (Option (String × FileIdentity)) × Shared U)
  | .ok => if (s.files path).bind Node.opened = none then some (.ok none, s) else none
  | .reads reads =>
    match (s.files path).bind Node.opened with
    | none => none
    | some file =>
      if IsReading file reads then some (.ok (hashOpened maxBytes file reads), s) else none
  | .fail message => some (.error (.other message), s)
  | _ => none

/-- `create_new`. -/
def Shared.createNew (s : Shared U) (path : Path) :
    Choice U → Option (Except IoError Unit × Shared U)
  | .created modified dev ino =>
    match s.files path with
    | some _ => none
    | none => some (.ok (), { s with
        files := Function.update s.files path (some (.regular ⟨[], modified, dev, ino⟩))
        unreported := Function.update s.unreported path false })
  | .fail message => some (.error (.other message), s)
  | _ => none

/-- `sync_all` reports a failed write at the latest. -/
def Shared.syncAll (s : Shared U) (path : Path) :
    Choice U → Option (Except IoError Unit × Shared U)
  | .ok => if s.unreported path then none else some (.ok (), s)
  | .fail message =>
    some (.error (.other message), { s with unreported := Function.update s.unreported path false })
  | _ => none

/-- `rename` of a regular file. -/
def Shared.rename (s : Shared U) (t : ℕ) (source target : Path) :
    Choice U → Option (Except IoError Unit × Shared U)
  | .ok =>
    match s.files source with
    | some (.regular file) => some (.ok (), s.renamed t source target file)
    | _ => none
  | .fail message => some (.error (.other message), s)
  | _ => none

/-- The outbound request, answered by the network. -/
def Shared.outboundGet [UrlCrate U] (s : Shared U) (client : OutboundClient) (t : ℕ) (url : U) :
    Choice U → Option (Except OutboundError (Response U) × Shared U)
  | .network answers =>
    match (client.get answers url).outcome with
    | .unreachable => none
    | .returned result => some (result,
        { s.note t .requested with responses := Function.update s.responses t result.toOption })
  | _ => none

/-- `tokio::spawn`, with the job entered in the record of the call. -/
def Shared.spawn (s : Shared U) (t : ℕ) (job : Job) : ℕ × Shared U :=
  (s.jobs.length, { s with
    jobs := s.jobs ++ [job]
    waiting := s.jobs.length :: s.waiting
    calls := Function.update s.calls t
      ((s.calls t).map fun call => { call with job := some s.jobs.length }) })

/-- An operation that cannot fail. -/
def always {α : Type} (result : α × Shared U) : Choice U → Option (α × Shared U)
  | .ok => some result
  | _ => none

/-- An operation that cannot fail but may have to wait. -/
def eventually {α : Type} (result : Option (α × Shared U)) : Choice U → Option (α × Shared U)
  | .ok => result
  | _ => none

variable [UrlCrate U] [SemverCrate]

/-- One atomic operation of a task. -/
def exec (self : ProviderStorage) (t : ℕ) (s : Shared U) (op : Op U) (choice : Choice U) :
    Option (Res U op × Shared U) :=
  match op with
  | .symlinkMetadata path => s.symlinkMetadata t path choice
  | .verifiedMatches path identity expected =>
    always (s.verifiedMatches t path identity expected) choice
  | .hashFile path => s.hashFile self.maxArchiveBytes path choice
  | .recordVerified path identity checksum =>
    always ((), { s with verified := memoRecord s.verified path identity checksum }) choice
  | .removeVerified path => always ((), { s with verified := s.verified.erase path }) choice
  | .lock op => eventually ((s.locks.perform t op).map fun locks => ((), { s with locks })) choice
  | .acquirePermit =>
    eventually (if s.permits.length < maxConcurrentDownloads then
      some ((), { s with permits := t :: s.permits }) else none) choice
  | .releasePermit => always ((), { s with permits := s.permits.erase t }) choice
  | .createDirAll _ => s.attempt s choice
  | .nextSequence => always (s.sequence, { s with
      sequence := s.sequence + 1
      owner := Function.update s.owner s.sequence (some t) }) choice
  | .processId => always (s.pids s.starts, s) choice
  | .createNew path => s.createNew path choice
  | .outboundGet url => s.outboundGet self.outbound t url choice
  | .writeAll path bytes => s.write path bytes choice
  | .syncAll path => s.syncAll path choice
  | .rename source target => s.rename t source target choice
  | .removeFile path => s.attempt { s with files := Function.update s.files path none } choice
  | .syncParent _ => s.attempt s choice
  | .spawn job => always (s.spawn t job) choice
  | .join number => eventually ((s.results number).map fun result => (result, s)) choice
  | .enterDownload => always ((), s.note t .entered) choice
  | .finish result =>
    eventually ((s.jobOf t).map fun number =>
      ((), { s with results := Function.update s.results number (some result) })) choice

/-- The task number was not used since the process started. -/
def Shared.unused (s : Shared U) (t : ℕ) : Bool := (s.calls t).isNone && (s.jobOf t).isNone

/-- A call from outside, or the detached task of a spawned job. -/
def start (self : ProviderStorage) (t : ℕ) (s : Shared U) :
    Entry → Option (Code U Out × Shared U)
  | .call key metadata =>
    if !s.unused t then none
    else some ((loadOrFetch self key metadata).run >>= fun result => .done (.returned result),
      { s with serving := true, calls := Function.update s.calls t (some ⟨key, metadata, none⟩) })
  | .detached number =>
    match s.jobs[number]? with
    | none => none
    | some job =>
      if s.unused t && number ∈ s.waiting then
        some (Storage.detached self job >>= fun _ => .done .detached,
          { s with
            waiting := s.waiting.erase number
            jobOf := Function.update s.jobOf t (some number) })
      else none

/-- `path` is below the directory. -/
def Below (dir path : Path) : Prop := dir <+: path

instance (dir path : Path) : Decidable (Below dir path) := inferInstanceAs (Decidable (dir <+: path))

/-- Steps outside the tasks. -/
def move (self : ProviderStorage) (s : Shared U) : Move → Option (Shared U)
  | .replace path node =>
    if Below self.root path then none
    else some { s with
      files := Function.update s.files path node
      seen := ((node.bind Node.opened).toList.map fun file => (path, file)) ++ s.seen }
  | .removeStale path =>
    if Below (self.root ++ ["providers"]) path ∧ isStaleName path ∧ s.serving = false then
      some { s with files := Function.update s.files path none }
    else none

/-- A detached task runs on; a call may be dropped where it waits. -/
def cancel (t : ℕ) (s : Shared U) : Op U → Option (Shared U)
  | .symlinkMetadata _ | .hashFile _ | .join _ =>
    if (s.jobOf t).isSome then none else some { s with calls := Function.update s.calls t none }
  | _ => none

/-- The process died and was started again: the files stay. -/
def reboot (s : Shared U) : Option (Shared U) :=
  some { s with
    verified := ∅
    locks := .empty
    permits := []
    sequence := 0
    starts := s.starts + 1
    serving := false
    waiting := []
    jobOf := fun _ => none
    unreported := fun _ => false
    calls := fun _ => none
    owner := fun _ => none
    responses := fun _ => none
    looked := fun _ => none }

/-- The store with any number of callers. -/
def machine (self : ProviderStorage) :
    Machine (Op U) (Res U) Out (Shared U) (Choice U) Entry Move where
  exec := exec self
  start := start self
  move := move self
  cancel := cancel
  unwind := .done .dropped
  reboot := reboot

/-- A service that starts over any directory. -/
def boot (disk : AList fun _ : Path => Node) (pids : ℕ → ℕ) : Shared U where
  files path := disk.lookup path
  verified := ∅
  locks := .empty
  permits := []
  sequence := 0
  starts := 0
  pids
  serving := false
  jobs := []
  waiting := []
  jobOf := fun _ => none
  results := fun _ => none
  unreported := fun _ => false
  calls := fun _ => none
  owner := fun _ => none
  responses := fun _ => none
  looked := fun _ => none
  seen := disk.entries.filterMap fun entry => entry.2.opened.map fun file => (entry.1, file)
  hits := []
  published := []
  events := []

end Machine

end OpenTfMirror.StorageMachine
