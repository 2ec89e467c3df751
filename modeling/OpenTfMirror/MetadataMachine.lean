import OpenTfMirror.IndexDiscovery

/-!
# The metadata service as a machine

The state that all requests share, and what each operation does to it. The
environment picks the answers: what the registry says, which file system calls
fail, how writes are cut, and the wall clock. A request may be dropped wherever
it waits; a file operation that was handed over by then is carried out later,
while its locks are given back at once. Only this process writes below the data
directory.

The last fields are a record of the run. No operation reads them.
-/

namespace OpenTfMirror.MetadataMachine

open TaskProgram TaskLogic KeyedLocks FileNames FileStore Outbound Provider Metadata
  MetadataService IndexDiscovery

/-- A file operation whose request was dropped, numbered in the order in which
file operations are handed over. -/
structure Detached where
  issue : ℕ
  op : FileOp
  deriving DecidableEq, Repr

/-- An index request that is waiting for its answer. -/
structure Flight where
  task : ℕ
  stamp : ℕ
  key : ProviderKey
  deriving DecidableEq, Repr

/-- A successful answer to an index request. -/
structure Fetch where
  key : ProviderKey
  stamp : ℕ
  versions : List RegistryVersion
  deriving DecidableEq, Repr

/-- An index that a refresh made the cached one. -/
structure Publication where
  key : ProviderKey
  stamp : ℕ
  entry : IndexEntry
  deriving DecidableEq, Repr

/-- A finished call of a loader, and what it had found at first. -/
structure Load (K α : Type) where
  key : K
  presence : Presence
  result : Except MetadataError (CacheEntry α)

structure Shared where
  files : Files
  indices : Indices
  versions : AList fun _ : VersionKey => VersionEntry
  indexLocks : LockTable ProviderKey
  versionLocks : LockTable VersionKey
  indexFailures : AList fun _ : ProviderKey => ℕ
  versionFailures : AList fun _ : VersionKey => ℕ
  indexMissRefreshes : AList fun _ : ProviderKey => ℕ
  /-- The task that synchronizes. -/
  syncing : Option ℕ
  /-- The monotonic clock, in nanoseconds. -/
  clock : ℕ
  sequence : ℕ
  pid : ℕ
  /-- File operations of dropped requests that were not carried out yet. -/
  detached : List Detached
  /-- How many file operations were handed over. -/
  issued : ℕ
  /-- Files with a failed write that was not reported yet. -/
  unreported : Path → Bool
  /-- The task that drew a sequence number and was not dropped. -/
  owner : ℕ → Option ℕ
  inFlight : List Flight
  nextStamp : ℕ
  fetched : List Fetch
  /-- The latest first. -/
  published : List Publication
  refreshed : List (VersionKey × VersionEntry)
  /-- The document that was last renamed to a path, and by which operation. -/
  written : Path → Option Document
  latest : Path → ℕ
  /-- Contents that files had at the start, or when they were read. -/
  found : List (Path × Bytes)
  indexLoads : List (Load ProviderKey (List RegistryVersion))
  versionLoads : List (Load VersionKey VersionMetadata)

/-- The answers of the environment. -/
inductive Choice where
  | ok
  | fail (message : String)
  /-- The write stops after some bytes, and says so. -/
  | cut (n : ℕ) (message : String)
  /-- The write stops after some bytes; a later operation reports it. -/
  | lost (n : ℕ)
  | epoch (now : ℕ)
  | versions (answer : Except RegistryError (List RegistryVersion))
  | packages (answers : List (ℕ × Except RegistryError PlatformMetadata))

/-- What can start a task. -/
inductive Entry where
  | listVersions (hostname providerNamespace providerType : String)
  | getVersion (hostname providerNamespace providerType version : String)
  | getPlatform (hostname providerNamespace providerType filename : String)
  | sync

/-- What happens besides the tasks. -/
inductive Move where
  | tick (duration : ℕ)
  /-- The operation at this position of a dropped request is carried out. -/
  | land (position : ℕ) (choice : Choice)

/-- How a task ends, with its arguments. -/
inductive Out where
  | listed (hostname providerNamespace providerType : String)
      (result : Except MetadataError (List String))
  | version (hostname providerNamespace providerType version : String)
      (result : Except MetadataError (Option VersionMetadata))
  | platform (hostname providerNamespace providerType filename : String)
      (result : Except MetadataError (Option PlatformMetadata))
  | synced (result : Except MetadataError Unit)
  | dropped

section Timers

/-- `index_refresh_allowed`, `version_refresh_allowed` and
`missing_version_refresh_allowed`. -/
def Shared.refreshAllowed (s : Shared) : Timer → Bool
  | .index key => refreshAllowedAt s.indexFailures key s.clock refreshBackoff
  | .version key => refreshAllowedAt s.versionFailures key s.clock refreshBackoff
  | .miss key => refreshAllowedAt s.indexMissRefreshes key s.clock refreshBackoff

/-- `record_index_failure`, `record_version_failure` and
`record_missing_version_refresh`. -/
def Shared.recordFailure (s : Shared) : Timer → Shared
  | .index key =>
    { s with indexFailures := recordFailureAt s.indexFailures key s.clock refreshBackoff }
  | .version key =>
    { s with versionFailures := recordFailureAt s.versionFailures key s.clock refreshBackoff }
  | .miss key =>
    { s with indexMissRefreshes := recordFailureAt s.indexMissRefreshes key s.clock refreshBackoff }

/-- `clear_index_failure` and `clear_version_failure`. -/
def Shared.clearFailure (s : Shared) : Timer → Shared
  | .index key => { s with indexFailures := s.indexFailures.erase key }
  | .version key => { s with versionFailures := s.versionFailures.erase key }
  | .miss key => { s with indexMissRefreshes := s.indexMissRefreshes.erase key }

end Timers

section Files

/-- An operation that only succeeds or fails. -/
def Shared.attempt (s s' : Shared) : Choice → Option (Except IoError Bytes × Shared)
  | .ok => some (.ok [], s')
  | .fail message => some (.error (.other message), s)
  | _ => none

/-- `tokio::fs::read`. -/
def Shared.read (s : Shared) (path : Path) : Choice → Option (Except IoError Bytes × Shared)
  | .ok =>
    match s.files.lookup path with
    | none => some (.error .notFound, s)
    | some bytes => some (.ok bytes, { s with found := (path, bytes) :: s.found })
  | .fail message => some (.error (.other message), s)
  | _ => none

/-- `create_new`. -/
def Shared.createNew (s : Shared) (path : Path) : Choice → Option (Except IoError Bytes × Shared)
  | .ok =>
    match s.files.lookup path with
    | some _ => none
    | none => some (.ok [], { s with
        files := s.files.insert path []
        unreported := Function.update s.unreported path false })
  | .fail message => some (.error (.other message), s)
  | _ => none

/-- `write_all` to the open file at a path. -/
def Shared.write (s : Shared) (path : Path) (bytes : Bytes) :
    Choice → Option (Except IoError Bytes × Shared)
  | .ok =>
    match s.files.lookup path with
    | none => none
    | some content =>
      if s.unreported path then none
      else some (.ok [], { s with files := s.files.insert path (content ++ bytes) })
  | .cut n message =>
    match s.files.lookup path with
    | none => none
    | some content => some (.error (.other message),
        { s with files := s.files.insert path (content ++ bytes.take n) })
  | .lost n =>
    match s.files.lookup path with
    | none => none
    | some content => some (.ok [], { s with
        files := s.files.insert path (content ++ bytes.take n)
        unreported := Function.update s.unreported path true })
  | .fail message => some (.error (.other message), s)
  | _ => none

/-- `sync_all` reports a failed write at the latest. -/
def Shared.syncAll (s : Shared) (path : Path) : Choice → Option (Except IoError Bytes × Shared)
  | .ok => if s.unreported path then none else some (.ok [], s)
  | .fail message =>
    some (.error (.other message), { s with unreported := Function.update s.unreported path false })
  | _ => none

/-- `rename` of a regular file, noting the document that it publishes. -/
def Shared.rename (s : Shared) (issue : ℕ) (source target : Path) (document : Document) :
    Choice → Option (Except IoError Bytes × Shared)
  | .ok =>
    match s.files.lookup source with
    | none => none
    | some bytes => some (.ok [], { s with
        files := (s.files.erase source).insert target bytes
        written := Function.update s.written target (some document)
        latest := Function.update s.latest target issue })
  | .fail message => some (.error (.other message), s)
  | _ => none

/-- One file operation of the blocking pool. -/
def Shared.fileOp (s : Shared) (issue : ℕ) (op : FileOp) (choice : Choice) :
    Option (Except IoError Bytes × Shared) :=
  match op with
  | .read path => s.read path choice
  | .createDirAll _ => s.attempt s choice
  | .createNew path => s.createNew path choice
  | .writeAll path bytes => s.write path bytes choice
  | .syncAll path => s.syncAll path choice
  | .rename source target document => s.rename issue source target document choice
  | .removeFile path => s.attempt { s with files := s.files.erase path } choice
  | .syncParent _ => s.attempt s choice

end Files

section Machine

/-- An operation that cannot fail. -/
def always {α : Type} (result : α × Shared) : Choice → Option (α × Shared)
  | .ok => some result
  | _ => none

/-- An operation that cannot fail but may have to wait. -/
def eventually {α : Type} (result : Option (α × Shared)) : Choice → Option (α × Shared)
  | .ok => result
  | _ => none

/-- The answer to an index request, which is then no longer in flight. -/
def Shared.awaitVersions (s : Shared) (t : ℕ) (key : ProviderKey) (stamp : ℕ) :
    Choice → Option (Except RegistryError (List RegistryVersion) × Shared)
  | .versions answer =>
    let s := { s with inFlight := s.inFlight.filter fun flight => flight.task ≠ t }
    match answer with
    | .ok versions => some (answer, { s with fetched := ⟨key, stamp, versions⟩ :: s.fetched })
    | .error _ => some (answer, s)
  | _ => none

/-- The insertion of an index, with its entry in the record. -/
def Shared.insertIndex (s : Shared) (key : ProviderKey) (entry : IndexEntry) :
    IndexSource → Shared
  | .persisted => { s with indices := s.indices.insert key entry }
  | .fetched stamp => { s with
      indices := s.indices.insert key entry
      published := ⟨key, stamp, entry⟩ :: s.published }

/-- The insertion of a version, with its entry in the record. -/
def Shared.insertVersion (s : Shared) (key : VersionKey) (entry : VersionEntry) :
    VersionSource → Shared
  | .persisted => { s with versions := s.versions.insert key entry }
  | .refreshed => { s with
      versions := s.versions.insert key entry
      refreshed := (key, entry) :: s.refreshed }

/-- What the destructors of a dropped request give back at once. -/
def Shared.dropped (s : Shared) (t : ℕ) : Shared :=
  { s with
    owner := fun n => if s.owner n = some t then none else s.owner n
    inFlight := s.inFlight.filter fun flight => flight.task ≠ t }

variable [JsonCrate]

/-- A valid index is persisted at the path. -/
def persistedIndex (bytes : Bytes) : Bool :=
  match JsonCrate.indexFromSlice bytes with
  | .error _ => false
  | .ok entry => (validateRegistryVersions entry.value).isOk

/-- The key has an index in memory or a valid one on disk. -/
def Shared.indexAvailable (s : Shared) (self : ProviderMetadataService) (key : ProviderKey) :
    Bool :=
  key ∈ s.indices || (s.files.lookup (self.indexPath key)).any persistedIndex

/-- Where the index of the key can be found. -/
def Shared.indexPresence (s : Shared) (self : ProviderMetadataService) (key : ProviderKey) :
    Presence :=
  if key ∈ s.indices then .cached else if s.indexAvailable self key then .persisted else .missing

variable (U : Type) [UrlCrate U] [SemverCrate]

/-- A version that is valid for the key is persisted at the path. -/
def persistedVersion (key : VersionKey) (bytes : Bytes) : Bool :=
  match JsonCrate.versionFromSlice bytes with
  | .error _ => false
  | .ok entry => (validateVersionMetadata U key entry.value).isOk

/-- The key has a version in memory or a valid one on disk. -/
def Shared.versionAvailable (s : Shared) (self : ProviderMetadataService) (key : VersionKey) :
    Bool :=
  key ∈ s.versions || (s.files.lookup (self.versionPath key)).any (persistedVersion U key)

/-- Where the metadata of the version can be found. -/
def Shared.versionPresence (s : Shared) (self : ProviderMetadataService) (key : VersionKey) :
    Presence :=
  if key ∈ s.versions then .cached else if s.versionAvailable U self key then .persisted
  else .missing

/-- One atomic operation of a task. -/
def exec (self : ProviderMetadataService) (t : ℕ) (s : Shared) (op : Op) (choice : Choice) :
    Option (Res op × Shared) :=
  match op with
  | .indexEntry key => always (s.indices.lookup key, s) choice
  | .containsIndex key => always (decide (key ∈ s.indices), s) choice
  | .insertIndex key entry source => always ((), s.insertIndex key entry source) choice
  | .indexKeys => always (s.indices.keys, s) choice
  | .versionEntry key => always (s.versions.lookup key, s) choice
  | .containsVersion key => always (decide (key ∈ s.versions), s) choice
  | .insertVersion key entry source => always ((), s.insertVersion key entry source) choice
  | .nowEpoch =>
    match choice with
    | .epoch now => some (now, s)
    | _ => none
  | .refreshAllowed timer _ => always (s.refreshAllowed timer, s) choice
  | .recordFailure timer => always ((), s.recordFailure timer) choice
  | .clearFailure timer => always ((), s.clearFailure timer) choice
  | .indexLock op =>
    eventually ((s.indexLocks.perform t op).map fun locks => ((), { s with indexLocks := locks }))
      choice
  | .versionLock op =>
    eventually ((s.versionLocks.perform t op).map fun locks =>
      ((), { s with versionLocks := locks })) choice
  | .startVersions key => always (s.nextStamp, { s with
      nextStamp := s.nextStamp + 1
      inFlight := ⟨t, s.nextStamp, key⟩ :: s.inFlight }) choice
  | .awaitVersions key stamp => s.awaitVersions t key stamp choice
  | .packages _ platforms =>
    match choice with
    | .packages answers =>
      if (answers.map Prod.fst).Perm (List.range platforms.length) then some (answers, s) else none
    | _ => none
  | .file op => { s with issued := s.issued + 1 }.fileOp s.issued op choice
  | .resume => always ((), s) choice
  | .nextSequence => always (s.sequence, { s with
      sequence := s.sequence + 1
      owner := Function.update s.owner s.sequence (some t) }) choice
  | .processId => always (s.pid, s) choice
  | .trySync =>
    match s.syncing with
    | some _ => always (false, s) choice
    | none => always (true, { s with syncing := some t }) choice
  | .endSync => always ((), { s with
      syncing := if s.syncing = some t then none else s.syncing }) choice
  | .enterIndex key => always (s.indexPresence self key, s) choice
  | .leaveIndex key presence result =>
    always ((), { s with indexLoads := ⟨key, presence, result⟩ :: s.indexLoads }) choice
  | .enterVersion key => always (s.versionPresence U self key, s) choice
  | .leaveVersion key presence result =>
    always ((), { s with versionLoads := ⟨key, presence, result⟩ :: s.versionLoads }) choice

/-- Nothing belongs to the task number. -/
def Shared.unused (s : Shared) (t : ℕ) : Bool :=
  (s.indexLocks.handles.lookup t).isNone && (s.versionLocks.handles.lookup t).isNone &&
    s.inFlight.all (fun flight => flight.task ≠ t) && s.syncing ≠ some t

/-- The code of a request. -/
def request (self : ProviderMetadataService) : Entry → Code Out
  | .listVersions hostname providerNamespace providerType => do
    let result ← (listVersions self hostname providerNamespace providerType).run
    return .listed hostname providerNamespace providerType result
  | .getVersion hostname providerNamespace providerType version => do
    let result ← (getVersion U self hostname providerNamespace providerType version).run
    return .version hostname providerNamespace providerType version result
  | .getPlatform hostname providerNamespace providerType filename => do
    let result ← (getPlatformByArchive U self hostname providerNamespace providerType filename).run
    return .platform hostname providerNamespace providerType filename result
  | .sync => do
    let result ← (syncKnown self).run
    return .synced result

/-- A new request. -/
def start (self : ProviderMetadataService) (t : ℕ) (s : Shared) (entry : Entry) :
    Option (Code Out × Shared) :=
  if s.unused t then some (request U self entry, s) else none

/-- Steps outside the tasks. -/
def move (s : Shared) : Move → Option Shared
  | .tick duration => some { s with clock := s.clock + duration }
  | .land position choice =>
    match s.detached[position]? with
    | none => none
    | some d =>
      ({ s with detached := s.detached.eraseIdx position }.fileOp d.issue d.op choice).map Prod.snd

/-- A request may be dropped where it waits. -/
def cancel (t : ℕ) (s : Shared) : Op → Option Shared
  | .file op => some { s.dropped t with
      detached := s.detached ++ [⟨s.issued, op⟩]
      issued := s.issued + 1 }
  | .resume | .indexLock .acquire | .versionLock .acquire | .awaitVersions _ _ | .packages _ _ =>
    some (s.dropped t)
  | _ => none

/-- The destructors of a dropped request, the inner lock first. -/
def unwind : Code Out := do
  indexLock .release
  indexLock .dropBody
  indexLock .releaseArc
  versionLock .release
  versionLock .dropBody
  versionLock .releaseArc
  endSync
  return .dropped

/-- The service with any number of requests. -/
def machine (self : ProviderMetadataService) :
    Machine Op Res Out Shared Choice Entry Move where
  exec := exec U self
  start := start U self
  move := move
  cancel := cancel
  unwind := unwind
  reboot _ := none

/-- A service that has just been started over the files. -/
def bootWith (files : Files) (indices : Indices) (pid : ℕ) : Shared where
  files
  indices
  versions := ∅
  indexLocks := .empty
  versionLocks := .empty
  indexFailures := ∅
  versionFailures := ∅
  indexMissRefreshes := ∅
  syncing := none
  clock := 0
  sequence := 0
  pid
  detached := []
  issued := 1
  unreported := fun _ => false
  owner := fun _ => none
  inFlight := []
  nextStamp := 0
  fetched := []
  published := []
  refreshed := []
  written := fun _ => none
  latest := fun _ => 0
  found := files.entries.map fun e => (e.1, e.2)
  indexLoads := []
  versionLoads := []

/-- Start the service: discover the persisted indices. -/
def boot (self : ProviderMetadataService) (files : Files) (pid : ℕ) :
    Except MetadataError Shared :=
  (discoverIndices files self.dataDir self.allowedRegistries).map fun indices =>
    bootWith files indices pid

end Machine

end OpenTfMirror.MetadataMachine
