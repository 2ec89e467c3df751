import OpenTfMirror.FileNames
import OpenTfMirror.LockSections
import OpenTfMirror.Metadata
import Mathlib.Data.List.Sort

/-!
# The metadata service

`list_versions`, `get_version`, `get_platform_by_archive` and `sync_known` with
everything below them, cut at their atomic operations: the two caches, the
retry timers, the per-key locks, the requests to the registry, and every file
system call of reading and atomically writing a document. The JSON library is a
parameter. Stamps, documents and trace points only feed the record of a run.
-/

namespace OpenTfMirror.MetadataService

open TaskProgram Fallible KeyedLocks LockSections FileNames FileStore Outbound Provider Metadata

/-- `serde_json`, at the two kinds of documents. It decodes what it encoded. -/
class JsonCrate where
  indexToVec : IndexEntry → Except String Bytes
  indexFromSlice : Bytes → Except String IndexEntry
  versionToVec : VersionEntry → Except String Bytes
  versionFromSlice : Bytes → Except String VersionEntry
  index_roundTrip : ∀ entry bytes, indexToVec entry = .ok bytes → indexFromSlice bytes = .ok entry
  version_roundTrip : ∀ entry bytes,
    versionToVec entry = .ok bytes → versionFromSlice bytes = .ok entry

/-- The settings of the service: every allowed registry is a valid host name. -/
structure ProviderMetadataService where
  dataDir : Path
  allowedRegistries : List String
  freshness : ℕ
  hostnames : ∀ hostname ∈ allowedRegistries, validateHostname hostname = .ok ()

/-- The settings that `with_registry_client` makes of its arguments. -/
def withRegistryClient (dataDir : Path) (allowedRegistries : List String) (freshness : ℕ) :
    Except MetadataError ProviderMetadataService :=
  match h : checkAll validateHostname allowedRegistries with
  | .error error => .error error
  | .ok () => .ok ⟨dataDir ++ ["metadata"], allowedRegistries, freshness, checkAll_ok.mp h⟩

/-- The field `refresh_backoff`: 30 seconds. -/
def refreshBackoff : ℕ := 30 * 10 ^ 9

/-- `ProviderMetadataService::provider_key`. -/
def ProviderMetadataService.providerKey (self : ProviderMetadataService)
    (hostname providerNamespace providerType : String) : Except MetadataError ProviderKey := do
  validateHostname hostname
  validateComponent providerNamespace "namespace"
  validateComponent providerType "provider type"
  if hostname ∉ self.allowedRegistries then .error (.registryNotAllowed hostname)
  else .ok ⟨hostname, providerNamespace, providerType⟩

/-- `ProviderMetadataService::provider_dir`. -/
def ProviderMetadataService.providerDir (self : ProviderMetadataService) (key : ProviderKey) :
    Path :=
  self.dataDir ++ [key.hostname, key.providerNamespace, key.providerType]

/-- `ProviderMetadataService::index_path`. -/
def ProviderMetadataService.indexPath (self : ProviderMetadataService) (key : ProviderKey) :
    Path :=
  self.providerDir key ++ ["index.json"]

/-- `ProviderMetadataService::version_path`. -/
def ProviderMetadataService.versionPath (self : ProviderMetadataService) (key : VersionKey) :
    Path :=
  self.providerDir key.provider ++ [key.version ++ ".json"]

section Timers

variable {K : Type} [DecidableEq K]

/-- `MAX_FAILURES`. -/
def maxFailures : ℕ := 4096

/-- `refresh_allowed`. -/
def refreshAllowedAt (failures : AList fun _ : K => ℕ) (key : K) (now backoff : ℕ) : Bool :=
  match failures.lookup key with
  | none => true
  | some retryAt => retryAt ≤ now || backoff = 0

/-- `HashMap::retain` on the retry times. -/
def retain (failures : AList fun _ : K => ℕ) (p : ℕ → Bool) : AList fun _ : K => ℕ where
  entries := failures.entries.filter fun e => p e.2
  nodupKeys := failures.nodupKeys.sublist List.filter_sublist

/-- An entry with the smallest retry time. -/
def oldest : List (Sigma fun _ : K => ℕ) → Option (Sigma fun _ : K => ℕ)
  | [] => none
  | e :: rest =>
    match oldest rest with
    | none => some e
    | some e' => if e.2 ≤ e'.2 then some e else some e'

/-- `record_refresh_failure`. -/
def recordFailureAt (failures : AList fun _ : K => ℕ) (key : K) (now backoff : ℕ) :
    AList fun _ : K => ℕ :=
  let failures := retain failures fun retryAt => now < retryAt
  let failures :=
    if maxFailures ≤ failures.entries.length then
      match oldest failures.entries with
      | none => failures
      | some e => failures.erase e.1
    else failures
  failures.insert key (now + backoff)

end Timers

/-- The three maps of retry times, each at one key. -/
inductive Timer where
  | index (key : ProviderKey)
  | version (key : VersionKey)
  | miss (key : ProviderKey)
  deriving DecidableEq, Repr

/-- Who asks whether a refresh is allowed: a loader, or a request for a version
that the index lacks. -/
inductive Site where
  | load
  | missing
  deriving DecidableEq, Repr

/-- A cache entry to be persisted, with its key and the fetch it came from. -/
inductive Document where
  | index (key : ProviderKey) (stamp : ℕ) (entry : IndexEntry)
  | version (key : VersionKey) (entry : VersionEntry)
  deriving DecidableEq, Repr

/-- Where a document belongs. -/
def Document.path (self : ProviderMetadataService) : Document → Path
  | .index key _ _ => self.indexPath key
  | .version key _ => self.versionPath key

/-- `serde_json::to_vec` of the entry. -/
def Document.toVec [JsonCrate] : Document → Except String Bytes
  | .index _ _ entry => JsonCrate.indexToVec entry
  | .version _ entry => JsonCrate.versionToVec entry

/-- Where an inserted index came from. -/
inductive IndexSource where
  | persisted
  | fetched (stamp : ℕ)
  deriving DecidableEq, Repr

/-- Where an inserted version came from. -/
inductive VersionSource where
  | persisted
  | refreshed
  deriving DecidableEq, Repr

/-- What a loader finds when it is called: nothing, a valid document on disk, or
an entry in memory. -/
inductive Presence where
  | missing
  | persisted
  | cached
  deriving DecidableEq, Repr

/-- File system calls, each carried out by the blocking pool. -/
inductive FileOp where
  | read (path : Path)
  | createDirAll (dir : Path)
  | createNew (path : Path)
  | writeAll (path : Path) (bytes : Bytes)
  | syncAll (path : Path)
  | rename (source target : Path) (document : Document)
  | removeFile (path : Path)
  | syncParent (dir : Path)
  deriving DecidableEq, Repr

/-- The atomic operations of the service. -/
inductive Op where
  | indexEntry (key : ProviderKey)
  | containsIndex (key : ProviderKey)
  | insertIndex (key : ProviderKey) (entry : IndexEntry) (source : IndexSource)
  | indexKeys
  | versionEntry (key : VersionKey)
  | containsVersion (key : VersionKey)
  | insertVersion (key : VersionKey) (entry : VersionEntry) (source : VersionSource)
  | nowEpoch
  | refreshAllowed (timer : Timer) (site : Site)
  | recordFailure (timer : Timer)
  | clearFailure (timer : Timer)
  | indexLock (op : LockOp ProviderKey)
  | versionLock (op : LockOp VersionKey)
  /-- `registry.versions` is called, and its answer awaited. -/
  | startVersions (key : ProviderKey)
  | awaitVersions (key : ProviderKey) (stamp : ℕ)
  /-- `registry.package` for all platforms, in the order of completion. -/
  | packages (key : VersionKey) (platforms : List RegistryPlatform)
  | file (op : FileOp)
  /-- The answer of the blocking pool is awaited. -/
  | resume
  | nextSequence
  | processId
  | trySync
  | endSync
  /-- Trace points around the loaders. -/
  | enterIndex (key : ProviderKey)
  | leaveIndex (key : ProviderKey) (presence : Presence) (result : Except MetadataError IndexEntry)
  | enterVersion (key : VersionKey)
  | leaveVersion (key : VersionKey) (presence : Presence)
      (result : Except MetadataError VersionEntry)

/-- What each operation answers. -/
def Res : Op → Type
  | .indexEntry _ => Option IndexEntry
  | .versionEntry _ => Option VersionEntry
  | .containsIndex _ | .containsVersion _ | .refreshAllowed _ _ | .trySync => Bool
  | .enterIndex _ | .enterVersion _ => Presence
  | .indexKeys => List ProviderKey
  | .nowEpoch | .startVersions _ | .nextSequence | .processId => ℕ
  | .awaitVersions _ _ => Except RegistryError (List RegistryVersion)
  | .packages _ _ => List (ℕ × Except RegistryError PlatformMetadata)
  | .file _ => Except IoError Bytes
  | .insertIndex _ _ _ | .insertVersion _ _ _ | .recordFailure _ | .clearFailure _ | .indexLock _
  | .versionLock _ | .resume | .endSync | .leaveIndex _ _ _ | .leaveVersion _ _ _ => Unit

/-- Code of the service. -/
abbrev Code (α : Type) : Type := Prog Op Res α

/-- Code of the service that may fail. -/
abbrev Task (α : Type) : Type := Fallible Op Res MetadataError α

section Operations

abbrev indexEntry (key : ProviderKey) : Code (Option IndexEntry) := .call (.indexEntry key) .done

abbrev containsIndex (key : ProviderKey) : Code Bool := .call (.containsIndex key) .done

abbrev insertIndex (key : ProviderKey) (entry : IndexEntry) (source : IndexSource) : Code Unit :=
  .call (.insertIndex key entry source) .done

abbrev indexKeys : Code (List ProviderKey) := .call .indexKeys .done

abbrev versionEntry (key : VersionKey) : Code (Option VersionEntry) :=
  .call (.versionEntry key) .done

abbrev containsVersion (key : VersionKey) : Code Bool := .call (.containsVersion key) .done

abbrev insertVersion (key : VersionKey) (entry : VersionEntry) (source : VersionSource) :
    Code Unit :=
  .call (.insertVersion key entry source) .done

abbrev nowEpoch : Code ℕ := .call .nowEpoch .done

abbrev refreshAllowed (timer : Timer) (site : Site) : Code Bool :=
  .call (.refreshAllowed timer site) .done

abbrev recordFailure (timer : Timer) : Code Unit := .call (.recordFailure timer) .done

abbrev clearFailure (timer : Timer) : Code Unit := .call (.clearFailure timer) .done

abbrev indexLock (op : LockOp ProviderKey) : Code Unit := .call (.indexLock op) .done

abbrev versionLock (op : LockOp VersionKey) : Code Unit := .call (.versionLock op) .done

abbrev startVersions (key : ProviderKey) : Code ℕ := .call (.startVersions key) .done

abbrev awaitVersions (key : ProviderKey) (stamp : ℕ) :
    Code (Except RegistryError (List RegistryVersion)) :=
  .call (.awaitVersions key stamp) .done

abbrev packages (key : VersionKey) (platforms : List RegistryPlatform) :
    Code (List (ℕ × Except RegistryError PlatformMetadata)) :=
  .call (.packages key platforms) .done

abbrev resume : Code Unit := .call .resume .done

abbrev nextSequence : Code ℕ := .call .nextSequence .done

abbrev processId : Code ℕ := .call .processId .done

abbrev trySync : Code Bool := .call .trySync .done

abbrev endSync : Code Unit := .call .endSync .done

abbrev enterIndex (key : ProviderKey) : Code Presence := .call (.enterIndex key) .done

abbrev leaveIndex (key : ProviderKey) (presence : Presence)
    (result : Except MetadataError IndexEntry) : Code Unit :=
  .call (.leaveIndex key presence result) .done

abbrev enterVersion (key : VersionKey) : Code Presence := .call (.enterVersion key) .done

abbrev leaveVersion (key : VersionKey) (presence : Presence)
    (result : Except MetadataError VersionEntry) : Code Unit :=
  .call (.leaveVersion key presence result) .done

end Operations

section Files

/-- A file system call: the blocking pool performs it, then the future resumes. -/
def file (op : FileOp) : Code (Except IoError Bytes) := do
  let result ← (.call (.file op) .done : Code (Except IoError Bytes))
  resume
  return result

/-- The call, with an I/O error converted by `?`. -/
def io (op : FileOp) : Task Bytes :=
  ExceptT.mk (file op >>= fun
    | .ok bytes => .done (.ok bytes)
    | .error error => .done (.error (.io error)))

/-- `read_json`. -/
def readJson {α : Type} (decode : Bytes → Except String α) (path : Path) : Task (Option α) := do
  match ← lift (file (.read path)) with
  | .ok bytes =>
    match decode bytes with
    | .ok value => return some value
    | .error _ => return none
  | .error .notFound => return none
  | .error error => throw (.io error)

/-- The call, which on failure also removes the temporary file. -/
def ioOrRemove (temp : Path) (op : FileOp) : Task Unit := do
  match ← lift (file op) with
  | .ok _ => return ()
  | .error error =>
    let _ ← lift (file (.removeFile temp))
    throw (.io error)

/-- `write_json_atomic`. -/
def writeJsonAtomic [JsonCrate] (path : Path) (document : Document) : Task Unit := do
  let parent := path.dropLast
  let _ ← io (.createDirAll parent)
  let sequence ← lift nextSequence
  let pid ← lift processId
  let temp := tempPath parent "metadata" pid sequence
  match document.toVec with
  | .error message => throw (.json message)
  | .ok bytes =>
    let _ ← io (.createNew temp)
    ioOrRemove temp (.writeAll temp bytes)
    ioOrRemove temp (.syncAll temp)
    ioOrRemove temp (.rename temp path document)
    let _ ← io (.syncParent parent)
    return ()

end Files

section Loading

/-- What `load_index` and `load_version` differ in: the cache, its lock, the
persisted document and its check, the retry timer, and the refresh. -/
structure Loader (K α : Type) where
  lock : LockOp K → Code Unit
  entry : K → Code (Option (CacheEntry α))
  contains : K → Code Bool
  /-- Insert what was persisted. -/
  insert : K → CacheEntry α → Code Unit
  path : K → Path
  decode : Bytes → Except String (CacheEntry α)
  validate : K → α → Except MetadataError Unit
  timer : K → Timer
  refresh : K → Task (CacheEntry α)
  enter : K → Code Presence
  leave : K → Presence → Except MetadataError (CacheEntry α) → Code Unit

variable {K α : Type}

/-- The cached entry, when it is fresh. -/
def Loader.freshEntry (self : ProviderMetadataService) (L : Loader K α) (key : K) :
    Code (Option (CacheEntry α)) := do
  match ← L.entry key with
  | none => return none
  | some entry =>
    let now ← nowEpoch
    if entry.fresh now self.freshness refreshBackoff then return some entry else return none

/-- Fill an empty cache from the persisted document, if it is valid. -/
def Loader.readPersisted (L : Loader K α) (key : K) : Task Unit := do
  if ← lift (L.contains key) then return ()
  else
    match ← readJson L.decode (L.path key) with
    | none => return ()
    | some entry =>
      match L.validate key entry.value with
      | .ok () => lift (L.insert key entry)
      | .error _ => return ()

/-- After a failed refresh: the entry cached before, or one cached meanwhile. -/
def Loader.fallback (L : Loader K α) (key : K) (cached : Option (CacheEntry α))
    (error : MetadataError) : Task (CacheEntry α) :=
  match cached with
  | some entry => return entry
  | none => do
    match ← lift (L.entry key) with
    | some entry => return entry
    | none => throw error

/-- Refresh, unless the key is in backoff; fall back to what is cached. -/
def Loader.refreshOrCached (L : Loader K α) (key : K) : Task (CacheEntry α) := do
  let cached ← lift (L.entry key)
  if ← lift (refreshAllowed (L.timer key) .load) then
    match ← lift (L.refresh key).run with
    | .ok entry =>
      lift (clearFailure (L.timer key))
      return entry
    | .error error =>
      if shouldBackoff error then
        lift (recordFailure (L.timer key))
        L.fallback key cached error
      else L.fallback key cached error
  else
    match cached with
    | some entry => return entry
    | none => throw .refreshBackoff

/-- What a loader does inside the lock. -/
def Loader.loadLocked (self : ProviderMetadataService) (L : Loader K α) (key : K) :
    Task (CacheEntry α) := do
  match ← lift (L.freshEntry self key) with
  | some entry => return entry
  | none =>
    L.readPersisted key
    match ← lift (L.freshEntry self key) with
    | some entry => return entry
    | none => L.refreshOrCached key

/-- The common body of `load_index` and `load_version`. -/
def Loader.load (self : ProviderMetadataService) (L : Loader K α) (key : K) :
    Task (CacheEntry α) :=
  ExceptT.mk (do
    let presence ← L.enter key
    let result ← (do
      match ← L.freshEntry self key with
      | some entry => return .ok entry
      | none => guarded L.lock key (L.loadLocked self key).run)
    L.leave key presence result
    return result)

end Loading

section Indices

variable [JsonCrate]

/-- `ProviderMetadataService::refresh_index_unlocked`. -/
def refreshIndexUnlocked (self : ProviderMetadataService) (key : ProviderKey) :
    Task IndexEntry := do
  let stamp ← lift (startVersions key)
  match ← lift (awaitVersions key stamp) with
  | .error error => throw (mapRegistry error)
  | .ok versions =>
    match validateRegistryVersions versions with
    | .error error => throw error
    | .ok () =>
      let fetchedAt ← lift nowEpoch
      let entry : IndexEntry := ⟨fetchedAt, true, versions⟩
      writeJsonAtomic (self.indexPath key) (.index key stamp entry)
      lift (insertIndex key entry (.fetched stamp))
      return entry

/-- Refresh the index and keep its retry timer; the error is not recovered. -/
def refreshIndexTimed (self : ProviderMetadataService) (key : ProviderKey) : Task IndexEntry := do
  match ← lift (refreshIndexUnlocked self key).run with
  | .ok entry =>
    lift (clearFailure (.index key))
    return entry
  | .error error =>
    if shouldBackoff error then
      lift (recordFailure (.index key))
      throw error
    else throw error

/-- The loader of indices. -/
def indexLoader (self : ProviderMetadataService) : Loader ProviderKey (List RegistryVersion) where
  lock := indexLock
  entry := indexEntry
  contains := containsIndex
  insert key entry := insertIndex key entry .persisted
  path := self.indexPath
  decode := JsonCrate.indexFromSlice
  validate _ := validateRegistryVersions
  timer := .index
  refresh := refreshIndexUnlocked self
  enter := enterIndex
  leave := leaveIndex

/-- `ProviderMetadataService::load_index`. -/
def loadIndex (self : ProviderMetadataService) (key : ProviderKey) : Task IndexEntry :=
  (indexLoader self).load self key

end Indices

section Versions

/-- The listed version of this normalized name. -/
def listedVersion (index : IndexEntry) (version : String) : Option RegistryVersion :=
  index.value.find? fun item => normalizeVersion item.version = version

/-- Do what follows when the index lacks the version and neither the miss timer
nor the index timer forbids a forced refresh; else stay with the index. -/
def whenMissing (key : VersionKey) (index : IndexEntry) (force : Task IndexEntry) :
    Task IndexEntry :=
  match listedVersion index key.version with
  | some _ => return index
  | none => do
    if ← lift (refreshAllowed (.miss key.provider) .missing) then
      if ← lift (refreshAllowed (.index key.provider) .missing) then force
      else return index
    else return index

variable [JsonCrate]

/-- The forced refresh of `refresh_version`, inside the index lock. -/
def forceIndexLocked (self : ProviderMetadataService) (key : VersionKey) (index : IndexEntry) :
    Task IndexEntry := do
  let current ← lift (indexEntry key.provider)
  whenMissing key (current.getD index) (do
    lift (recordFailure (.miss key.provider))
    refreshIndexTimed self key.provider)

/-- The forced refresh of `refresh_version`. -/
def forceIndex (self : ProviderMetadataService) (key : VersionKey) (index : IndexEntry) :
    Task IndexEntry :=
  whenMissing key index
    (ExceptT.mk (guarded indexLock key.provider (forceIndexLocked self key index).run))

/-- The results of the packages that were fetched, by platform. -/
def refreshedPackages (results : List (Except MetadataError PlatformMetadata)) :
    AList fun _ : String × String => PlatformMetadata :=
  results.foldl (fun refreshed result =>
    match result with
    | .ok package => refreshed.insert (package.os, package.arch) package
    | .error _ => refreshed) ∅

/-- `first_error`. -/
def firstError : List (Except MetadataError PlatformMetadata) → Option MetadataError
  | [] => none
  | .ok _ :: rest => firstError rest
  | .error error :: _ => some error

/-- The platform of the cached entry that may stand in for one not fetched. -/
def cachedPlatform (cached : Option VersionEntry) (valid : List (String × String))
    (platform : RegistryPlatform) : Option PlatformMetadata :=
  cached.bind fun entry => entry.value.platforms.find? fun item =>
    item.os = platform.os && item.arch = platform.arch && (item.os, item.arch) ∈ valid

/-- The loop over the listed platforms: a fetched package is used once, else
the cached one is kept. -/
def mergePlatforms (cached : Option VersionEntry) (valid : List (String × String)) :
    (AList fun _ : String × String => PlatformMetadata) → List RegistryPlatform →
      List PlatformMetadata
  | _, [] => []
  | refreshed, platform :: rest =>
    match refreshed.lookup (platform.os, platform.arch) with
    | some package =>
      package :: mergePlatforms cached valid (refreshed.erase (platform.os, platform.arch)) rest
    | none => (cachedPlatform cached valid platform).toList ++
        mergePlatforms cached valid refreshed rest

variable (U : Type) [UrlCrate U] [SemverCrate]

/-- One answer for a package, mapped and validated. -/
def acceptPackage (key : VersionKey) (platform : RegistryPlatform) :
    Except RegistryError PlatformMetadata → Except MetadataError PlatformMetadata
  | .error error => .error (mapRegistry error)
  | .ok package => (validatePackage U key platform package).map fun _ => package

/-- The answers in the order of the listed platforms. -/
def packageResults (key : VersionKey) (platforms : List RegistryPlatform)
    (answers : List (ℕ × Except RegistryError PlatformMetadata)) :
    List (Except MetadataError PlatformMetadata) :=
  List.zipWith (acceptPackage U key) platforms
    ((answers.insertionSort fun a b => a.1 ≤ b.1).map Prod.snd)

/-- The merged entry of `refresh_version`, but for its time; fails when there
is no platform but an error. -/
def mergeVersion (key : VersionKey) (cached : Option VersionEntry) (platforms : List RegistryPlatform)
    (results : List (Except MetadataError PlatformMetadata)) :
    Except MetadataError (Bool × VersionMetadata) :=
  let valid := platforms.map fun platform => (platform.os, platform.arch)
  let merged := mergePlatforms cached valid (refreshedPackages results) platforms
  match merged, firstError results with
  | [], some error => .error error
  | _, error => .ok (error.isNone, {
      hostname := key.provider.hostname
      providerNamespace := key.provider.providerNamespace
      providerType := key.provider.providerType
      version := key.version
      platforms := merged })

/-- `refresh_version` once the version was found in the index. -/
def refreshListed (self : ProviderMetadataService) (key : VersionKey) (summary : RegistryVersion) :
    Task VersionEntry := do
  let cached ← lift (versionEntry key)
  let answers ← lift (packages key summary.platforms)
  match mergeVersion key cached summary.platforms (packageResults U key summary.platforms answers) with
  | .error error => throw error
  | .ok (complete, value) =>
    let fetchedAt ← lift nowEpoch
    let entry : VersionEntry := ⟨fetchedAt, complete, value⟩
    writeJsonAtomic (self.versionPath key) (.version key entry)
    lift (insertVersion key entry .refreshed)
    return entry

/-- `ProviderMetadataService::refresh_version`. -/
def refreshVersion (self : ProviderMetadataService) (key : VersionKey) : Task VersionEntry := do
  let index ← loadIndex self key.provider
  let index ← forceIndex self key index
  match listedVersion index key.version with
  | none => throw .notFound
  | some summary => refreshListed U self key summary

/-- The loader of versions. -/
def versionLoader (self : ProviderMetadataService) : Loader VersionKey VersionMetadata where
  lock := versionLock
  entry := versionEntry
  contains := containsVersion
  insert key entry := insertVersion key entry .persisted
  path := self.versionPath
  decode := JsonCrate.versionFromSlice
  validate := validateVersionMetadata U
  timer := .version
  refresh := refreshVersion U self
  enter := enterVersion
  leave := leaveVersion

/-- `ProviderMetadataService::load_version`. -/
def loadVersion (self : ProviderMetadataService) (key : VersionKey) : Task VersionEntry :=
  (versionLoader U self).load self key

end Versions

section Requests

variable [JsonCrate]

/-- The normalized versions, each once, in order. -/
def sortedVersions [SemverCrate] (index : List RegistryVersion) : List String :=
  (index.map fun item => normalizeVersion item.version).dedup.insertionSort
    fun a b => compareVersions a b ≠ .gt

/-- `ProviderMetadataService::list_versions`. -/
def listVersions [SemverCrate] (self : ProviderMetadataService)
    (hostname providerNamespace providerType : String) : Task (List String) :=
  match self.providerKey hostname providerNamespace providerType with
  | .error error => throw error
  | .ok key => do
    let entry ← loadIndex self key
    return sortedVersions entry.value

/-- The loop of `sync_known`; counts the failures. -/
def syncKeys (self : ProviderMetadataService) : List ProviderKey → ℕ → Code ℕ
  | [], failures => .done failures
  | key :: rest, failures => do
    match ← guarded indexLock key (refreshIndexTimed self key).run with
    | .error _ => syncKeys self rest (failures + 1)
    | .ok _ => syncKeys self rest failures

/-- `ProviderMetadataService::sync_known`. -/
def syncKnown (self : ProviderMetadataService) : Task Unit := do
  if ← lift trySync then
    let keys ← lift indexKeys
    let failures ← lift (syncKeys self keys 0)
    lift endSync
    if failures = 0 then return () else throw (.syncFailed failures)
  else throw .syncInProgress

variable (U : Type) [UrlCrate U] [SemverCrate]

/-- `ProviderMetadataService::get_version_entry`. -/
def getVersionEntry (self : ProviderMetadataService)
    (hostname providerNamespace providerType version : String) : Task (Option VersionEntry) :=
  match validateVersion version "version" with
  | .error error => throw error
  | .ok () =>
    match self.providerKey hostname providerNamespace providerType with
    | .error error => throw error
    | .ok provider => do
      match ← lift (loadVersion U self ⟨provider, normalizeVersion version⟩).run with
      | .ok entry => return some entry
      | .error .notFound => return none
      | .error error => throw error

/-- `ProviderMetadataService::get_version`. -/
def getVersion (self : ProviderMetadataService)
    (hostname providerNamespace providerType version : String) :
    Task (Option VersionMetadata) := do
  let entry ← getVersionEntry U self hostname providerNamespace providerType version
  return entry.map CacheEntry.value

/-- The first platform with this file name. -/
def platformByFilename (metadata : VersionMetadata) (filename : String) : Option PlatformMetadata :=
  metadata.platforms.find? fun item => item.filename = filename

/-- `ProviderMetadataService::get_platform_by_archive`. -/
def getPlatformByArchive (self : ProviderMetadataService)
    (hostname providerNamespace providerType filename : String) :
    Task (Option PlatformMetadata) :=
  match ArchiveName.parse providerType filename with
  | .error _ => throw (.invalidAddress "archive filename")
  | .ok archive => do
    let entry ← getVersionEntry U self hostname providerNamespace providerType archive.version
    return entry.bind fun entry => platformByFilename entry.value filename

end Requests

end OpenTfMirror.MetadataService
