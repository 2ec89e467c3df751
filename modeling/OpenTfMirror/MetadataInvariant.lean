import OpenTfMirror.MetadataMachine

/-!
# What every step of the metadata service keeps

The invariant of the shared state, what only grows, the frame of each task, and
the precondition of each operation. Three rules narrow the runs for results that
need them: no request for a version named like the index, paths whose files can
be read, and detached renames that are carried out in the order of their issue.
-/

namespace OpenTfMirror.MetadataInvariant

open TaskProgram TaskLogic KeyedLocks FileNames FileStore Outbound Provider Metadata
  MetadataService IndexDiscovery MetadataMachine

/-- Which runs are considered. -/
structure Rules where
  /-- No request for a version whose document would be the index. -/
  plain : Prop
  /-- Where reading a file does not fail. -/
  readable : Path → Prop
  /-- A detached rename is carried out before any that was issued later. -/
  ordered : Prop

/-- All runs. -/
def Rules.none : Rules := ⟨False, fun _ => False, False⟩

section Documents

variable (U : Type) [UrlCrate U] [SemverCrate] (service : ProviderMetadataService) (R : Rules)

/-- A key that `provider_key` returns. -/
def Admissible (key : ProviderKey) : Prop :=
  service.providerKey key.hostname key.providerNamespace key.providerType = .ok key

/-- A key that `get_version_entry` builds. -/
structure AdmissibleVersion (key : VersionKey) : Prop where
  provider : Admissible service key.provider
  version : validVersion key.version = true
  notIndex : R.plain → key.version ≠ "index"

/-- Metadata as a refresh merges it, or as it is accepted from a document. -/
structure AcceptedVersion (key : VersionKey) (metadata : VersionMetadata) : Prop where
  hostname : metadata.hostname = key.provider.hostname
  providerNamespace : metadata.providerNamespace = key.provider.providerNamespace
  providerType : metadata.providerType = key.provider.providerType
  count : metadata.platforms.length ≤ 128
  packages : ∀ platform ∈ metadata.platforms,
    validatePackage U key ⟨platform.os, platform.arch⟩ platform = .ok ()

/-- Documents as the refreshes write them. -/
def Sane : Document → Prop
  | .index key _ entry => Admissible service key ∧ validateRegistryVersions entry.value = .ok ()
  | .version key entry => AdmissibleVersion service R key ∧ AcceptedVersion U key entry.value ∧
      entry.value.version = key.version

variable [JsonCrate]

/-- The file holds the whole document. -/
def Complete (s : Shared) (path : Path) (document : Document) : Prop :=
  ∃ bytes, document.toVec = .ok bytes ∧ s.files.lookup path = some bytes

/-- The index came from a refresh of this key, or from its persisted file. -/
def IndexOrigin (key : ProviderKey) (entry : IndexEntry) (s : Shared) : Prop :=
  (∃ stamp, ⟨key, stamp, entry⟩ ∈ s.published) ∨
    ∃ bytes, (service.indexPath key, bytes) ∈ s.found ∧
      JsonCrate.indexFromSlice bytes = .ok entry ∧ validateRegistryVersions entry.value = .ok ()

/-- The version came from a refresh of this key, or from its persisted file. -/
def VersionOrigin (key : VersionKey) (entry : VersionEntry) (s : Shared) : Prop :=
  (key, entry) ∈ s.refreshed ∨
    ∃ bytes, (service.versionPath key, bytes) ∈ s.found ∧
      JsonCrate.versionFromSlice bytes = .ok entry ∧
      validateVersionMetadata U key entry.value = .ok ()

end Documents

section Order

variable (service : ProviderMetadataService)

/-- The document is an index of this key, from this fetch. -/
def IsIndex (document : Document) (key : ProviderKey) (stamp : ℕ) : Prop :=
  ∃ entry, document = .index key stamp entry

/-- The rename of an index of this key, from this fetch. -/
def Publishes (op : FileOp) (key : ProviderKey) (stamp : ℕ) : Prop :=
  ∃ source target document, op = .rename source target document ∧ IsIndex document key stamp

/-- The file holds an index of this key, from this fetch. -/
def Written (key : ProviderKey) (stamp : ℕ) (s : Shared) : Prop :=
  ∃ document, s.written (service.indexPath key) = some document ∧ IsIndex document key stamp

/-- All that is known of the key comes from earlier fetches. -/
structure Below (key : ProviderKey) (stamp : ℕ) (s : Shared) : Prop where
  published : ∀ p ∈ s.published, p.key = key → p.stamp < stamp
  written : ∀ n, Written service key n s → n < stamp
  detached : ∀ d ∈ s.detached, ∀ n, Publishes d.op key n → n < stamp

/-- The document of this fetch is in place, and no older one can follow. -/
structure Placed (key : ProviderKey) (stamp : ℕ) (entry : IndexEntry) (s : Shared) : Prop where
  written : s.written (service.indexPath key) = some (.index key stamp entry)
  detached : ∀ d ∈ s.detached, ∀ n, Publishes d.op key n → d.issue < s.latest (service.indexPath key)

end Order

/-- What was found promises an answer, a document only when it can be read. -/
def Promised (readable : Prop) : Presence → Prop
  | .missing => False
  | .persisted => readable
  | .cached => True

theorem promised_imp {readable readable' : Prop} {presence : Presence} (h : readable → readable')
    (hpromised : Promised readable presence) : Promised readable' presence := by
  cases presence with
  | missing => exact hpromised
  | persisted => exact h hpromised
  | cached => trivial

section Temporary

/-- The temporary file that an operation works on. -/
def tempOf : FileOp → Option Path
  | .createNew path | .writeAll path _ | .syncAll path | .removeFile path => some path
  | .rename source _ _ => some source
  | .read _ | .createDirAll _ | .syncParent _ => none

/-- A temporary file of the task. -/
def Owns (t : ℕ) (path : Path) (s : Shared) : Prop :=
  ∃ dir pid n, path = tempPath dir "metadata" pid n ∧ s.owner n = some t

/-- A temporary file that a dropped request left behind. -/
def Abandoned (path : Path) (s : Shared) : Prop :=
  ∃ dir pid n, path = tempPath dir "metadata" pid n ∧ s.owner n = none ∧ n < s.sequence

end Temporary

section State

variable (U : Type) [UrlCrate U] [SemverCrate] [JsonCrate]
variable (service : ProviderMetadataService) (R : Rules)

/-- A version that a refresh never persists validly is cached, or has no valid
document: one whose name starts with the letter that normalization strips. -/
def Settled (key : VersionKey) (s : Shared) : Prop :=
  normalizeVersion key.version ≠ key.version →
    key ∈ s.versions ∨ (s.files.lookup (service.versionPath key)).any (persistedVersion U key) = false

/-- A version named like the index is refreshed only when the index is cached. -/
def Indexed (key : VersionKey) (s : Shared) : Prop :=
  key.version = "index" → key.provider ∈ s.indices

/-- An index document holds what its request answered. -/
def Answered (document : Document) (s : Shared) : Prop :=
  ∀ key stamp entry, document = .index key stamp entry → ⟨key, stamp, entry.value⟩ ∈ s.fetched

/-- A rename publishes a complete and acceptable document at its place. -/
structure Publishable (source target : Path) (document : Document) (s : Shared) : Prop where
  sane : Sane U service R document
  target : document.path service = target
  complete : Complete s source document
  stamp : ∀ key n, IsIndex document key n → n < s.nextStamp
  settled : ∀ key entry, document = .version key entry → Settled U service key s
  indexed : ∀ key entry, document = .version key entry → Indexed key s
  answered : Answered document s

/-- The caches hold accepted entries of known origin. -/
structure CacheInv (s : Shared) : Prop where
  indices : ∀ key entry, s.indices.lookup key = some entry →
    Admissible service key ∧ validateRegistryVersions entry.value = .ok () ∧
      IndexOrigin service key entry s
  versions : ∀ key entry, s.versions.lookup key = some entry →
    AdmissibleVersion service R key ∧ AcceptedVersion U key entry.value ∧
      VersionOrigin U service key entry s

/-- Index requests are made inside the key's lock, one by each task. -/
structure FlightInv (s : Shared) : Prop where
  holds : ∀ flight ∈ s.inFlight, s.indexLocks.Holds flight.task flight.key
  tasks : (s.inFlight.map Flight.task).Nodup
  stamps : (s.inFlight.map Flight.stamp).Nodup
  started : ∀ flight ∈ s.inFlight, flight.stamp < s.nextStamp
  unanswered : ∀ flight ∈ s.inFlight, ∀ fetch ∈ s.fetched, fetch.stamp ≠ flight.stamp

/-- Refreshes are published in the order of their fetches, and the last one of
each key is cached. -/
structure PublishInv (s : Shared) : Prop where
  fetched : ∀ fetch ∈ s.fetched, fetch.stamp < s.nextStamp
  stamps : (s.fetched.map Fetch.stamp).Nodup
  published : ∀ p ∈ s.published, p.entry.complete = true ∧
    ⟨p.key, p.stamp, p.entry.value⟩ ∈ s.fetched
  sorted : s.published.Pairwise fun later earlier =>
    later.key = earlier.key → earlier.stamp < later.stamp
  cached : ∀ key p, s.published.find? (fun p => p.key = key) = some p →
    s.indices.lookup key = some p.entry

/-- What a rename wrote is complete, and what detached operations will do. -/
structure FileInv (s : Shared) : Prop where
  owner : ∀ n t, s.owner n = some t → n < s.sequence
  written : ∀ path document, s.written path = some document →
    Sane U service R document ∧ document.path service = path ∧ Complete s path document
  answered : ∀ path document, s.written path = some document → Answered document s
  written_lt : ∀ key n, Written service key n s → n < s.nextStamp
  latest : ∀ path, s.latest path < s.issued
  issue : ∀ d ∈ s.detached, d.issue < s.issued
  abandoned : ∀ d ∈ s.detached, ∀ path, tempOf d.op = some path → Abandoned path s
  publishable : ∀ d ∈ s.detached, ∀ source target document,
    d.op = .rename source target document → Publishable U service R source target document s
  distinct : s.detached.Pairwise fun d d' => ∀ path, tempOf d.op = some path →
    tempOf d'.op ≠ some path

/-- Under the rules, index documents reach their file in the order of their fetches. -/
structure OrderInv (s : Shared) : Prop where
  detached : s.detached.Pairwise fun d d' => d.issue < d'.issue ∧
    ∀ key n n', Publishes d.op key n → Publishes d'.op key n' → n < n'
  newer : ∀ d ∈ s.detached, ∀ key n, Publishes d.op key n →
    s.latest (service.indexPath key) ≤ d.issue → ∀ m, Written service key m s → m < n
  persisted : ∀ p ∈ s.published, ∃ n entry,
    s.written (service.indexPath p.key) = some (.index p.key n entry) ∧
      (p.stamp < n ∨ p.stamp = n ∧ p.entry = entry)

/-- Loaders answer with entries of known origin, and always when something was
cached, or could be read. -/
structure LoadInv (s : Shared) : Prop where
  indices : ∀ load ∈ s.indexLoads,
    (∀ entry, load.result = .ok entry → IndexOrigin service load.key entry s) ∧
      (Promised (R.readable (service.indexPath load.key)) load.presence →
        ∃ entry, load.result = .ok entry)
  versions : ∀ load ∈ s.versionLoads,
    (∀ entry, load.result = .ok entry → VersionOrigin U service load.key entry s) ∧
      (Promised (load.key.version ≠ "index" ∧ R.readable (service.versionPath load.key))
        load.presence → ∃ entry, load.result = .ok entry)

/-- The invariant of the service. -/
structure Inv (s : Shared) : Prop where
  index_locks : s.indexLocks.Consistent
  version_locks : s.versionLocks.Consistent
  caches : CacheInv U service R s
  flights : FlightInv s
  published : PublishInv s
  files : FileInv U service R s
  order : R.ordered → R.plain → OrderInv service s
  loads : LoadInv U service R s

/-- What never shrinks. -/
structure Grows (s s' : Shared) : Prop where
  indices : ∀ key, key ∈ s.indices → key ∈ s'.indices
  versions : ∀ key, key ∈ s.versions → key ∈ s'.versions
  index_available : ∀ key,
    s.indexAvailable service key = true → s'.indexAvailable service key = true
  version_available : ∀ key : VersionKey, key.version ≠ "index" →
    s.versionAvailable U service key = true → s'.versionAvailable U service key = true
  settled : ∀ key, Settled U service key s → Settled U service key s'
  fetched : ∀ fetch ∈ s.fetched, fetch ∈ s'.fetched
  published : ∀ p ∈ s.published, p ∈ s'.published
  refreshed : ∀ r ∈ s.refreshed, r ∈ s'.refreshed
  found : ∀ f ∈ s.found, f ∈ s'.found
  stamp : s.nextStamp ≤ s'.nextStamp
  written : R.ordered → R.plain → ∀ key n, Written service key n s →
    ∃ n', Written service key n' s' ∧ n ≤ n'

/-- What the others leave unchanged for a task. -/
structure Frame (t : ℕ) (s s' : Shared) : Prop where
  grows : Grows U service R s s'
  index_locks : s.indexLocks.Same t s'.indexLocks
  version_locks : s.versionLocks.Same t s'.versionLocks
  /-- The index whose lock the task holds. -/
  cached : ∀ key, s.indexLocks.Holds t key → s'.indices.lookup key = s.indices.lookup key
  published : ∀ key, s.indexLocks.Holds t key → ∀ p ∈ s'.published, p.key = key → p ∈ s.published
  below : ∀ key n, s.indexLocks.Holds t key → Below service key n s → Below service key n s'
  placed : R.ordered → R.plain → ∀ key n entry, s.indexLocks.Holds t key →
    Placed service key n entry s → Placed service key n entry s'
  /-- The task's temporary files. -/
  temps : ∀ path, Owns t path s → Owns t path s' ∧ s'.files.lookup path = s.files.lookup path ∧
    s'.unreported path = s.unreported path
  flights : ∀ flight, flight.task = t → (flight ∈ s'.inFlight ↔ flight ∈ s.inFlight)

/-- The task waits for no index request. -/
def Grounded (t : ℕ) (s : Shared) : Prop := ∀ flight ∈ s.inFlight, flight.task ≠ t

/-- What a task needs before a file operation. -/
def FilePre (t : ℕ) (op : FileOp) (s : Shared) : Prop :=
  (∀ path, tempOf op = some path → Owns t path s) ∧
    ∀ source target document, op = .rename source target document →
      Publishable U service R source target document s ∧
      ∀ key n, IsIndex document key n → s.indexLocks.Holds t key ∧ Below service key n s

/-- What a task needs before each operation. -/
def Pre (t : ℕ) (op : Op) (s : Shared) : Prop :=
  match op with
  | .insertIndex key entry .persisted => s.indexLocks.Holds t key ∧ s.indices.lookup key = none ∧
      Admissible service key ∧ validateRegistryVersions entry.value = .ok () ∧
      IndexOrigin service key entry s
  | .insertIndex key entry (.fetched stamp) => s.indexLocks.Holds t key ∧
      (∀ p ∈ s.published, p.key = key → p.stamp < stamp) ∧ Admissible service key ∧
      validateRegistryVersions entry.value = .ok () ∧ entry.complete = true ∧
      ⟨key, stamp, entry.value⟩ ∈ s.fetched ∧
      (R.ordered → R.plain → Placed service key stamp entry s)
  | .insertVersion key entry source => AdmissibleVersion service R key ∧
      AcceptedVersion U key entry.value ∧
      (source = .persisted → VersionOrigin U service key entry s)
  | .indexLock op => op.Pre s.indexLocks t ∧ Grounded t s
  | .versionLock op => op.Pre s.versionLocks t
  | .startVersions key => s.indexLocks.Holds t key ∧ Grounded t s
  | .awaitVersions key stamp => ⟨t, stamp, key⟩ ∈ s.inFlight
  | .file op => FilePre U service R t op s
  | .leaveIndex key presence result =>
    (∀ entry, result = .ok entry → IndexOrigin service key entry s) ∧
      (Promised (R.readable (service.indexPath key)) presence → ∃ entry, result = .ok entry)
  | .leaveVersion key presence result =>
    (∀ entry, result = .ok entry → VersionOrigin U service key entry s) ∧
      (Promised (key.version ≠ "index" ∧ R.readable (service.versionPath key)) presence →
        ∃ entry, result = .ok entry)
  | _ => True

end State

section Runs

/-- The version that the request asks for is not named like the index. -/
def Plain [SemverCrate] : Entry → Prop
  | .getVersion _ _ _ version => normalizeVersion version ≠ "index"
  | .getPlatform _ _ providerType filename => ∀ archive,
      ArchiveName.parse providerType filename = .ok archive →
        normalizeVersion archive.version ≠ "index"
  | .listVersions _ _ _ | .sync => True

/-- The runs under the rules. -/
def policy [SemverCrate] (R : Rules) : Policy Op Shared Choice Entry Move where
  start _ _ entry := R.plain → Plain entry
  run _ _ op choice := ∀ path message, op = .file (.read path) → R.readable path →
    choice ≠ .fail message
  cancel _ _ _ := True
  move s m := R.ordered → ∀ position choice, m = .land position choice →
    ∀ d, s.detached[position]? = some d → ∀ source target document,
      d.op = .rename source target document → s.latest target ≤ d.issue
  reboot := False

end Runs

end OpenTfMirror.MetadataInvariant
