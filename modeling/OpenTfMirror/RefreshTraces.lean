import OpenTfMirror.LoaderOps
import OpenTfMirror.MetadataExec
import OpenTfMirror.PlainMetadata
import OpenTfMirror.TaskTraces
import OpenTfMirror.VersionMerge

/-!
# What a refresh of a version does

The traces of `refresh_version`: the index first, then the cached entry, the
packages of the listed platforms, and the merged entry, which is written when
there is one. With them the merge is judged on every answer of the registry, and
so is a refresh for which the registry has no package.
-/

namespace OpenTfMirror.RefreshTraces

open TaskProgram TaskHistory TaskTraces Fallible KeyedLocks LockSections FileNames FileStore Outbound
  Provider Metadata MetadataService IndexDiscovery MetadataMachine MetadataInvariant MetadataSteps
  MetadataFiles MetadataExec VersionMerge LoaderOps

section Operations

/-- The operations of `write_json_atomic`. -/
inductive WriteOp (path : Path) : Op → Prop
  | createDirAll (dir : Path) : WriteOp path (.file (.createDirAll dir))
  | nextSequence : WriteOp path .nextSequence
  | processId : WriteOp path .processId
  | createNew {temp : Path} (h : Temporary temp) : WriteOp path (.file (.createNew temp))
  | writeAll {temp : Path} (bytes : Bytes) (h : Temporary temp) :
      WriteOp path (.file (.writeAll temp bytes))
  | syncAll {temp : Path} (h : Temporary temp) : WriteOp path (.file (.syncAll temp))
  | rename {temp : Path} (document : Document) (h : Temporary temp) :
      WriteOp path (.file (.rename temp path document))
  | removeFile {temp : Path} (h : Temporary temp) : WriteOp path (.file (.removeFile temp))
  | syncParent (dir : Path) : WriteOp path (.file (.syncParent dir))
  | resume : WriteOp path .resume

/-- The operations of loading and refreshing an index. -/
inductive IndexOp (path : Path) : Op → Prop
  | write {op : Op} (h : WriteOp path op) : IndexOp path op
  | read (path' : Path) : IndexOp path (.file (.read path'))
  | indexEntry (key : ProviderKey) : IndexOp path (.indexEntry key)
  | containsIndex (key : ProviderKey) : IndexOp path (.containsIndex key)
  | insertIndex (key : ProviderKey) (entry : IndexEntry) (source : IndexSource) :
      IndexOp path (.insertIndex key entry source)
  | nowEpoch : IndexOp path .nowEpoch
  | refreshAllowed (timer : Timer) (site : Site) : IndexOp path (.refreshAllowed timer site)
  | recordFailure (timer : Timer) : IndexOp path (.recordFailure timer)
  | clearFailure (timer : Timer) : IndexOp path (.clearFailure timer)
  | indexLock (op : LockOp ProviderKey) : IndexOp path (.indexLock op)
  | startVersions (key : ProviderKey) : IndexOp path (.startVersions key)
  | awaitVersions (key : ProviderKey) (stamp : ℕ) : IndexOp path (.awaitVersions key stamp)
  | enterIndex (key : ProviderKey) : IndexOp path (.enterIndex key)
  | leaveIndex (key : ProviderKey) (presence : Presence) (result : Except MetadataError IndexEntry) :
      IndexOp path (.leaveIndex key presence result)

variable {path : Path}

/-- An atomic write performs these operations only. -/
theorem writes_writeOp : Writes (WriteOp path) path where
  createDirAll := .createDirAll
  nextSequence := .nextSequence
  processId := .processId
  createNew _ := .createNew
  writeAll _ bytes := .writeAll bytes
  syncAll _ := .syncAll
  rename _ document := .rename document
  removeFile _ := .removeFile
  syncParent := .syncParent
  resume := .resume

variable [JsonCrate] {self : ProviderMetadataService} {provider : ProviderKey}

theorem each_indexFetch : Each (IndexOp (self.indexPath provider))
    (refreshIndexUnlocked self provider).run :=
  each_refreshIndexUnlocked (.startVersions _) (.awaitVersions _) .nowEpoch
    (writes_mono (fun _ => .write) writes_writeOp) (.insertIndex _)

theorem each_refreshIndexTimed : Each (IndexOp (self.indexPath provider))
    (refreshIndexTimed self provider).run := by
  unfold refreshIndexTimed
  refine each_lift_bind each_indexFetch fun result => ?_
  cases result with
  | ok entry => exact each_lift_bind (each_call (.clearFailure _)) fun _ => trivial
  | error error =>
    dsimp only
    split
    · exact each_lift_bind (each_call (.recordFailure _)) fun _ => trivial
    · trivial

omit [JsonCrate] in
theorem each_indexLock (op : LockOp ProviderKey) : Each (IndexOp path) (indexLock op) :=
  each_call (.indexLock op)

theorem performs_index : Performs (IndexOp (self.indexPath provider)) (indexLoader self) provider where
  entry := each_call (.indexEntry _)
  contains := each_call (.containsIndex _)
  insert _ := each_call (.insertIndex _ _ _)
  read := .read _
  resume := .write .resume
  nowEpoch := .nowEpoch
  lock := each_indexLock
  refreshAllowed := .refreshAllowed _ _
  recordFailure := .recordFailure _
  clearFailure := .clearFailure _
  refresh := each_indexFetch
  enter := each_call (.enterIndex _)
  leave _ _ := each_call (.leaveIndex _ _ _)

/-- `load_index` performs only operations on the index. -/
theorem each_loadIndex : Each (IndexOp (self.indexPath provider)) (loadIndex self provider).run :=
  each_load performs_index

omit [JsonCrate] in
theorem each_whenMissing {key : VersionKey} {index : IndexEntry}
    {force : MetadataService.Task IndexEntry} (h : Each (IndexOp path) force.run) :
    Each (IndexOp path) (whenMissing key index force).run := by
  unfold whenMissing
  cases listedVersion index key.version with
  | some summary => trivial
  | none =>
    refine each_lift_bind (each_call (.refreshAllowed _ _)) fun allowed => ?_
    cases allowed with
    | false => trivial
    | true =>
      refine each_lift_bind (each_call (.refreshAllowed _ _)) fun allowed => ?_
      cases allowed with
      | false => trivial
      | true => exact h

/-- So does the forced refresh of a version that the index lacks. -/
theorem each_forceIndex {key : VersionKey} {index : IndexEntry} :
    Each (IndexOp (self.indexPath key.provider)) (forceIndex self key index).run := by
  unfold forceIndex
  refine each_whenMissing (each_guarded each_indexLock ?_)
  unfold forceIndexLocked
  refine each_lift_bind (each_call (.indexEntry _)) fun current => each_whenMissing ?_
  exact each_lift_bind (each_call (.recordFailure _)) fun _ => each_refreshIndexTimed

end Operations

section Inversion

variable {U : Type} [UrlCrate U] [SemverCrate] [JsonCrate] {self : ProviderMetadataService}
variable {key : VersionKey} {trace : List (Sigma Res)} {result : Except MetadataError VersionEntry}

/-- The cached entry was read, and then these answers came for the listed
platforms. -/
def Asked (key : VersionKey) (cached : Option VersionEntry) (listed : List RegistryPlatform)
    (answers : List (ℕ × Except RegistryError PlatformMetadata)) : List (Sigma Res) :=
  [⟨.versionEntry key, cached⟩, ⟨.packages key listed, answers⟩]

/-- A refresh handles the index first. Either that fails or the version is not
listed, or it goes on with the listed version. -/
theorem refreshVersion_trace (h : Traced (refreshVersion U self key).run trace result) :
    ((∀ event ∈ trace, IndexOp (self.indexPath key.provider) event.1) ∧
      ∃ error, result = .error error) ∨
    ∃ before rest summary, trace = before ++ rest ∧
      (∀ event ∈ before, IndexOp (self.indexPath key.provider) event.1) ∧
      Traced (refreshListed U self key summary).run rest result := by
  unfold refreshVersion at h
  rcases traced_run_bind h with ⟨loading, rest, index, rfl, hload, h⟩ | ⟨error, rfl, hload⟩
  · have hloading := traced_each each_loadIndex hload
    rcases traced_run_bind h with ⟨forcing, rest, index', rfl, hforce, h⟩ | ⟨error, rfl, hforce⟩
    · have hbefore : ∀ event ∈ loading ++ forcing,
          IndexOp (self.indexPath key.provider) event.1 := by
        intro event hevent
        rcases List.mem_append.mp hevent with hevent | hevent
        · exact hloading event hevent
        · exact traced_each each_forceIndex hforce event hevent
      cases hlisted : listedVersion index' key.version with
      | none =>
        rw [hlisted] at h
        obtain ⟨rfl, rfl⟩ := traced_done.mp h
        rw [List.append_nil]
        exact .inl ⟨hbefore, _, rfl⟩
      | some summary =>
        rw [hlisted] at h
        exact .inr ⟨loading ++ forcing, rest, summary, (List.append_assoc ..).symm, hbefore, h⟩
    · refine .inl ⟨fun event hevent => ?_, error, rfl⟩
      rcases List.mem_append.mp hevent with hevent | hevent
      · exact hloading event hevent
      · exact traced_each each_forceIndex hforce event hevent
  · exact .inl ⟨traced_each each_loadIndex hload, error, rfl⟩

/-- With the listed version it reads the cached entry, asks for the packages and
merges. Without a merged entry that is all; else it writes the entry. -/
theorem refreshListed_trace {summary : RegistryVersion}
    (h : Traced (refreshListed U self key summary).run trace result) :
    ∃ cached answers rest, trace = Asked key cached summary.platforms answers ++ rest ∧
      match mergeVersion key cached summary.platforms
        (packageResults U key summary.platforms answers) with
      | .error error => rest = [] ∧ result = .error error
      | .ok (complete, value) => (∃ fetchedAt, result = .ok ⟨fetchedAt, complete, value⟩) ∨
          ∃ error, result = .error error ∧ ∃ writing document,
            Traced (writeJsonAtomic (self.versionPath key) document).run writing (.error error) := by
  unfold refreshListed at h
  obtain ⟨first, rest, cached, rfl, hcached, h⟩ := traced_lift_bind.mp h
  obtain ⟨second, rest, answers, rfl, hanswers, h⟩ := traced_lift_bind.mp h
  rw [traced_op.mp hcached, traced_op.mp hanswers]
  refine ⟨cached, answers, rest, rfl, ?_⟩
  cases hmerge : mergeVersion key cached summary.platforms
      (packageResults U key summary.platforms answers) with
  | error error =>
    rw [hmerge] at h
    obtain ⟨rfl, rfl⟩ := traced_done.mp h
    exact ⟨rfl, rfl⟩
  | ok merged =>
    rw [hmerge] at h
    obtain ⟨third, rest, fetchedAt, rfl, -, h⟩ := traced_lift_bind.mp h
    rcases traced_run_bind h with ⟨writing, rest, ⟨⟩, rfl, -, h⟩ | ⟨error, rfl, hwrite⟩
    · obtain ⟨fourth, rest, ⟨⟩, rfl, -, h⟩ := traced_lift_bind.mp h
      obtain ⟨-, rfl⟩ := traced_done.mp h
      exact .inl ⟨fetchedAt, rfl⟩
    · exact .inr ⟨error, rfl, rest, _, hwrite⟩

/-- The registry's answers belong to the listed platforms. -/
theorem completed_of_answers {t : ℕ} {listed : List RegistryPlatform}
    {answers : List (ℕ × Except RegistryError PlatformMetadata)}
    (h : Answers (exec U self t) ⟨.packages key listed, answers⟩) : Completed listed answers := by
  obtain ⟨s, choice, s', hexec⟩ := h
  unfold exec at hexec
  dsimp only at hexec
  cases choice with
  | packages given =>
    dsimp only at hexec
    split at hexec
    · next hperm =>
        cases hexec
        exact hperm
    · cases hexec
  | _ => cases hexec

/-- A refresh that succeeds merges what it asked for. -/
theorem refreshed_merge {entry : VersionEntry}
    (h : Traced (refreshVersion U self key).run trace (.ok entry)) :
    ∃ before cached listed answers after,
      trace = before ++ Asked key cached listed answers ++ after ∧
      mergeVersion key cached listed (packageResults U key listed answers) =
        .ok (entry.complete, entry.value) := by
  rcases refreshVersion_trace h with ⟨-, error, herror⟩ | ⟨before, rest, summary, rfl, -, hlisted⟩
  · cases herror
  · obtain ⟨cached, answers, after, rfl, hmerge⟩ := refreshListed_trace hlisted
    refine ⟨before, cached, summary.platforms, answers, after, (List.append_assoc ..).symm, ?_⟩
    cases hmerged : mergeVersion key cached summary.platforms
        (packageResults U key summary.platforms answers) with
    | error error =>
      rw [hmerged] at hmerge
      obtain ⟨-, herror⟩ := hmerge
      cases herror
    | ok merged =>
      rw [hmerged] at hmerge
      rcases hmerge with ⟨fetchedAt, heq⟩ | ⟨error, herror, -⟩
      · rw [Except.ok.inj heq]
      · cases herror

/-- A refresh that succeeds read one cached entry and got one answer for every
listed platform. Its entry is the right merge of these just when no platform that
is listed more than once has a cached package. For any other order of the answers
the merge is the same. -/
theorem refreshed_version_iff {t : ℕ} {entry : VersionEntry}
    (h : Traced (refreshVersion U self key).run trace (.ok entry))
    (hanswers : ∀ event ∈ trace, Answers (exec U self t) event) :
    ∃ before cached listed answers after,
      trace = before ++ Asked key cached listed answers ++ after ∧ Completed listed answers ∧
      (Merged U key cached listed answers entry.complete entry.value.platforms ↔
        NoneRepeated cached listed) ∧
      ∀ answers', answers'.Perm answers →
        mergeVersion key cached listed (packageResults U key listed answers') =
          .ok (entry.complete, entry.value) := by
  obtain ⟨before, cached, listed, answers, after, rfl, hmerge⟩ := refreshed_merge h
  have hcompleted : Completed listed answers :=
    completed_of_answers (hanswers ⟨.packages key listed, answers⟩ (by simp [Asked]))
  refine ⟨before, cached, listed, answers, after, rfl, hcompleted, merged_iff hcompleted hmerge, ?_⟩
  intro answers' hperm
  rw [packageResults_perm hcompleted hperm]
  exact hmerge

end Inversion

section Writing

/-- A call of the file system fails with its error. -/
theorem io_error {op : FileOp} {trace : List (Sigma Res)} {error : MetadataError}
    (h : Traced (io op).run trace (.error error)) : ∃ e, error = .io e := by
  unfold io at h
  obtain ⟨_, _, answer, _, _, hrest⟩ := traced_bind.mp h
  cases answer with
  | ok bytes => cases (traced_done.mp hrest).2
  | error e =>
    cases (traced_done.mp hrest).2
    exact ⟨e, rfl⟩

theorem ioOrRemove_error {temp : Path} {op : FileOp} {trace : List (Sigma Res)}
    {error : MetadataError} (h : Traced (ioOrRemove temp op).run trace (.error error)) :
    ∃ e, error = .io e := by
  unfold ioOrRemove at h
  obtain ⟨_, _, answer, _, _, hrest⟩ := traced_lift_bind.mp h
  cases answer with
  | ok bytes => cases (traced_done.mp hrest).2
  | error e =>
    obtain ⟨_, _, _, _, _, hthrow⟩ := traced_lift_bind.mp hrest
    cases (traced_done.mp hthrow).2
    exact ⟨e, rfl⟩

/-- The errors of writing a document are those of the file system and of JSON. -/
theorem writeJsonAtomic_error [JsonCrate] {path : Path} {document : Document}
    {trace : List (Sigma Res)} {error : MetadataError}
    (h : Traced (writeJsonAtomic path document).run trace (.error error)) :
    (∃ e, error = .io e) ∨ ∃ message, error = .json message := by
  have hfailed : ∀ {failure : MetadataError}, (∃ e, failure = .io e) →
      (Except.error error : Except MetadataError Unit) = .error failure → ∃ e, error = .io e := by
    rintro failure ⟨e, rfl⟩ heq
    exact ⟨e, Except.error.inj heq⟩
  unfold writeJsonAtomic at h
  rcases traced_run_bind h with ⟨_, _, _, _, _, h⟩ | ⟨failure, heq, hfailure⟩
  · obtain ⟨_, _, sequence, _, _, h⟩ := traced_lift_bind.mp h
    obtain ⟨_, _, pid, _, _, h⟩ := traced_lift_bind.mp h
    cases hvec : document.toVec with
    | error message =>
      rw [hvec] at h
      exact .inr ⟨message, Except.error.inj (traced_done.mp h).2⟩
    | ok bytes =>
      rw [hvec] at h
      left
      rcases traced_run_bind h with ⟨_, _, _, _, _, h⟩ | ⟨failure, heq, hfailure⟩
      · rcases traced_run_bind h with ⟨_, _, _, _, _, h⟩ | ⟨failure, heq, hfailure⟩
        · rcases traced_run_bind h with ⟨_, _, _, _, _, h⟩ | ⟨failure, heq, hfailure⟩
          · rcases traced_run_bind h with ⟨_, _, _, _, _, h⟩ | ⟨failure, heq, hfailure⟩
            · rcases traced_run_bind h with ⟨_, _, _, _, _, h⟩ | ⟨failure, heq, hfailure⟩
              · cases (traced_done.mp h).2
              · exact hfailed (io_error hfailure) heq
            · exact hfailed (ioOrRemove_error hfailure) heq
          · exact hfailed (ioOrRemove_error hfailure) heq
        · exact hfailed (ioOrRemove_error hfailure) heq
      · exact hfailed (io_error hfailure) heq
  · exact .inl (hfailed (io_error hfailure) heq)

end Writing

section Unchanged

variable (U : Type) [UrlCrate U] [SemverCrate] [JsonCrate]

/-- Whenever the operation is performed, the entry of the key in memory and its
persisted file stay as they are. -/
def Keeps (self : ProviderMetadataService) (key : VersionKey) (op : Op) : Prop :=
  ∀ t s choice answer s', exec U self t s op choice = some (answer, s') →
    s'.versions.lookup key = s.versions.lookup key ∧
      s'.files.lookup (self.versionPath key) = s.files.lookup (self.versionPath key)

variable {U} {self : ProviderMetadataService} {key : VersionKey}

omit [SemverCrate] [JsonCrate] in
theorem temporary_ne {temp : Path} (h : Temporary temp) : temp ≠ self.versionPath key := by
  intro heq
  rw [heq] at h
  exact versionPath_not_temporary self key h

/-- An operation that changes nothing that others rely on. -/
theorem keeps_silent {op : Op} (hop : Silent op) : Keeps U self key op := by
  intro t s choice answer s' h
  have hunseen := unseen_of_silent (fun _ => True) hop h
  exact ⟨by rw [hunseen.versions], hunseen.files _ (versionPath_not_temporary self key)⟩

/-- A file operation on a temporary file keeps the persisted file. -/
theorem keeps_file {op : FileOp}
    (hop : ∀ source target document, op ≠ .rename source target document)
    (htemp : ∀ temp, tempOf op = some temp → Temporary temp) : Keeps U self key (.file op) := by
  intro t s choice answer s' h
  obtain ⟨files, unreported, found, rfl, hsame, -⟩ := fileOp_touches hop h
  have hne : tempOf op ≠ some (self.versionPath key) := fun heq =>
    versionPath_not_temporary self key (htemp _ heq)
  exact ⟨rfl, (hsame _ hne).1⟩

/-- So does a rename of a temporary file to another place. -/
theorem keeps_rename {source target : Path} {document : Document} (hsource : Temporary source)
    (htarget : target ≠ self.versionPath key) :
    Keeps U self key (.file (.rename source target document)) := by
  intro t s choice answer s' h
  rcases rename_cases h with ⟨rfl, -⟩ | ⟨bytes, -, -, rfl⟩
  · exact ⟨rfl, rfl⟩
  · refine ⟨rfl, ?_⟩
    dsimp only
    rw [AList.lookup_insert_ne htarget.symm, AList.lookup_erase_ne (temporary_ne hsource).symm]

theorem keeps_writeOp {path : Path} {op : Op} (h : WriteOp path op)
    (hrename : ∀ source document, op = .file (.rename source path document) →
      path ≠ self.versionPath key) : Keeps U self key op := by
  have hsome : ∀ {temp temp' : Path}, Temporary temp → some temp = some temp' → Temporary temp' := by
    intro temp temp' htemp heq
    rwa [← Option.some.inj heq]
  cases h with
  | createDirAll dir => exact keeps_file nofun nofun
  | createNew htemp => exact keeps_file nofun fun _ => hsome htemp
  | writeAll bytes htemp => exact keeps_file nofun fun _ => hsome htemp
  | syncAll htemp => exact keeps_file nofun fun _ => hsome htemp
  | removeFile htemp => exact keeps_file nofun fun _ => hsome htemp
  | syncParent dir => exact keeps_file nofun nofun
  | rename document htemp => exact keeps_rename htemp (hrename _ document rfl)
  | nextSequence =>
    intro t s choice answer s' h
    cases always_some h
    exact ⟨rfl, rfl⟩
  | processId => exact keeps_silent trivial
  | resume => exact keeps_silent trivial

/-- Handling the index keeps a version, but for one that is named like it. -/
theorem keeps_indexOp {path : Path} {op : Op} (h : IndexOp path op)
    (hrename : ∀ source document, op = .file (.rename source path document) →
      path ≠ self.versionPath key) : Keeps U self key op := by
  cases h with
  | write h => exact keeps_writeOp h hrename
  | read path' => exact keeps_file nofun nofun
  | indexEntry _ => exact keeps_silent trivial
  | containsIndex _ => exact keeps_silent trivial
  | insertIndex _ entry source =>
    intro t s choice answer s' h
    cases always_some h
    cases source with
    | persisted => exact ⟨rfl, rfl⟩
    | fetched stamp => exact ⟨rfl, rfl⟩
  | nowEpoch => exact keeps_silent trivial
  | refreshAllowed _ _ => exact keeps_silent trivial
  | recordFailure timer => exact keeps_silent trivial
  | clearFailure timer => exact keeps_silent trivial
  | indexLock op =>
    intro t s choice answer s' h
    obtain ⟨locks, -, heq⟩ := Option.map_eq_some_iff.mp (eventually_some h)
    cases heq
    exact ⟨rfl, rfl⟩
  | startVersions _ =>
    intro t s choice answer s' h
    cases always_some h
    exact ⟨rfl, rfl⟩
  | awaitVersions _ _ =>
    intro t s choice answer s' h
    unfold exec Shared.awaitVersions at h
    cases choice with
    | versions given =>
      cases given with
      | ok versions =>
        cases h
        exact ⟨rfl, rfl⟩
      | error error =>
        cases h
        exact ⟨rfl, rfl⟩
    | _ => cases h
  | enterIndex _ => exact keeps_silent trivial
  | leaveIndex _ _ _ =>
    intro t s choice answer s' h
    cases always_some h
    exact ⟨rfl, rfl⟩

theorem keeps_asked {cached : Option VersionEntry} {listed : List RegistryPlatform}
    {answers : List (ℕ × Except RegistryError PlatformMetadata)} :
    ∀ event ∈ Asked key cached listed answers, Keeps U self key event.1 := by
  intro event hevent
  simp only [Asked, List.mem_cons, List.not_mem_nil, or_false] at hevent
  rcases hevent with rfl | rfl
  · exact keeps_silent trivial
  · exact keeps_silent trivial

/-- The persisted file changes where the index of its provider is renamed to it. -/
theorem not_keeps_rename {source : Path} {document : Document} (hsource : Temporary source)
    (hversion : key.version = "index") :
    ¬ Keeps U self key (.file (.rename source (self.indexPath key.provider) document)) := by
  intro h
  have hpath : self.indexPath key.provider = self.versionPath key := by
    unfold ProviderMetadataService.versionPath
    rw [hversion]
    rfl
  let s := bootWith ((∅ : Files).insert source [0]) ∅ 0
  obtain ⟨s', hexec, hfiles⟩ : ∃ s', exec U self 0 s
      (.file (.rename source (self.indexPath key.provider) document)) .ok = some (.ok [], s') ∧
      s'.files = (s.files.erase source).insert (self.indexPath key.provider) [0] := by
    have hsome : s.files.lookup source = some [0] := AList.lookup_insert _
    unfold exec Shared.fileOp Shared.rename
    dsimp only
    rw [hsome]
    exact ⟨_, rfl, rfl⟩
  have hchanged := (h 0 s .ok (.ok []) s' hexec).2
  have hbefore : s.files.lookup (self.versionPath key) = none :=
    AList.lookup_insert_ne (temporary_ne hsource).symm
  rw [hfiles, hpath, hbefore, AList.lookup_insert] at hchanged
  cases hchanged

/-- The version is named like the index, and the index is written. -/
def RewritesIndex (self : ProviderMetadataService) (key : VersionKey) (trace : List (Sigma Res)) :
    Prop :=
  key.version = "index" ∧ ∃ event ∈ trace, ∃ source document,
    event.1 = .file (.rename source (self.indexPath key.provider) document)

/-- Handling the index keeps the version just when it does not write the index
over it. -/
theorem keeps_before_iff {before : List (Sigma Res)}
    (h : ∀ event ∈ before, IndexOp (self.indexPath key.provider) event.1) :
    (∀ event ∈ before, Keeps U self key event.1) ↔ ¬ RewritesIndex self key before := by
  constructor
  · rintro hkeeps ⟨hversion, event, hevent, source, document, hop⟩
    have hindex := h event hevent
    rw [hop] at hindex
    have hkept := hkeeps event hevent
    rw [hop] at hkept
    cases hindex with
    | write hwrite =>
      cases hwrite with
      | rename _ hsource => exact not_keeps_rename hsource hversion hkept
  · intro hnot event hevent
    refine keeps_indexOp (h event hevent) fun source document hop heq => hnot ?_
    exact ⟨(indexed_of_path heq.symm).1, event, hevent, source, document, hop⟩

variable {trace : List (Sigma Res)} {result : Except MetadataError VersionEntry}

/-- A refresh that gets to ask for packages, and is given none, answers with the
error of a fetch and keeps the entry and its file just when no listed platform has
a cached package, and the index is not written over a version named like it. -/
theorem failed_refresh_iff {t : ℕ}
    (h : Traced (refreshVersion U self key).run trace result)
    (hanswers : ∀ event ∈ trace, Answers (exec U self t) event) :
    (∀ event ∈ trace, ∀ listed, event.1 ≠ .packages key listed) ∨
    ∃ before cached listed answers after,
      trace = before ++ Asked key cached listed answers ++ after ∧ Completed listed answers ∧
      (listed ≠ [] → (∀ package, ¬ Fetched U key listed answers package) →
        ((∃ error, FailedWith U key listed answers error ∧ result = .error error) ∧
            (∀ event ∈ trace, Keeps U self key event.1) ↔
          (∀ platform ∈ listed, cachedFor cached platform = none) ∧
            ¬ RewritesIndex self key before)) := by
  rcases refreshVersion_trace h with ⟨hindex, -⟩ | ⟨before, rest, summary, rfl, hindex, hlisted⟩
  · left
    intro event hevent listed heq
    have hop := hindex event hevent
    rw [heq] at hop
    cases hop with
    | write hwrite => cases hwrite
  · right
    obtain ⟨cached, answers, after, rfl, hmerge⟩ := refreshListed_trace hlisted
    have hcompleted : Completed summary.platforms answers :=
      completed_of_answers (hanswers ⟨.packages key summary.platforms, answers⟩ (by simp [Asked]))
    refine ⟨before, cached, summary.platforms, answers, after, (List.append_assoc ..).symm,
      hcompleted, fun hne hnone => ?_⟩
    have hcached : (∃ error, mergeVersion key cached summary.platforms
        (packageResults U key summary.platforms answers) = .error error) →
          ∀ platform ∈ summary.platforms, cachedFor cached platform = none :=
      (mergeVersion_unfetched hcompleted hne hnone).2
    constructor
    · rintro ⟨⟨error, hfailed, rfl⟩, hkeeps⟩
      have herror : ∃ error, mergeVersion key cached summary.platforms
          (packageResults U key summary.platforms answers) = .error error := by
        cases hmerged : mergeVersion key cached summary.platforms
            (packageResults U key summary.platforms answers) with
        | error error => exact ⟨error, rfl⟩
        | ok merged =>
          rw [hmerged] at hmerge
          rcases hmerge with ⟨_, heq⟩ | ⟨failure, heq, writing, document, hwrite⟩
          · cases heq
          · cases heq
            obtain ⟨hio, hjson⟩ := hfailed.not_written
            rcases writeJsonAtomic_error hwrite with ⟨e, heq⟩ | ⟨message, heq⟩
            · exact absurd heq (hio e)
            · exact absurd heq (hjson message)
      have hbefore : ∀ event ∈ before, Keeps U self key event.1 := fun event hevent =>
        hkeeps event (List.mem_append_left _ hevent)
      exact ⟨hcached herror, (keeps_before_iff hindex).mp hbefore⟩
    · rintro ⟨hmissing, hrewrites⟩
      obtain ⟨error, hfailed, hmerged⟩ := (mergeVersion_unfetched hcompleted hne hnone).1 hmissing
      rw [hmerged] at hmerge
      obtain ⟨rfl, rfl⟩ := hmerge
      refine ⟨⟨error, hfailed, rfl⟩, fun event hevent => ?_⟩
      rw [List.append_nil] at hevent
      rcases List.mem_append.mp hevent with hevent | hevent
      · exact (keeps_before_iff hindex).mpr hrewrites event hevent
      · exact keeps_asked event hevent

end Unchanged

section Plain

/-- The documents of these version entries. -/
@[reducible] def sampleJson (samples : List VersionEntry)
    (h : ∀ x ∈ samples, samples.find? (fun y => PlainMetadata.versionBytes y =
      PlainMetadata.versionBytes x) = some x) : JsonCrate :=
  { PlainMetadata.plainJson with
    versionToVec := PlainMetadata.encodeSample samples PlainMetadata.versionBytes
    versionFromSlice := PlainMetadata.decodeSample samples PlainMetadata.versionBytes
    version_roundTrip := PlainMetadata.decodeSample_encodeSample h }

/-- A service whose entries are fresh for a minute. -/
abbrev minuteService : ProviderMetadataService := PlainMetadata.plainService (60 * 10 ^ 9)

/-- An index and a version in memory. -/
def cachedState (index : IndexEntry) (version : Option VersionEntry) : Shared :=
  let s := bootWith ∅ ((∅ : Indices).insert PlainMetadata.plainProvider index) 7
  { s with versions := version.elim ∅ fun entry =>
      (∅ : AList fun _ : VersionKey => VersionEntry).insert ⟨PlainMetadata.plainProvider,
        entry.value.version⟩ entry }

/-- The index is fresh, the registry gives these packages, and all goes well. -/
def refreshChoices (now : ℕ) (answers : List (ℕ × Except RegistryError PlatformMetadata)) :
    List Choice :=
  [.ok, .ok, .epoch now, .ok, .ok, .packages answers, .epoch now] ++ List.replicate 15 .ok

/-- The package of `linux/amd64`, and an older one. -/
def freshPackage : PlatformMetadata := PlainLibraries.plainMetadata

def stalePackage : PlatformMetadata :=
  { freshPackage with downloadUrl := "https://old.example/null.zip" }

def darwinPackage : PlatformMetadata :=
  { freshPackage with
    os := "darwin"
    filename := "terraform-provider-null_1.0.0_darwin_amd64.zip" }

def partialIndex : IndexEntry :=
  ⟨100, true, [⟨"1.0.0", [⟨"linux", "amd64"⟩, ⟨"darwin", "amd64"⟩]⟩]⟩

def partialResult : VersionEntry :=
  { PlainMetadata.plainEntry 110 "1.0.0" [freshPackage, darwinPackage] with complete := false }

/-- One of two packages is fetched, and the cached one is kept for the other. -/
theorem refreshed_version_plain :
    letI := PlainLibraries.plainSemver
    letI := sampleJson [partialResult] (by decide +kernel)
    ∃ trace before cached listed answers after,
      Traced (refreshVersion PlainUrl minuteService (PlainMetadata.plainVersionKey "1.0.0")).run
        trace (.ok partialResult) ∧
      trace = before ++ Asked (PlainMetadata.plainVersionKey "1.0.0") cached listed answers ++ after ∧
      (Merged PlainUrl (PlainMetadata.plainVersionKey "1.0.0") cached listed answers
        partialResult.complete partialResult.value.platforms ↔ NoneRepeated cached listed) := by
  let _ := PlainLibraries.plainSemver
  let _ := sampleJson [partialResult] (by decide +kernel)
  have hsolo : (solo (exec PlainUrl minuteService 0)
      (refreshVersion PlainUrl minuteService (PlainMetadata.plainVersionKey "1.0.0")).run
      (cachedState partialIndex
        (some (PlainMetadata.plainEntry 50 "1.0.0" [stalePackage, darwinPackage])))
      (refreshChoices 110 [(1, .error .notFound), (0, .ok freshPackage)])).map Prod.fst =
        some (.ok partialResult) := by
    decide +kernel
  obtain ⟨⟨_, s'⟩, hsolo, rfl⟩ := Option.map_eq_some_iff.mp hsolo
  obtain ⟨trace, htraced, hanswers⟩ := traced_of_solo hsolo
  obtain ⟨before, cached, listed, answers, after, htrace, -, hmerged, -⟩ :=
    refreshed_version_iff htraced hanswers
  exact ⟨trace, before, cached, listed, answers, after, htraced, htrace, hmerged⟩

def repeatedIndex : IndexEntry :=
  ⟨100, true, [⟨"1.0.0", [⟨"linux", "amd64"⟩, ⟨"linux", "amd64"⟩]⟩]⟩

def repeatedResult : VersionEntry := PlainMetadata.plainEntry 110 "1.0.0" [freshPackage, stalePackage]

/-- The index lists a platform twice, both packages are fetched, and the merged
entry has the fetched package and the cached one. -/
theorem repeated_platform_merged :
    letI := PlainLibraries.plainSemver
    letI := sampleJson [repeatedResult] (by decide +kernel)
    validateRegistryVersions repeatedIndex.value = .ok () ∧
    (solo (exec PlainUrl minuteService 0)
      (refreshVersion PlainUrl minuteService (PlainMetadata.plainVersionKey "1.0.0")).run
      (cachedState repeatedIndex (some (PlainMetadata.plainEntry 50 "1.0.0" [stalePackage])))
      (refreshChoices 110 [(1, .ok freshPackage), (0, .ok freshPackage)])).map Prod.fst =
        some (.ok repeatedResult) ∧
    ¬ Merged PlainUrl (PlainMetadata.plainVersionKey "1.0.0")
      (some (PlainMetadata.plainEntry 50 "1.0.0" [stalePackage]))
      [⟨"linux", "amd64"⟩, ⟨"linux", "amd64"⟩] [(1, .ok freshPackage), (0, .ok freshPackage)]
      repeatedResult.complete repeatedResult.value.platforms := by
  let _ := PlainLibraries.plainSemver
  refine ⟨by decide +kernel, by decide +kernel, fun h => ?_⟩
  exact absurd h.once (by decide)

/-- The registry has no package to give. -/
def noPackages : List (ℕ × Except RegistryError PlatformMetadata) :=
  [(0, .error (.invalidResponse "503"))]

def unfetchedResult : VersionEntry :=
  { PlainMetadata.plainEntry 110 "1.0.0" [stalePackage] with complete := false }

/-- No package is fetched for a version without a cached entry. -/
theorem failed_refresh_plain :
    letI := PlainLibraries.plainSemver
    letI := PlainMetadata.plainJson
    ∃ trace, Traced (refreshVersion PlainUrl minuteService (PlainMetadata.plainVersionKey "1.0.0")).run
        trace (.error (.registry (.invalidResponse "503"))) ∧
      ((∀ event ∈ trace, ∀ listed,
          event.1 ≠ .packages (PlainMetadata.plainVersionKey "1.0.0") listed) ∨
        ∃ before cached listed answers after,
          trace = before ++ Asked (PlainMetadata.plainVersionKey "1.0.0") cached listed answers ++
            after ∧ Completed listed answers) := by
  let _ := PlainLibraries.plainSemver
  let _ := PlainMetadata.plainJson
  have hsolo : (solo (exec PlainUrl minuteService 0)
      (refreshVersion PlainUrl minuteService (PlainMetadata.plainVersionKey "1.0.0")).run
      (cachedState (PlainMetadata.plainIndex 100 ["1.0.0"]) none)
      (refreshChoices 110 noPackages)).map Prod.fst =
        some (.error (.registry (.invalidResponse "503"))) := by
    decide +kernel
  obtain ⟨⟨_, s'⟩, hsolo, rfl⟩ := Option.map_eq_some_iff.mp hsolo
  obtain ⟨trace, htraced, hanswers⟩ := traced_of_solo hsolo
  refine ⟨trace, htraced, ?_⟩
  rcases failed_refresh_iff htraced hanswers with
    hnone | ⟨before, cached, listed, answers, after, htrace, hcompleted, -⟩
  · exact .inl hnone
  · exact .inr ⟨before, cached, listed, answers, after, htrace, hcompleted⟩

/-- No package is fetched, and yet the refresh succeeds and replaces the complete
entry, which is as old as it says, by an incomplete one with the present time. -/
theorem unfetched_refresh_replaces :
    letI := PlainLibraries.plainSemver
    letI := sampleJson [unfetchedResult] (by decide +kernel)
    (∀ package, ¬ Fetched PlainUrl (PlainMetadata.plainVersionKey "1.0.0") [⟨"linux", "amd64"⟩]
      noPackages package) ∧
    (solo (exec PlainUrl minuteService 0)
      (refreshVersion PlainUrl minuteService (PlainMetadata.plainVersionKey "1.0.0")).run
      (cachedState (PlainMetadata.plainIndex 100 ["1.0.0"])
        (some (PlainMetadata.plainEntry 50 "1.0.0" [stalePackage])))
      (refreshChoices 110 noPackages)).map
        (fun ran => (ran.1, ran.2.versions.lookup (PlainMetadata.plainVersionKey "1.0.0"))) =
        some (.ok unfetchedResult, some unfetchedResult) ∧
    unfetchedResult ≠ PlainMetadata.plainEntry 50 "1.0.0" [stalePackage] := by
  let _ := PlainLibraries.plainSemver
  refine ⟨?_, by decide +kernel, by decide⟩
  rintro package ⟨i, platform, answer, -, hanswer, haccept⟩
  cases List.mem_singleton.mp hanswer
  cases haccept

end Plain

end OpenTfMirror.RefreshTraces
