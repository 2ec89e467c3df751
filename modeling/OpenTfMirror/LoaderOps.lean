import OpenTfMirror.MetadataService
import OpenTfMirror.TaskHistory

/-!
# The operations of a loader

Which operations a file access, an atomic write and a loader perform. What all
of them satisfy is a parameter, so a proof about one kind of operation names the
few that matter to it and leaves the programs to the lemmas here.
-/

namespace OpenTfMirror.LoaderOps

open TaskProgram TaskHistory Fallible KeyedLocks LockSections FileNames FileStore Outbound Provider
  Metadata MetadataService

variable {p : Op → Prop}

theorem each_call {op : Op} (h : p op) : Each p (Prog.call op .done : Code (Res op)) :=
  ⟨h, fun _ => trivial⟩

theorem each_file {op : FileOp} (h : p (.file op)) (hresume : p .resume) : Each p (file op) :=
  ⟨h, fun _ => ⟨hresume, fun _ => trivial⟩⟩

theorem each_io {op : FileOp} (h : p (.file op)) (hresume : p .resume) : Each p (io op).run := by
  refine each_bind (each_file h hresume) fun answer => ?_
  cases answer with
  | ok bytes => trivial
  | error error => trivial

theorem each_readJson {α : Type} {decode : Bytes → Except String α} {path : Path}
    (h : p (.file (.read path))) (hresume : p .resume) : Each p (readJson decode path).run := by
  unfold readJson
  refine each_lift_bind (each_file h hresume) fun answer => ?_
  cases answer with
  | ok bytes =>
    dsimp only
    cases decode bytes with
    | ok value => trivial
    | error message => trivial
  | error error =>
    cases error with
    | notFound => trivial
    | other message => trivial

theorem each_ioOrRemove {temp : Path} {op : FileOp} (h : p (.file op))
    (hremove : p (.file (.removeFile temp))) (hresume : p .resume) :
    Each p (ioOrRemove temp op).run := by
  unfold ioOrRemove
  refine each_lift_bind (each_file h hresume) fun answer => ?_
  cases answer with
  | ok bytes => trivial
  | error error => exact each_lift_bind (each_file hremove hresume) fun _ => trivial

/-- The operations of an atomic write to the path. -/
structure Writes (p : Op → Prop) (path : Path) : Prop where
  createDirAll : ∀ dir, p (.file (.createDirAll dir))
  nextSequence : p .nextSequence
  processId : p .processId
  createNew : ∀ temp, Temporary temp → p (.file (.createNew temp))
  writeAll : ∀ temp bytes, Temporary temp → p (.file (.writeAll temp bytes))
  syncAll : ∀ temp, Temporary temp → p (.file (.syncAll temp))
  rename : ∀ temp document, Temporary temp → p (.file (.rename temp path document))
  removeFile : ∀ temp, Temporary temp → p (.file (.removeFile temp))
  syncParent : ∀ dir, p (.file (.syncParent dir))
  resume : p .resume

theorem writes_mono {p' : Op → Prop} {path : Path} (h : ∀ op, p op → p' op) (hwrites : Writes p path) :
    Writes p' path where
  createDirAll dir := h _ (hwrites.createDirAll dir)
  nextSequence := h _ hwrites.nextSequence
  processId := h _ hwrites.processId
  createNew temp htemp := h _ (hwrites.createNew temp htemp)
  writeAll temp bytes htemp := h _ (hwrites.writeAll temp bytes htemp)
  syncAll temp htemp := h _ (hwrites.syncAll temp htemp)
  rename temp document htemp := h _ (hwrites.rename temp document htemp)
  removeFile temp htemp := h _ (hwrites.removeFile temp htemp)
  syncParent dir := h _ (hwrites.syncParent dir)
  resume := h _ hwrites.resume

theorem each_writeJsonAtomic [JsonCrate] {path : Path} (h : Writes p path) (document : Document) :
    Each p (writeJsonAtomic path document).run := by
  unfold writeJsonAtomic
  refine each_run_bind (each_io (h.createDirAll _) h.resume) fun _ => ?_
  refine each_lift_bind (each_call h.nextSequence) fun sequence => ?_
  refine each_lift_bind (each_call h.processId) fun pid => ?_
  have htemp : Temporary (tempPath path.dropLast "metadata" pid sequence) := ⟨_, _, _, _, rfl⟩
  have hremove := h.removeFile _ htemp
  cases document.toVec with
  | error message => trivial
  | ok bytes =>
    refine each_run_bind (each_io (h.createNew _ htemp) h.resume) fun _ => ?_
    refine each_run_bind (each_ioOrRemove (h.writeAll _ bytes htemp) hremove h.resume) fun _ => ?_
    refine each_run_bind (each_ioOrRemove (h.syncAll _ htemp) hremove h.resume) fun _ => ?_
    refine each_run_bind (each_ioOrRemove (h.rename _ document htemp) hremove h.resume) fun _ => ?_
    exact each_run_bind (each_io (h.syncParent _) h.resume) fun _ => trivial

/-- The operations of a fetch of the index. -/
theorem each_refreshIndexUnlocked [JsonCrate] {self : ProviderMetadataService} {key : ProviderKey}
    (hstart : p (.startVersions key)) (hawait : ∀ stamp, p (.awaitVersions key stamp))
    (hnow : p .nowEpoch) (hwrite : Writes p (self.indexPath key))
    (hinsert : ∀ entry source, p (.insertIndex key entry source)) :
    Each p (refreshIndexUnlocked self key).run := by
  unfold refreshIndexUnlocked
  refine each_lift_bind (each_call hstart) fun stamp => ?_
  refine each_lift_bind (each_call (hawait stamp)) fun answer => ?_
  cases answer with
  | error error => trivial
  | ok versions =>
    dsimp only
    cases validateRegistryVersions versions with
    | error error => trivial
    | ok value =>
      refine each_lift_bind (each_call hnow) fun fetchedAt => ?_
      refine each_run_bind (each_writeJsonAtomic hwrite _) fun _ => ?_
      exact each_lift_bind (each_call (hinsert _ _)) fun _ => trivial

/-- The operations of a refresh of a listed version. -/
theorem each_refreshListed {U : Type} [UrlCrate U] [SemverCrate] [JsonCrate]
    {self : ProviderMetadataService} {key : VersionKey} {summary : RegistryVersion}
    (hentry : p (.versionEntry key)) (hpackages : ∀ platforms, p (.packages key platforms))
    (hnow : p .nowEpoch) (hwrite : Writes p (self.versionPath key))
    (hinsert : ∀ entry source, p (.insertVersion key entry source)) :
    Each p (refreshListed U self key summary).run := by
  unfold refreshListed
  refine each_lift_bind (each_call hentry) fun cached => ?_
  refine each_lift_bind (each_call (hpackages _)) fun answers => ?_
  cases mergeVersion key cached summary.platforms (packageResults U key summary.platforms answers) with
  | error error => trivial
  | ok merged =>
    refine each_lift_bind (each_call hnow) fun fetchedAt => ?_
    refine each_run_bind (each_writeJsonAtomic hwrite _) fun _ => ?_
    exact each_lift_bind (each_call (hinsert _ _)) fun _ => trivial

/-- A section performs its body between the operations of its lock. -/
theorem each_guarded {K α : Type} {embed : LockOp K → Code Unit} {key : K} {body : Code α}
    (hembed : ∀ op, Each p (embed op)) (h : Each p body) : Each p (guarded embed key body) := by
  unfold guarded
  refine each_bind (hembed _) fun _ => each_bind (hembed _) fun _ => ?_
  refine each_bind h fun result => ?_
  refine each_bind (hembed _) fun _ => each_bind (hembed _) fun _ => ?_
  exact each_bind (hembed _) fun _ => trivial

section Loaders

variable {K α : Type} {L : Loader K α} {key : K} {self : ProviderMetadataService}

/-- The operations by which a loader looks at its cache and at the persisted document. -/
structure Reads (p : Op → Prop) (L : Loader K α) (key : K) : Prop where
  entry : Each p (L.entry key)
  contains : Each p (L.contains key)
  insert : ∀ entry, Each p (L.insert key entry)
  read : p (.file (.read (L.path key)))
  resume : p .resume
  nowEpoch : p .nowEpoch

/-- All operations of a loader, with those of its refresh. -/
structure Performs (p : Op → Prop) (L : Loader K α) (key : K) : Prop extends Reads p L key where
  lock : ∀ op, Each p (L.lock op)
  refreshAllowed : p (.refreshAllowed (L.timer key) .load)
  recordFailure : p (.recordFailure (L.timer key))
  clearFailure : p (.clearFailure (L.timer key))
  refresh : Each p (L.refresh key).run
  enter : Each p (L.enter key)
  leave : ∀ presence result, Each p (L.leave key presence result)

theorem each_freshEntry (h : Reads p L key) : Each p (L.freshEntry self key) := by
  unfold Loader.freshEntry
  refine each_bind h.entry fun cached => ?_
  cases cached with
  | none => trivial
  | some entry =>
    refine each_bind (each_call h.nowEpoch) fun now => ?_
    split
    · trivial
    · trivial

theorem each_readPersisted (h : Reads p L key) : Each p (L.readPersisted key).run := by
  unfold Loader.readPersisted
  refine each_lift_bind h.contains fun cached => ?_
  cases cached with
  | true => trivial
  | false =>
    refine each_run_bind (each_readJson h.read h.resume) fun found => ?_
    cases found with
    | none => trivial
    | some entry =>
      dsimp only
      cases L.validate key entry.value with
      | error error => trivial
      | ok value => exact each_bind (h.insert entry) fun _ => trivial

theorem each_fallback (h : Reads p L key) (cached : Option (CacheEntry α)) (error : MetadataError) :
    Each p (L.fallback key cached error).run := by
  unfold Loader.fallback
  cases cached with
  | some entry => trivial
  | none =>
    refine each_lift_bind h.entry fun found => ?_
    cases found with
    | none => trivial
    | some entry => trivial

theorem each_refreshOrCached (h : Performs p L key) : Each p (L.refreshOrCached key).run := by
  unfold Loader.refreshOrCached
  refine each_lift_bind h.entry fun cached => ?_
  refine each_lift_bind (each_call h.refreshAllowed) fun allowed => ?_
  cases allowed with
  | false =>
    cases cached with
    | none => trivial
    | some entry => trivial
  | true =>
    refine each_lift_bind h.refresh fun result => ?_
    cases result with
    | ok entry => exact each_lift_bind (each_call h.clearFailure) fun _ => trivial
    | error error =>
      have hfallback := each_fallback h.toReads cached error
      dsimp only
      split
      · exact each_lift_bind (each_call h.recordFailure) fun _ => hfallback
      · exact hfallback

theorem each_load (h : Performs p L key) : Each p (L.load self key).run := by
  have hfresh : Each p (L.freshEntry self key) := each_freshEntry h.toReads
  unfold Loader.load
  refine each_bind h.enter fun presence => ?_
  refine each_bind ?_ fun result => each_bind (h.leave presence result) fun _ => trivial
  refine each_bind hfresh fun fresh => ?_
  cases fresh with
  | some entry => trivial
  | none =>
    refine each_guarded h.lock ?_
    unfold Loader.loadLocked
    refine each_lift_bind hfresh fun fresh => ?_
    cases fresh with
    | some entry => trivial
    | none =>
      refine each_run_bind (each_readPersisted h.toReads) fun _ => ?_
      refine each_lift_bind hfresh fun fresh => ?_
      cases fresh with
      | some entry => trivial
      | none => exact each_refreshOrCached h

end Loaders

end OpenTfMirror.LoaderOps
