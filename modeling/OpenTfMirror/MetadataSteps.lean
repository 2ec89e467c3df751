import OpenTfMirror.MetadataInvariant

/-!
# What the metadata service keeps under a change

Paths and documents first. Then each part of the invariant, and the frames of
the tasks, under the changes that do not touch what they speak about.
-/

namespace OpenTfMirror.MetadataSteps

open TaskProgram TaskLogic KeyedLocks FileNames FileStore Outbound Provider Metadata
  MetadataService IndexDiscovery MetadataMachine MetadataInvariant

section Paths

variable {service : ProviderMetadataService}

/-- Different keys have different indices. -/
theorem indexPath_inj {key key' : ProviderKey} (h : service.indexPath key = service.indexPath key') :
    key = key' := by
  have hdir := (List.append_inj' h rfl).1
  have hparts := List.append_cancel_left hdir
  cases key
  cases key'
  simpa using hparts

/-- Different versions have different documents. -/
theorem versionPath_inj {key key' : VersionKey}
    (h : service.versionPath key = service.versionPath key') : key = key' := by
  obtain ⟨hdir, hname⟩ := List.append_inj' h rfl
  have hprovider := List.append_cancel_left hdir
  have hversion := (eq_of_append_eq rfl (List.singleton_inj.mp hname)).1
  cases key with
  | mk provider version =>
    cases key' with
    | mk provider' version' =>
      cases provider
      cases provider'
      simp only [List.cons.injEq] at hprovider
      simp_all

/-- Only a version named like the index has its document at the index. -/
theorem versionPath_ne_indexPath {key : VersionKey} {provider : ProviderKey}
    (h : key.version ≠ "index") : service.versionPath key ≠ service.indexPath provider := by
  intro heq
  have hname := List.singleton_inj.mp (List.append_inj' heq rfl).2
  exact h (eq_of_append_eq (b := "index") (y := ".json") rfl hname).1

/-- Such a version shares its document with the index of its provider. -/
theorem indexed_of_path {key : VersionKey} {provider : ProviderKey}
    (h : service.versionPath key = service.indexPath provider) :
    key.version = "index" ∧ key.provider = provider := by
  have hversion : key.version = "index" := by
    by_contra hne
    exact versionPath_ne_indexPath hne h
  have hpath : service.indexPath key.provider = service.indexPath provider := by
    rw [← h]
    unfold ProviderMetadataService.versionPath
    rw [hversion]
    rfl
  exact ⟨hversion, indexPath_inj hpath⟩

/-- Documents are no temporary files. -/
theorem path_not_temporary (document : Document) : ¬Temporary (document.path service) := by
  cases document with
  | index key stamp entry =>
    have hpath : service.indexPath key = service.providerDir key ++ ["index." ++ "json"] := rfl
    rw [Document.path, hpath]
    exact not_temporary (by decide) (by decide)
  | version key entry =>
    have hname : key.version ++ ".json" = (key.version ++ ".") ++ "json" := by
      rw [String.append_assoc]
      rfl
    rw [Document.path, ProviderMetadataService.versionPath, hname]
    exact not_temporary (by decide) (by decide)

theorem temporary_tempPath (dir : Path) (base : String) (pid n : ℕ) :
    Temporary (tempPath dir base pid n) := ⟨dir, base, pid, n, rfl⟩

/-- Temporary files and documents have different paths. -/
theorem tempPath_ne_path (dir : Path) (base : String) (pid n : ℕ) (document : Document) :
    tempPath dir base pid n ≠ document.path service := by
  intro h
  exact path_not_temporary document (h ▸ temporary_tempPath dir base pid n)

/-- The owner of a temporary file is unique. -/
theorem owns_unique {t t' : ℕ} {path : Path} {s : Shared} (h : Owns t path s) (h' : Owns t' path s) :
    t = t' := by
  obtain ⟨dir, pid, n, hpath, howner⟩ := h
  obtain ⟨dir', pid', n', hpath', howner'⟩ := h'
  have hn : n = n' := tempPath_sequence (hpath.symm.trans hpath')
  subst hn
  rw [howner] at howner'
  exact Option.some.inj howner'

/-- Nobody owns an abandoned file. -/
theorem not_owns_of_abandoned {t : ℕ} {path : Path} {s : Shared} (h : Abandoned path s) :
    ¬Owns t path s := by
  intro h'
  obtain ⟨dir, pid, n, hpath, howner, -⟩ := h
  obtain ⟨dir', pid', n', hpath', howner'⟩ := h'
  have hn : n = n' := tempPath_sequence (hpath.symm.trans hpath')
  subst hn
  rw [howner] at howner'
  cases howner'

theorem owns_ne_path {t : ℕ} {path : Path} {s : Shared} (h : Owns t path s) (document : Document) :
    path ≠ document.path service := by
  obtain ⟨dir, pid, n, rfl, -⟩ := h
  exact tempPath_ne_path dir "metadata" pid n document

theorem abandoned_ne_path {path : Path} {s : Shared} (h : Abandoned path s) (document : Document) :
    path ≠ document.path service := by
  obtain ⟨dir, pid, n, rfl, -⟩ := h
  exact tempPath_ne_path dir "metadata" pid n document

end Paths

section Documents

variable {U : Type} [UrlCrate U] [SemverCrate] {service : ProviderMetadataService} {R : Rules}

/-- At the index stands an index, or the version of that name. -/
theorem isIndex_of_path {document : Document} {key : ProviderKey}
    (hsane : Sane U service R document) (hplain : R.plain)
    (hpath : document.path service = service.indexPath key) : ∃ n, IsIndex document key n := by
  cases document with
  | index key' stamp entry =>
    have hkey := indexPath_inj hpath
    subst hkey
    exact ⟨stamp, entry, rfl⟩
  | version key' entry => exact absurd hpath (versionPath_ne_indexPath (hsane.1.notIndex hplain))

omit [SemverCrate] in
/-- At a version's place stands that version. -/
theorem isVersion_of_path {document : Document} {key : VersionKey} (hkey : key.version ≠ "index")
    (hpath : document.path service = service.versionPath key) : ∃ entry, document = .version key entry := by
  cases document with
  | index key' stamp entry => exact absurd hpath.symm (versionPath_ne_indexPath hkey)
  | version key' entry =>
    have hkeys := versionPath_inj hpath
    subst hkeys
    exact ⟨entry, rfl⟩

omit [SemverCrate] in
theorem isIndex_path {document : Document} {key : ProviderKey} {n : ℕ}
    (h : IsIndex document key n) : document.path service = service.indexPath key := by
  obtain ⟨entry, rfl⟩ := h
  rfl

omit [SemverCrate] in
theorem isIndex_unique {document : Document} {key key' : ProviderKey} {n n' : ℕ}
    (h : IsIndex document key n) (h' : IsIndex document key' n') : key = key' ∧ n = n' := by
  obtain ⟨entry, rfl⟩ := h
  obtain ⟨entry', heq⟩ := h'
  cases heq
  exact ⟨rfl, rfl⟩

/-- What a refresh merged for a key passes the check of the persisted document. -/
theorem validate_of_accepted {key : VersionKey} {entry : VersionEntry}
    (hkey : AdmissibleVersion service R key) (h : AcceptedVersion U key entry.value)
    (hversion : entry.value.version = key.version)
    (hnormal : normalizeVersion key.version = key.version) :
    validateVersionMetadata U key entry.value = .ok () := by
  have hcount : ¬128 < entry.value.platforms.length := by
    have := h.count
    omega
  have hvalid : validateVersion entry.value.version "version" = .ok () := by
    rw [validateVersion, hversion, hnormal, hkey.version]
    rfl
  unfold validateVersionMetadata
  rw [if_neg (by simp [h.hostname, h.providerNamespace, h.providerType])]
  rw [hvalid, bind_ok]
  refine ⟨(), rfl, ?_⟩
  rw [if_neg (by simp [hversion, hnormal]), if_neg hcount]
  exact checkAll_ok.mpr h.packages

/-- A version whose name would be stripped again fails that check. -/
theorem validate_of_stripped {key : VersionKey} {entry : VersionEntry}
    (hversion : entry.value.version = key.version)
    (hnormal : normalizeVersion key.version ≠ key.version) :
    validateVersionMetadata U key entry.value ≠ .ok () := by
  unfold validateVersionMetadata
  split
  · intro h
    cases h
  · intro h
    obtain ⟨value, -, h⟩ := bind_ok.mp h
    rw [if_pos (by simp [hversion, hnormal])] at h
    cases h

/-- Metadata accepted from a document. -/
theorem accepted_of_validate {key : VersionKey} {metadata : VersionMetadata}
    (h : validateVersionMetadata U key metadata = .ok ()) : AcceptedVersion U key metadata := by
  unfold validateVersionMetadata at h
  split at h
  · cases h
  · rename_i hidentity
    obtain ⟨value, -, h⟩ := bind_ok.mp h
    split at h
    · cases h
    · split at h
      · cases h
      · rename_i hcount
        simp only [Bool.or_eq_true, decide_eq_true_eq, not_or, not_not] at hidentity
        exact ⟨hidentity.1.1, hidentity.1.2, hidentity.2, by omega, checkAll_ok.mp h⟩

variable [JsonCrate]

omit [SemverCrate] in
/-- A complete index on disk counts as available. -/
theorem persistedIndex_of_toVec {key : ProviderKey} {stamp : ℕ} {entry : IndexEntry} {bytes : Bytes}
    (hvalid : validateRegistryVersions entry.value = .ok ())
    (hbytes : (Document.index key stamp entry).toVec = .ok bytes) : persistedIndex bytes = true := by
  unfold persistedIndex
  rw [JsonCrate.index_roundTrip entry bytes hbytes]
  simp only [hvalid]
  rfl

/-- A complete version on disk counts as available exactly when its name is not stripped. -/
theorem persistedVersion_of_toVec {key : VersionKey} {entry : VersionEntry} {bytes : Bytes}
    (hsane : Sane U service R (.version key entry))
    (hbytes : (Document.version key entry).toVec = .ok bytes) :
    persistedVersion U key bytes = true ↔ normalizeVersion key.version = key.version := by
  unfold persistedVersion
  rw [JsonCrate.version_roundTrip entry bytes hbytes]
  obtain ⟨hkey, haccepted, hversion⟩ := hsane
  constructor
  · intro h
    by_contra hnormal
    have hinvalid := validate_of_stripped (U := U) hversion hnormal
    cases hresult : validateVersionMetadata U key entry.value with
    | ok value => exact hinvalid hresult
    | error error =>
      simp only [hresult] at h
      cases h
  · intro hnormal
    simp only [validate_of_accepted hkey haccepted hversion hnormal]
    rfl

end Documents

section Relations

variable {U : Type} [UrlCrate U] [SemverCrate] [JsonCrate]
variable {service : ProviderMetadataService} {R : Rules} {s s' s₁ s₂ s₃ : Shared}

theorem grows_refl (s : Shared) : Grows U service R s s where
  indices _ h := h
  versions _ h := h
  index_available _ h := h
  version_available _ _ h := h
  settled _ h := h
  fetched _ h := h
  published _ h := h
  refreshed _ h := h
  found _ h := h
  stamp := le_refl _
  written _ _ _ n h := ⟨n, h, le_refl n⟩

theorem grows_trans (h : Grows U service R s₁ s₂) (h' : Grows U service R s₂ s₃) :
    Grows U service R s₁ s₃ where
  indices key hk := h'.indices key (h.indices key hk)
  versions key hk := h'.versions key (h.versions key hk)
  index_available key hk := h'.index_available key (h.index_available key hk)
  version_available key hne hk := h'.version_available key hne (h.version_available key hne hk)
  settled key hk := h'.settled key (h.settled key hk)
  fetched x hx := h'.fetched x (h.fetched x hx)
  published x hx := h'.published x (h.published x hx)
  refreshed x hx := h'.refreshed x (h.refreshed x hx)
  found x hx := h'.found x (h.found x hx)
  stamp := le_trans h.stamp h'.stamp
  written ho hp key n hn := by
    obtain ⟨n₂, hn₂, hle₂⟩ := h.written ho hp key n hn
    obtain ⟨n₃, hn₃, hle₃⟩ := h'.written ho hp key n₂ hn₂
    exact ⟨n₃, hn₃, le_trans hle₂ hle₃⟩

theorem frame_refl (t : ℕ) (s : Shared) : Frame U service R t s s where
  grows := grows_refl s
  index_locks := same_refl t _
  version_locks := same_refl t _
  cached _ _ := rfl
  published _ _ _ h _ := h
  below _ _ _ h := h
  placed _ _ _ _ _ _ h := h
  temps _ h := ⟨h, rfl, rfl⟩
  flights _ _ := Iff.rfl

theorem frame_trans (t : ℕ) (s₁ s₂ s₃ : Shared) (h : Frame U service R t s₁ s₂)
    (h' : Frame U service R t s₂ s₃) : Frame U service R t s₁ s₃ where
  grows := grows_trans h.grows h'.grows
  index_locks := h.index_locks.trans h'.index_locks
  version_locks := h.version_locks.trans h'.version_locks
  cached key hk := (h'.cached key (h.index_locks.holds_iff.mpr hk)).trans (h.cached key hk)
  published key hk p hp hkey :=
    h.published key hk p (h'.published key (h.index_locks.holds_iff.mpr hk) p hp hkey) hkey
  below key n hk hb := h'.below key n (h.index_locks.holds_iff.mpr hk) (h.below key n hk hb)
  placed ho hp key n entry hk hb :=
    h'.placed ho hp key n entry (h.index_locks.holds_iff.mpr hk) (h.placed ho hp key n entry hk hb)
  temps path hpath := by
    obtain ⟨howns, hfiles, hunreported⟩ := h.temps path hpath
    obtain ⟨howns', hfiles', hunreported'⟩ := h'.temps path howns
    exact ⟨howns', hfiles'.trans hfiles, hunreported'.trans hunreported⟩
  flights flight hflight := (h'.flights flight hflight).trans (h.flights flight hflight)

variable (U service R)

/-- What proofs about single tasks rely on. -/
def assertions : Assertions Op Shared where
  inv := Inv U service R
  frame := Frame U service R
  pre := Pre U service R
  frame_refl := frame_refl
  frame_trans := frame_trans

variable {U service R}

theorem indexOrigin_grows {key : ProviderKey} {entry : IndexEntry}
    (h : IndexOrigin service key entry s) (hg : Grows U service R s s') :
    IndexOrigin service key entry s' := by
  rcases h with ⟨stamp, hp⟩ | ⟨bytes, hfound, hrest⟩
  · exact .inl ⟨stamp, hg.published _ hp⟩
  · exact .inr ⟨bytes, hg.found _ hfound, hrest⟩

theorem answered_grows {document : Document} (h : Answered document s)
    (hg : Grows U service R s s') : Answered document s' :=
  fun key stamp entry hdocument => hg.fetched _ (h key stamp entry hdocument)

theorem versionOrigin_grows {key : VersionKey} {entry : VersionEntry}
    (h : VersionOrigin U service key entry s) (hg : Grows U service R s s') :
    VersionOrigin U service key entry s' := by
  rcases h with hr | ⟨bytes, hfound, hrest⟩
  · exact .inl (hg.refreshed _ hr)
  · exact .inr ⟨bytes, hg.found _ hfound, hrest⟩

end Relations

section Transfer

variable {service : ProviderMetadataService} {t : ℕ} {s s' : Shared}

theorem indexPath_not_temporary (service : ProviderMetadataService) (key : ProviderKey) :
    ¬Temporary (service.indexPath key) :=
  path_not_temporary (.index key 0 ⟨0, true, []⟩)

theorem versionPath_not_temporary (service : ProviderMetadataService) (key : VersionKey) :
    ¬Temporary (service.versionPath key) :=
  path_not_temporary (.version key ⟨0, true, ⟨"", "", "", "", []⟩⟩)

theorem tempOf_rename {op : FileOp} {source target : Path} {document : Document}
    (h : op = .rename source target document) : tempOf op = some source := by
  rw [h]
  rfl

/-- Where documents stand the files are the same. -/
def SameDocuments (s s' : Shared) : Prop :=
  ∀ path, ¬Temporary path → s'.files.lookup path = s.files.lookup path

theorem flightInv_transfer (h : FlightInv s) (hflights : s'.inFlight = s.inFlight)
    (hfetched : s'.fetched = s.fetched) (hstamp : s.nextStamp ≤ s'.nextStamp)
    (hlocks : ∀ flight ∈ s.inFlight, s.indexLocks.Holds flight.task flight.key →
      s'.indexLocks.Holds flight.task flight.key) : FlightInv s' where
  holds flight hflight := by
    rw [hflights] at hflight
    exact hlocks flight hflight (h.holds flight hflight)
  tasks := by
    rw [hflights]
    exact h.tasks
  stamps := by
    rw [hflights]
    exact h.stamps
  started flight hflight := by
    rw [hflights] at hflight
    exact lt_of_lt_of_le (h.started flight hflight) hstamp
  unanswered := by
    rw [hflights, hfetched]
    exact h.unanswered

theorem publishInv_transfer (h : PublishInv s) (hfetched : s'.fetched = s.fetched)
    (hpublished : s'.published = s.published) (hstamp : s.nextStamp ≤ s'.nextStamp)
    (hindices : ∀ p ∈ s.published, s'.indices.lookup p.key = s.indices.lookup p.key) :
    PublishInv s' where
  fetched fetch hfetch := by
    rw [hfetched] at hfetch
    exact lt_of_lt_of_le (h.fetched fetch hfetch) hstamp
  stamps := by
    rw [hfetched]
    exact h.stamps
  published := by
    rw [hpublished, hfetched]
    exact h.published
  sorted := by
    rw [hpublished]
    exact h.sorted
  cached key p hp := by
    rw [hpublished] at hp
    have hkey : p.key = key := by simpa using List.find?_some hp
    have hmem := List.mem_of_find?_eq_some hp
    rw [← hkey, hindices p hmem, hkey]
    exact h.cached key p hp

theorem orderInv_transfer (h : OrderInv service s) (hdetached : s'.detached.Sublist s.detached)
    (hpublished : s'.published = s.published) (hwritten : s'.written = s.written)
    (hlatest : s'.latest = s.latest) : OrderInv service s' where
  detached := h.detached.sublist hdetached
  newer d hd key n hn hle m hm := by
    rw [hlatest] at hle
    rw [Written, hwritten] at hm
    exact h.newer d (hdetached.subset hd) key n hn hle m hm
  persisted p hp := by
    rw [hpublished] at hp
    rw [hwritten]
    exact h.persisted p hp

variable {U : Type} [UrlCrate U] [SemverCrate] [JsonCrate] {R : Rules}

/-- Nothing shrinks when the documents stay. -/
theorem grows_of (hindices : ∀ key, key ∈ s.indices → key ∈ s'.indices)
    (hversions : ∀ key, key ∈ s.versions → key ∈ s'.versions) (hfiles : SameDocuments s s')
    (hfetched : ∀ x ∈ s.fetched, x ∈ s'.fetched) (hpublished : ∀ x ∈ s.published, x ∈ s'.published)
    (hrefreshed : ∀ x ∈ s.refreshed, x ∈ s'.refreshed) (hfound : ∀ x ∈ s.found, x ∈ s'.found)
    (hstamp : s.nextStamp ≤ s'.nextStamp) (hwritten : s'.written = s.written) :
    Grows U service R s s' where
  indices := hindices
  versions := hversions
  index_available key h := by
    have hpath := hfiles _ (indexPath_not_temporary service key)
    simp only [Shared.indexAvailable, Bool.or_eq_true, decide_eq_true_eq] at h ⊢
    rw [hpath]
    exact h.imp_left (hindices key)
  version_available key _ h := by
    have hpath := hfiles _ (versionPath_not_temporary service key)
    simp only [Shared.versionAvailable, Bool.or_eq_true, decide_eq_true_eq] at h ⊢
    rw [hpath]
    exact h.imp_left (hversions key)
  settled key h hnormal := by
    rw [hfiles _ (versionPath_not_temporary service key)]
    exact (h hnormal).imp_left (hversions key)
  fetched := hfetched
  published := hpublished
  refreshed := hrefreshed
  found := hfound
  stamp := hstamp
  written _ _ key n h := by
    refine ⟨n, ?_, le_refl n⟩
    rw [Written, hwritten]
    exact h

theorem cacheInv_transfer (h : CacheInv U service R s) (hg : Grows U service R s s')
    (hindices : s'.indices = s.indices) (hversions : s'.versions = s.versions) :
    CacheInv U service R s' where
  indices key entry hentry := by
    rw [hindices] at hentry
    obtain ⟨hkey, hvalid, horigin⟩ := h.indices key entry hentry
    exact ⟨hkey, hvalid, indexOrigin_grows horigin hg⟩
  versions key entry hentry := by
    rw [hversions] at hentry
    obtain ⟨hkey, haccepted, horigin⟩ := h.versions key entry hentry
    exact ⟨hkey, haccepted, versionOrigin_grows horigin hg⟩

/-- Operations of dropped requests disappear, and temporary files of others change. -/
theorem fileInv_transfer (h : FileInv U service R s) (hg : Grows U service R s s')
    (hdetached : s'.detached.Sublist s.detached) (howner : s'.owner = s.owner)
    (hsequence : s'.sequence = s.sequence) (hissued : s.issued ≤ s'.issued)
    (hwritten : s'.written = s.written) (hlatest : s'.latest = s.latest)
    (hfiles : SameDocuments s s')
    (hsources : ∀ d ∈ s'.detached, ∀ path, tempOf d.op = some path →
      s'.files.lookup path = s.files.lookup path) : FileInv U service R s' where
  owner := by
    rw [howner, hsequence]
    exact h.owner
  written path document hdocument := by
    rw [hwritten] at hdocument
    obtain ⟨hsane, hpath, bytes, hbytes, hfile⟩ := h.written path document hdocument
    refine ⟨hsane, hpath, bytes, hbytes, ?_⟩
    rw [hfiles path (hpath ▸ path_not_temporary document)]
    exact hfile
  answered path document hdocument := by
    rw [hwritten] at hdocument
    exact answered_grows (h.answered path document hdocument) hg
  written_lt key n hn := by
    rw [Written, hwritten] at hn
    exact lt_of_lt_of_le (h.written_lt key n hn) hg.stamp
  latest path := by
    rw [hlatest]
    exact lt_of_lt_of_le (h.latest path) hissued
  issue d hd := lt_of_lt_of_le (h.issue d (hdetached.subset hd)) hissued
  abandoned d hd path hpath := by
    rw [Abandoned, howner, hsequence]
    exact h.abandoned d (hdetached.subset hd) path hpath
  publishable d hd source target document hop := by
    have hold := h.publishable d (hdetached.subset hd) source target document hop
    obtain ⟨bytes, hbytes, hfile⟩ := hold.complete
    refine ⟨hold.sane, hold.target, ⟨bytes, hbytes, ?_⟩, fun key n hn => ?_,
      fun key entry hkey => ?_, fun key entry hkey hindex => ?_, answered_grows hold.answered hg⟩
    · rw [hsources d hd source (tempOf_rename hop)]
      exact hfile
    · exact lt_of_lt_of_le (hold.stamp key n hn) hg.stamp
    · exact hg.settled key (hold.settled key entry hkey)
    · exact hg.indices _ (hold.indexed key entry hkey hindex)
  distinct := h.distinct.sublist hdetached

theorem loadInv_transfer (h : LoadInv U service R s) (hg : Grows U service R s s')
    (hindices : s'.indexLoads = s.indexLoads) (hversions : s'.versionLoads = s.versionLoads) :
    LoadInv U service R s' where
  indices load hload := by
    rw [hindices] at hload
    obtain ⟨horigin, havailable⟩ := h.indices load hload
    exact ⟨fun entry hentry => indexOrigin_grows (horigin entry hentry) hg, havailable⟩
  versions load hload := by
    rw [hversions] at hload
    obtain ⟨horigin, havailable⟩ := h.versions load hload
    exact ⟨fun entry hentry => versionOrigin_grows (horigin entry hentry) hg, havailable⟩

/-- What a task keeps when no document is renamed. -/
theorem frame_of (hg : Grows U service R s s') (hindex : s.indexLocks.Same t s'.indexLocks)
    (hversion : s.versionLocks.Same t s'.versionLocks)
    (hcached : ∀ key, s.indexLocks.Holds t key → s'.indices.lookup key = s.indices.lookup key)
    (hpublished : ∀ key, s.indexLocks.Holds t key → ∀ p ∈ s'.published, p.key = key →
      p ∈ s.published)
    (hdetached : ∀ key, s.indexLocks.Holds t key → ∀ d ∈ s'.detached, ∀ n, Publishes d.op key n →
      d ∈ s.detached)
    (hwritten : s'.written = s.written) (hlatest : s'.latest = s.latest)
    (htemps : ∀ path, Owns t path s → Owns t path s' ∧
      s'.files.lookup path = s.files.lookup path ∧ s'.unreported path = s.unreported path)
    (hflights : ∀ flight, flight.task = t → (flight ∈ s'.inFlight ↔ flight ∈ s.inFlight)) :
    Frame U service R t s s' where
  grows := hg
  index_locks := hindex
  version_locks := hversion
  cached := hcached
  published := hpublished
  below key n hheld h := by
    refine ⟨fun p hp hkey => h.published p (hpublished key hheld p hp hkey) hkey, ?_, ?_⟩
    · intro m hm
      rw [Written, hwritten] at hm
      exact h.written m hm
    · intro d hd m hm
      exact h.detached d (hdetached key hheld d hd m hm) m hm
  placed _ _ key n entry hheld h := by
    refine ⟨?_, ?_⟩
    · rw [hwritten]
      exact h.written
    · intro d hd m hm
      rw [hlatest]
      exact h.detached d (hdetached key hheld d hd m hm) m hm
  temps := htemps
  flights := hflights

end Transfer

section Changes

variable {U : Type} [UrlCrate U] [SemverCrate] [JsonCrate]
variable {service : ProviderMetadataService} {R : Rules} {t : ℕ} {s s' : Shared}

/-- The invariant still holds, and these tasks keep their frames. -/
structure Keeps (U : Type) [UrlCrate U] [SemverCrate] [JsonCrate]
    (service : ProviderMetadataService) (R : Rules) (others : ℕ → Prop) (s s' : Shared) : Prop where
  inv : Inv U service R s'
  frame : ∀ t, others t → Frame U service R t s s'

/-- Every task but this one. -/
def Others (t : ℕ) : ℕ → Prop := fun t' => t' ≠ t

/-- Every task. -/
def Everyone : ℕ → Prop := fun _ => True

/-- Changes of temporary files that belong to none of the tasks, of the record
of file contents, and of what the invariant does not mention. -/
structure Unseen (others : ℕ → Prop) (s s' : Shared) : Prop where
  indices : s'.indices = s.indices
  versions : s'.versions = s.versions
  indexLocks : s'.indexLocks = s.indexLocks
  versionLocks : s'.versionLocks = s.versionLocks
  sequence : s'.sequence = s.sequence
  owner : s'.owner = s.owner
  detached : s'.detached.Sublist s.detached
  issued : s.issued ≤ s'.issued
  inFlight : s'.inFlight = s.inFlight
  nextStamp : s'.nextStamp = s.nextStamp
  fetched : s'.fetched = s.fetched
  published : s'.published = s.published
  refreshed : s'.refreshed = s.refreshed
  written : s'.written = s.written
  latest : s'.latest = s.latest
  indexLoads : s'.indexLoads = s.indexLoads
  versionLoads : s'.versionLoads = s.versionLoads
  found : ∀ x ∈ s.found, x ∈ s'.found
  files : SameDocuments s s'
  sources : ∀ d ∈ s'.detached, ∀ path, tempOf d.op = some path →
    s'.files.lookup path = s.files.lookup path
  temps : ∀ t, others t → ∀ path, Owns t path s →
    s'.files.lookup path = s.files.lookup path ∧ s'.unreported path = s.unreported path

theorem Unseen.grows {others : ℕ → Prop} (h : Unseen others s s') : Grows U service R s s' := by
  refine grows_of ?_ ?_ h.files ?_ ?_ ?_ h.found ?_ h.written
  · rw [h.indices]
    exact fun _ hkey => hkey
  · rw [h.versions]
    exact fun _ hkey => hkey
  · rw [h.fetched]
    exact fun _ hx => hx
  · rw [h.published]
    exact fun _ hx => hx
  · rw [h.refreshed]
    exact fun _ hx => hx
  · rw [h.nextStamp]

theorem keeps_unseen {others : ℕ → Prop} (hs : Inv U service R s) (h : Unseen others s s') :
    Keeps U service R others s s' := by
  have hg : Grows U service R s s' := h.grows
  have hstamp : s.nextStamp ≤ s'.nextStamp := hg.stamp
  constructor
  · constructor
    · rw [h.indexLocks]
      exact hs.index_locks
    · rw [h.versionLocks]
      exact hs.version_locks
    · exact cacheInv_transfer hs.caches hg h.indices h.versions
    · refine flightInv_transfer hs.flights h.inFlight h.fetched hstamp fun flight _ hheld => ?_
      rw [h.indexLocks]
      exact hheld
    · refine publishInv_transfer hs.published h.fetched h.published hstamp fun p _ => ?_
      rw [h.indices]
    · exact fileInv_transfer hs.files hg h.detached h.owner h.sequence h.issued h.written h.latest h.files
        h.sources
    · exact fun ho hp => orderInv_transfer (hs.order ho hp) h.detached h.published h.written h.latest
    · exact loadInv_transfer hs.loads hg h.indexLoads h.versionLoads
  · intro t ht
    refine frame_of hg ?_ ?_ ?_ ?_ ?_ h.written h.latest ?_ ?_
    · rw [h.indexLocks]
      exact same_refl t _
    · rw [h.versionLocks]
      exact same_refl t _
    · intro key _
      rw [h.indices]
    · intro key _ p hp _
      rw [h.published] at hp
      exact hp
    · exact fun key _ d hd _ _ => h.detached.subset hd
    · intro path howns
      refine ⟨?_, h.temps t ht path howns⟩
      rw [Owns, h.owner]
      exact howns
    · intro flight _
      rw [h.inFlight]

end Changes

end OpenTfMirror.MetadataSteps
