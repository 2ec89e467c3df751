import OpenTfMirror.MetadataSteps

/-!
# File operations of the metadata service

An operation changes its temporary file, or renames a complete document to its
place. The order in which index documents reach their file is kept as long as a
rename fits into it.
-/

namespace OpenTfMirror.MetadataFiles

open TaskProgram TaskLogic KeyedLocks FileNames FileStore Outbound Provider Metadata
  MetadataService IndexDiscovery MetadataMachine MetadataInvariant MetadataSteps

section FileOperations

/-- Apart from a rename, an operation changes its temporary file at most. -/
theorem fileOp_touches {base s' : Shared} {issue : ℕ} {op : FileOp} {choice : Choice}
    {answer : Except IoError Bytes}
    (hop : ∀ source target document, op ≠ .rename source target document)
    (h : base.fileOp issue op choice = some (answer, s')) :
    ∃ files unreported found,
      s' = { base with files := files, unreported := unreported, found := found } ∧
      (∀ path, tempOf op ≠ some path → files.lookup path = base.files.lookup path ∧
        unreported path = base.unreported path) ∧ ∀ x ∈ base.found, x ∈ found := by
  have hsame : ∃ files unreported found,
      base = { base with files := files, unreported := unreported, found := found } ∧
      (∀ path, tempOf op ≠ some path → files.lookup path = base.files.lookup path ∧
        unreported path = base.unreported path) ∧ ∀ x ∈ base.found, x ∈ found :=
    ⟨base.files, base.unreported, base.found, rfl, fun _ _ => ⟨rfl, rfl⟩, fun _ hx => hx⟩
  have hreported : ∀ path (u : Path → Bool) (b : Bool), tempOf op = some path →
      ∀ path', tempOf op ≠ some path' → Function.update u path b path' = u path' := by
    intro path u b hpath path' hpath'
    refine Function.update_of_ne (fun heq => hpath' ?_) _ _
    rw [heq]
    exact hpath
  have hwritten : ∀ path (files : Files) (bytes : Bytes), tempOf op = some path →
      ∀ path', tempOf op ≠ some path' → (files.insert path bytes).lookup path' = files.lookup path' := by
    intro path files bytes hpath path' hpath'
    refine AList.lookup_insert_ne fun heq => hpath' ?_
    rw [heq]
    exact hpath
  cases op with
  | read path =>
    unfold Shared.fileOp Shared.read at h
    cases choice with
    | ok =>
      dsimp only at h
      split at h
      · cases h
        exact hsame
      · cases h
        exact ⟨_, _, _, rfl, fun _ _ => ⟨rfl, rfl⟩, fun _ hx => List.mem_cons_of_mem _ hx⟩
    | fail message =>
      cases h
      exact hsame
    | _ => cases h
  | createDirAll dir =>
    unfold Shared.fileOp Shared.attempt at h
    cases choice with
    | ok =>
      cases h
      exact hsame
    | fail message =>
      cases h
      exact hsame
    | _ => cases h
  | syncParent dir =>
    unfold Shared.fileOp Shared.attempt at h
    cases choice with
    | ok =>
      cases h
      exact hsame
    | fail message =>
      cases h
      exact hsame
    | _ => cases h
  | createNew path =>
    unfold Shared.fileOp Shared.createNew at h
    cases choice with
    | ok =>
      dsimp only at h
      split at h
      · cases h
      · cases h
        exact ⟨_, _, _, rfl, fun path' hpath' =>
          ⟨hwritten path _ _ rfl path' hpath', hreported path _ _ rfl path' hpath'⟩, fun _ hx => hx⟩
    | fail message =>
      cases h
      exact hsame
    | _ => cases h
  | writeAll path bytes =>
    unfold Shared.fileOp Shared.write at h
    cases choice with
    | ok =>
      dsimp only at h
      split at h
      · cases h
      · split at h
        · cases h
        · cases h
          exact ⟨_, _, _, rfl, fun path' hpath' => ⟨hwritten path _ _ rfl path' hpath', rfl⟩,
            fun _ hx => hx⟩
    | cut n message =>
      dsimp only at h
      split at h
      · cases h
      · cases h
        exact ⟨_, _, _, rfl, fun path' hpath' => ⟨hwritten path _ _ rfl path' hpath', rfl⟩,
          fun _ hx => hx⟩
    | lost n =>
      dsimp only at h
      split at h
      · cases h
      · cases h
        exact ⟨_, _, _, rfl, fun path' hpath' =>
          ⟨hwritten path _ _ rfl path' hpath', hreported path _ _ rfl path' hpath'⟩, fun _ hx => hx⟩
    | fail message =>
      cases h
      exact hsame
    | _ => cases h
  | syncAll path =>
    unfold Shared.fileOp Shared.syncAll at h
    cases choice with
    | ok =>
      dsimp only at h
      split at h
      · cases h
      · cases h
        exact hsame
    | fail message =>
      cases h
      exact ⟨_, _, _, rfl, fun path' hpath' => ⟨rfl, hreported path _ _ rfl path' hpath'⟩,
        fun _ hx => hx⟩
    | _ => cases h
  | rename source target document => exact absurd rfl (hop source target document)
  | removeFile path =>
    unfold Shared.fileOp Shared.attempt at h
    cases choice with
    | ok =>
      cases h
      refine ⟨_, _, _, rfl, fun path' hpath' => ⟨?_, rfl⟩, fun _ hx => hx⟩
      exact AList.lookup_erase_ne fun heq => hpath' (by rw [heq]; rfl)
    | fail message =>
      cases h
      exact hsame
    | _ => cases h

/-- A new file is empty. -/
theorem createNew_content {base s' : Shared} {issue : ℕ} {temp : Path} {choice : Choice}
    {bytes : Bytes} (h : base.fileOp issue (.createNew temp) choice = some (.ok bytes, s')) :
    s'.files.lookup temp = some [] ∧ s'.unreported temp = false := by
  unfold Shared.fileOp Shared.createNew at h
  cases choice with
  | ok =>
    dsimp only at h
    split at h
    · cases h
    · cases h
      exact ⟨AList.lookup_insert _, Function.update_self ..⟩
  | fail message => cases h
  | _ => cases h

/-- A document that was written to it is complete, or the failure will be reported. -/
theorem writeAll_content {base s' : Shared} {issue : ℕ} {temp : Path} {choice : Choice}
    {bytes written : Bytes} (hcontent : base.files.lookup temp = some [])
    (hreported : base.unreported temp = false)
    (h : base.fileOp issue (.writeAll temp bytes) choice = some (.ok written, s')) :
    s'.files.lookup temp = some bytes ∨ s'.unreported temp = true := by
  unfold Shared.fileOp Shared.write at h
  cases choice with
  | ok =>
    dsimp only at h
    rw [hcontent] at h
    dsimp only at h
    rw [hreported] at h
    cases h
    exact .inl (AList.lookup_insert _)
  | cut n message =>
    dsimp only at h
    rw [hcontent] at h
    cases h
  | lost n =>
    dsimp only at h
    rw [hcontent] at h
    cases h
    exact .inr (Function.update_self ..)
  | fail message => cases h
  | _ => cases h

/-- A file is synchronized only when no failure is left to report. -/
theorem syncAll_content {base s' : Shared} {issue : ℕ} {temp : Path} {choice : Choice}
    {bytes : Bytes} (h : base.fileOp issue (.syncAll temp) choice = some (.ok bytes, s')) :
    s' = base ∧ base.unreported temp = false := by
  unfold Shared.fileOp Shared.syncAll at h
  cases choice with
  | ok =>
    dsimp only at h
    split at h
    · cases h
    · next hunreported =>
        cases h
        exact ⟨rfl, by simpa using hunreported⟩
  | fail message => cases h
  | _ => cases h

/-- A file that is written to or synchronized stays. -/
theorem fileOp_present {base s' : Shared} {issue : ℕ} {op : FileOp} {temp : Path} {choice : Choice}
    {answer : Except IoError Bytes} (hop : (∃ bytes, op = .writeAll temp bytes) ∨ op = .syncAll temp)
    (hpresent : base.files.lookup temp ≠ none)
    (h : base.fileOp issue op choice = some (answer, s')) : s'.files.lookup temp ≠ none := by
  have hinserted : ∀ content, (base.files.insert temp content).lookup temp ≠ none := by
    intro content
    rw [AList.lookup_insert]
    exact nofun
  rcases hop with ⟨bytes, rfl⟩ | rfl
  · unfold Shared.fileOp Shared.write at h
    cases choice with
    | ok =>
      dsimp only at h
      split at h
      · cases h
      · split at h
        · cases h
        · cases h
          exact hinserted _
    | cut n message =>
      dsimp only at h
      split at h
      · cases h
      · cases h
        exact hinserted _
    | lost n =>
      dsimp only at h
      split at h
      · cases h
      · cases h
        exact hinserted _
    | fail message =>
      cases h
      exact hpresent
    | _ => cases h
  · unfold Shared.fileOp Shared.syncAll at h
    cases choice with
    | ok =>
      dsimp only at h
      split at h
      · cases h
      · cases h
        exact hpresent
    | fail message =>
      cases h
      exact hpresent
    | _ => cases h

/-- A removal succeeds, or has no effect. -/
theorem removeFile_cases {base s' : Shared} {issue : ℕ} {temp : Path} {choice : Choice}
    {answer : Except IoError Bytes}
    (h : base.fileOp issue (.removeFile temp) choice = some (answer, s')) :
    (s' = base ∧ ∃ error, answer = .error error) ∨
      (answer = .ok [] ∧ s' = { base with files := base.files.erase temp }) := by
  unfold Shared.fileOp Shared.attempt at h
  cases choice with
  | ok =>
    cases h
    exact .inr ⟨rfl, rfl⟩
  | fail message =>
    cases h
    exact .inl ⟨rfl, _, rfl⟩
  | _ => cases h

/-- A rename fails without effect, or moves the source to the target. -/
theorem rename_cases {base s' : Shared} {issue : ℕ} {source target : Path} {document : Document}
    {choice : Choice} {answer : Except IoError Bytes}
    (h : base.fileOp issue (.rename source target document) choice = some (answer, s')) :
    (s' = base ∧ ∃ error, answer = .error error) ∨
      ∃ bytes, base.files.lookup source = some bytes ∧ answer = .ok [] ∧ s' = { base with
        files := (base.files.erase source).insert target bytes
        written := Function.update base.written target (some document)
        latest := Function.update base.latest target issue } := by
  unfold Shared.fileOp Shared.rename at h
  cases choice with
  | ok =>
    dsimp only at h
    split at h
    · cases h
    · rename_i bytes hbytes
      cases h
      exact .inr ⟨bytes, hbytes, rfl, rfl⟩
  | fail message =>
    cases h
    exact .inl ⟨rfl, _, rfl⟩
  | _ => cases h

variable {U : Type} [UrlCrate U] [SemverCrate] [JsonCrate]
variable {service : ProviderMetadataService} {R : Rules} {t : ℕ} {s s' : Shared}

/-- The state in which an operation is carried out: some detached operations
are gone, or one more operation was issued. -/
abbrev basis (s : Shared) (detached : List Detached) (issued : ℕ) : Shared :=
  { s with detached := detached, issued := issued }

omit [SemverCrate] [JsonCrate] in
theorem unseen_fileOp {detached : List Detached} {issued issue : ℕ} {op : FileOp} {choice : Choice}
    {answer : Except IoError Bytes} {others : ℕ → Prop} (hdetached : detached.Sublist s.detached)
    (hissued : s.issued ≤ issued)
    (hop : ∀ source target document, op ≠ .rename source target document)
    (htemp : ∀ path, tempOf op = some path → Temporary path)
    (hsources : ∀ d ∈ detached, ∀ path, tempOf d.op = some path → tempOf op ≠ some path)
    (howns : ∀ t, others t → ∀ path, Owns t path s → tempOf op ≠ some path)
    (h : (basis s detached issued).fileOp issue op choice = some (answer, s')) :
    Unseen others s s' := by
  obtain ⟨files, unreported, found, rfl, hsame, hfound⟩ := fileOp_touches hop h
  exact {
    indices := rfl, versions := rfl, indexLocks := rfl, versionLocks := rfl, sequence := rfl
    owner := rfl, inFlight := rfl, nextStamp := rfl, fetched := rfl, published := rfl
    refreshed := rfl, written := rfl, latest := rfl, indexLoads := rfl, versionLoads := rfl
    detached := hdetached
    issued := hissued
    found := hfound
    files := fun path hpath => (hsame path fun heq => hpath (htemp path heq)).1
    sources := fun d hd path hpath => (hsame path (hsources d hd path hpath)).1
    temps := fun t ht path hpath => hsame path (howns t ht path hpath) }

/-- How a rename fits into the order of the index documents. -/
structure Fits (service : ProviderMetadataService) (R : Rules) (others : ℕ → Prop)
    (detached : List Detached) (issue : ℕ) (document : Document) (s : Shared) : Prop where
  below : ∀ t, others t → ∀ key n, IsIndex document key n → s.indexLocks.Holds t key →
    ∀ m, Below service key m s → n < m
  placed : R.ordered → R.plain → ∀ t, others t → ∀ key n, IsIndex document key n →
    s.indexLocks.Holds t key → ∀ m entry, ¬Placed service key m entry s
  newer : R.ordered → R.plain → ∀ key n, IsIndex document key n → ∀ m, Written service key m s →
    m < n
  later : R.ordered → R.plain → ∀ key n, IsIndex document key n → ∀ d ∈ detached, ∀ m,
    Publishes d.op key m → issue ≤ d.issue → n < m

section Rename

variable {detached : List Detached} {issued issue : ℕ} {source target : Path} {document : Document}
variable {bytes : Bytes}

/-- The state after a rename. -/
abbrev renamed (s : Shared) (detached : List Detached) (issued issue : ℕ) (source target : Path)
    (document : Document) (bytes : Bytes) : Shared :=
  { basis s detached issued with
    files := (s.files.erase source).insert target bytes
    written := Function.update s.written target (some document)
    latest := Function.update s.latest target issue }

omit [SemverCrate] [JsonCrate] in
theorem renamed_latest_target :
    (renamed s detached issued issue source target document bytes).latest target = issue :=
  Function.update_self ..

omit [SemverCrate] [JsonCrate] in
theorem renamed_latest_ne {path : Path} (h : path ≠ target) :
    (renamed s detached issued issue source target document bytes).latest path = s.latest path :=
  Function.update_of_ne h _ _

omit [SemverCrate] [JsonCrate] in
/-- Other files stay. -/
theorem renamed_lookup {path : Path} (hsource : path ≠ source) (htarget : path ≠ target) :
    ((s.files.erase source).insert target bytes).lookup path = s.files.lookup path := by
  rw [AList.lookup_insert_ne htarget, AList.lookup_erase_ne hsource]

theorem renamed_grows (hp : Publishable U service R source target document s)
    (hbytes : s.files.lookup source = some bytes) (htemp : Temporary source)
    (hnewer : R.ordered → R.plain → ∀ key n, IsIndex document key n →
      ∀ m, Written service key m s → m < n) :
    Grows U service R s (renamed s detached issued issue source target document bytes) := by
  have hcomplete : document.toVec = .ok bytes := by
    obtain ⟨bytes', hvec, hfile⟩ := hp.complete
    rw [hbytes] at hfile
    cases hfile
    exact hvec
  have hother : ∀ path, ¬Temporary path → path ≠ target →
      ((s.files.erase source).insert target bytes).lookup path = s.files.lookup path := by
    intro path hpath hne
    refine renamed_lookup (fun heq => hpath ?_) hne
    rw [heq]
    exact htemp
  constructor
  case index_available =>
    intro key h
    simp only [Shared.indexAvailable, Bool.or_eq_true, decide_eq_true_eq] at h ⊢
    by_cases hpath : service.indexPath key = target
    · have htarget := hp.target.trans hpath.symm
      cases document with
      | index key' stamp entry =>
        rw [hpath, AList.lookup_insert]
        exact .inr (persistedIndex_of_toVec hp.sane.2 hcomplete)
      | version key' entry =>
        -- a version named like the index, which is cached then
        obtain ⟨hindex, hprovider⟩ := indexed_of_path htarget
        rw [← hprovider]
        exact .inl (hp.indexed key' entry rfl hindex)
    · rw [hother _ (indexPath_not_temporary service key) hpath]
      exact h
  case version_available =>
    intro key hindex h
    simp only [Shared.versionAvailable, Bool.or_eq_true, decide_eq_true_eq] at h ⊢
    by_cases hpath : service.versionPath key = target
    · obtain ⟨entry, hdocument⟩ := isVersion_of_path hindex (hp.target.trans hpath.symm)
      subst hdocument
      by_cases hnormal : normalizeVersion key.version = key.version
      · rw [hpath, AList.lookup_insert]
        exact .inr ((persistedVersion_of_toVec hp.sane hcomplete).mpr hnormal)
      · rcases hp.settled key entry rfl hnormal with hcached | hfile
        · exact .inl hcached
        · rw [hfile] at h
          exact .inl (h.resolve_right Bool.false_ne_true)
    · rw [hother _ (versionPath_not_temporary service key) hpath]
      exact h
  case settled =>
    intro key h hnormal
    have hindex : key.version ≠ "index" := by
      intro heq
      rw [heq] at hnormal
      exact hnormal (by decide)
    by_cases hpath : service.versionPath key = target
    · obtain ⟨entry, hdocument⟩ := isVersion_of_path hindex (hp.target.trans hpath.symm)
      subst hdocument
      rw [hpath, AList.lookup_insert]
      refine .inr ?_
      rw [Option.any_some, Bool.eq_false_iff]
      intro hvalid
      exact hnormal ((persistedVersion_of_toVec hp.sane hcomplete).mp hvalid)
    · rw [hother _ (versionPath_not_temporary service key) hpath]
      exact h hnormal
  case written =>
    intro hordered hplain key n h
    by_cases hpath : service.indexPath key = target
    · obtain ⟨m, hm⟩ := isIndex_of_path hp.sane hplain (hp.target.trans hpath.symm)
      refine ⟨m, ⟨document, ?_, hm⟩, le_of_lt (hnewer hordered hplain key m hm n h)⟩
      rw [hpath]
      exact Function.update_self ..
    · refine ⟨n, ?_, le_refl n⟩
      obtain ⟨document', hdocument', hn⟩ := h
      exact ⟨document', (Function.update_of_ne hpath _ _).trans hdocument', hn⟩
  case stamp => exact le_refl _
  all_goals exact fun _ h => h

omit [SemverCrate] [JsonCrate] in
/-- An index that was written before the rename, or by it. -/
theorem renamed_written {key : ProviderKey} {n : ℕ}
    (h : Written service key n (renamed s detached issued issue source target document bytes)) :
    IsIndex document key n ∨ (service.indexPath key ≠ target ∧ Written service key n s) := by
  obtain ⟨document', hdocument', hn⟩ := h
  by_cases hpath : service.indexPath key = target
  · rw [hpath] at hdocument'
    have heq := (Function.update_self ..).symm.trans hdocument'
    cases heq
    exact .inl hn
  · exact .inr ⟨hpath, document', (Function.update_of_ne hpath _ _).symm.trans hdocument', hn⟩

theorem renamed_files (hs : FileInv U service R s) (hdetached : detached.Sublist s.detached)
    (hissued : s.issued ≤ issued) (hissue : issue < issued)
    (hp : Publishable U service R source target document s)
    (hbytes : s.files.lookup source = some bytes) (htemp : Temporary source)
    (hsources : ∀ d ∈ detached, tempOf d.op ≠ some source)
    (hg : Grows U service R s (renamed s detached issued issue source target document bytes)) :
    FileInv U service R (renamed s detached issued issue source target document bytes) := by
  have htarget : ¬Temporary target := hp.target ▸ path_not_temporary document
  constructor
  case owner => exact hs.owner
  case written =>
    intro path document' hdocument'
    by_cases hpath : path = target
    · subst hpath
      have heq := (Function.update_self ..).symm.trans hdocument'
      cases heq
      obtain ⟨bytes', hvec, hfile⟩ := hp.complete
      rw [hbytes] at hfile
      cases hfile
      exact ⟨hp.sane, hp.target, bytes, hvec, AList.lookup_insert _⟩
    · have hold := (Function.update_of_ne hpath _ _).symm.trans hdocument'
      obtain ⟨hsane, hplace, bytes', hvec, hfile⟩ := hs.written path document' hold
      refine ⟨hsane, hplace, bytes', hvec, ?_⟩
      rw [renamed_lookup ?_ hpath]
      · exact hfile
      · intro heq
        rw [← heq, ← hplace] at htemp
        exact path_not_temporary document' htemp
  case answered =>
    intro path document' hdocument'
    by_cases hpath : path = target
    · subst hpath
      have heq := (Function.update_self ..).symm.trans hdocument'
      cases heq
      exact hp.answered
    · exact hs.answered path document' ((Function.update_of_ne hpath _ _).symm.trans hdocument')
  case written_lt =>
    intro key n hn
    rcases renamed_written hn with hdocument | ⟨-, hold⟩
    · exact hp.stamp key n hdocument
    · exact hs.written_lt key n hold
  case latest =>
    intro path
    by_cases hpath : path = target
    · subst hpath
      rw [renamed_latest_target]
      exact hissue
    · rw [renamed_latest_ne hpath]
      exact lt_of_lt_of_le (hs.latest path) hissued
  case issue =>
    intro d hd
    exact lt_of_lt_of_le (hs.issue d (hdetached.subset hd)) hissued
  case abandoned =>
    intro d hd path hpath
    exact hs.abandoned d (hdetached.subset hd) path hpath
  case publishable =>
    intro d hd source' target' document' hop
    have hold := hs.publishable d (hdetached.subset hd) source' target' document' hop
    have habandoned := hs.abandoned d (hdetached.subset hd) source' (tempOf_rename hop)
    obtain ⟨bytes', hvec, hfile⟩ := hold.complete
    have hne : source' ≠ source := by
      intro heq
      rw [← heq] at hsources
      exact hsources d hd (tempOf_rename hop)
    have hne' : source' ≠ target := by
      rw [← hp.target]
      exact abandoned_ne_path habandoned document
    refine ⟨hold.sane, hold.target, ⟨bytes', hvec, ?_⟩, hold.stamp, fun key entry hkey => ?_,
      fun key entry hkey hindex => hg.indices _ (hold.indexed key entry hkey hindex),
      answered_grows hold.answered hg⟩
    · rw [renamed_lookup hne hne']
      exact hfile
    · exact hg.settled key (hold.settled key entry hkey)
  case distinct => exact hs.distinct.sublist hdetached

theorem renamed_order {others : ℕ → Prop} (hs : OrderInv service s)
    (hdetached : detached.Sublist s.detached)
    (hp : Publishable U service R source target document s) (hordered : R.ordered) (hplain : R.plain)
    (hfits : Fits service R others detached issue document s) :
    OrderInv service (renamed s detached issued issue source target document bytes) := by
  constructor
  · exact hs.detached.sublist hdetached
  · intro d hd key n hn hle m hm
    rcases renamed_written hm with hdocument | ⟨hpath, hold⟩
    · have hpath : service.indexPath key = target := (isIndex_path hdocument).symm.trans hp.target
      rw [hpath, renamed_latest_target] at hle
      exact hfits.later hordered hplain key m hdocument d hd n hn hle
    · rw [renamed_latest_ne hpath] at hle
      exact hs.newer d (hdetached.subset hd) key n hn hle m hold
  · intro p hpublished
    obtain ⟨n, entry, hwritten, hle⟩ := hs.persisted p hpublished
    by_cases hpath : service.indexPath p.key = target
    · obtain ⟨m, hm⟩ := isIndex_of_path hp.sane hplain (hp.target.trans hpath.symm)
      have hlt := hfits.newer hordered hplain p.key m hm n ⟨_, hwritten, entry, rfl⟩
      obtain ⟨entry', rfl⟩ := hm
      refine ⟨m, entry', ?_, .inl (by omega)⟩
      rw [hpath]
      exact Function.update_self ..
    · exact ⟨n, entry, (Function.update_of_ne hpath _ _).trans hwritten, hle⟩

theorem keeps_renamed {others : ℕ → Prop} (hs : Inv U service R s)
    (hdetached : detached.Sublist s.detached) (hissued : s.issued ≤ issued) (hissue : issue < issued)
    (hp : Publishable U service R source target document s)
    (hbytes : s.files.lookup source = some bytes) (htemp : Temporary source)
    (hsources : ∀ d ∈ detached, tempOf d.op ≠ some source)
    (howns : ∀ t, others t → ¬Owns t source s)
    (hfits : Fits service R others detached issue document s) :
    Keeps U service R others s (renamed s detached issued issue source target document bytes) := by
  have hg : Grows U service R s (renamed s detached issued issue source target document bytes) :=
    renamed_grows hp hbytes htemp hfits.newer
  constructor
  · constructor
    · exact hs.index_locks
    · exact hs.version_locks
    · exact cacheInv_transfer hs.caches hg rfl rfl
    · exact flightInv_transfer hs.flights rfl rfl (le_refl _) fun _ _ hheld => hheld
    · exact publishInv_transfer hs.published rfl rfl (le_refl _) fun _ _ => rfl
    · exact renamed_files hs.files hdetached hissued hissue hp hbytes htemp hsources hg
    · exact fun ho hplain => renamed_order (hs.order ho hplain) hdetached hp ho hplain hfits
    · exact loadInv_transfer hs.loads hg rfl rfl
  · intro t ht
    constructor
    case grows => exact hg
    case index_locks => exact same_refl t _
    case version_locks => exact same_refl t _
    case cached => exact fun _ _ => rfl
    case published => exact fun _ _ _ h _ => h
    case below =>
      intro key n hheld h
      refine ⟨h.published, ?_, fun d hd => h.detached d (hdetached.subset hd)⟩
      intro m hm
      rcases renamed_written hm with hdocument | ⟨-, hold⟩
      · exact hfits.below t ht key m hdocument hheld n h
      · exact h.written m hold
    case placed =>
      intro hordered hplain key n entry hheld h
      have hpath : service.indexPath key ≠ target := by
        intro heq
        obtain ⟨m, hm⟩ := isIndex_of_path hp.sane hplain (hp.target.trans heq.symm)
        exact hfits.placed hordered hplain t ht key m hm hheld n entry h
      refine ⟨(Function.update_of_ne hpath _ _).trans h.written, ?_⟩
      intro d hd m hm
      rw [renamed_latest_ne hpath]
      exact h.detached d (hdetached.subset hd) m hm
    case temps =>
      intro path hpath
      refine ⟨hpath, renamed_lookup ?_ ?_, rfl⟩
      · intro heq
        rw [heq] at hpath
        exact howns t ht hpath
      · rw [← hp.target]
        exact owns_ne_path hpath document
    case flights => exact fun _ _ => Iff.rfl

end Rename

end FileOperations

end OpenTfMirror.MetadataFiles
