import OpenTfMirror.MetadataLoaders
import OpenTfMirror.VersionMerge

/-!
# Specifications of the requests

The loader of indices, the forced refresh, the refresh of a version, the loader
of versions, and the requests that use them. With them the machine keeps its
invariant in every run.
-/

namespace OpenTfMirror.MetadataTasks

open TaskProgram TaskLogic Fallible KeyedLocks LockSections FileNames FileStore Outbound Provider
  Metadata MetadataService IndexDiscovery MetadataMachine MetadataInvariant MetadataSteps
  MetadataFiles MetadataExec MetadataProofs MetadataLoaders VersionMerge

section Indices

variable {U : Type} [UrlCrate U] [SemverCrate] [JsonCrate]
variable {service : ProviderMetadataService} {R : Rules} {t : ℕ} {s : Shared}

/-- The task is in no section of an index and waits for no answer. The last
condition is about its version lock. -/
structure Away (t : ℕ) (C : LockTable VersionKey → Prop) (s : Shared) : Prop where
  free : s.indexLocks.handles.lookup t = none
  grounded : Grounded t s
  rest : C s.versionLocks

variable {C : LockTable VersionKey → Prop}

theorem keep_away (hC : KeepLocks U service R t C) : Keep U service R t (Away t C) := by
  intro s s' hinv hframe h
  exact ⟨keep_free s s' hinv hframe h.free, keep_grounded s s' hinv hframe h.grounded,
    hC s s' hinv hframe h.rest⟩

/-- Locks are not documents. -/
theorem grows_indexLocks (s : Shared) (locks : LockTable ProviderKey) :
    Grows U service R s { s with indexLocks := locks } :=
  grows_of (fun _ h => h) (fun _ h => h) (fun _ _ => rfl) (fun _ h => h) (fun _ h => h)
    (fun _ h => h) (fun _ h => h) (le_refl _) rfl

theorem grows_versionLocks (s : Shared) (locks : LockTable VersionKey) :
    Grows U service R s { s with versionLocks := locks } :=
  grows_of (fun _ h => h) (fun _ h => h) (fun _ _ => rfl) (fun _ h => h) (fun _ h => h)
    (fun _ h => h) (fun _ h => h) (le_refl _) rfl

/-- The section of an index, for a body that leaves what only grows. -/
theorem guarded_index {α : Type} (hC : KeepLocks U service R t C) {key : ProviderKey}
    {body : Code α} {φ : Shared → Prop} {ψ : α → Shared → Prop}
    (hφ : ∀ s s', Grows U service R s s' → φ s → φ s')
    (hψ : ∀ value s s', Grows U service R s s' → ψ value s → ψ value s')
    (hbody : ∀ s, Inv U service R s → InIndex t key C s → φ s →
      Wp U service R t body (fun value s' => InIndex t key C s' ∧ ψ value s') s)
    (hs : Away t C s) (hs' : φ s) :
    Wp U service R t (guarded indexLock key body) (fun value s' => Away t C s' ∧ ψ value s') s := by
  have hφkeep : Keep U service R t fun s => (Grounded t s ∧ C s.versionLocks) ∧ φ s :=
    (keep_grounded.and hC).and (keep_of_grows hφ)
  have hψkeep : ∀ value, Keep U service R t fun s => (Grounded t s ∧ C s.versionLocks) ∧ ψ value s :=
    fun value => (keep_grounded.and hC).and (keep_of_grows (hψ value))
  refine wp_mono (wp_guarded (k := key) indexAccess trivial hφkeep hψkeep ?_ ?_
    (fun s h => h.1.1) (fun value s h => h.1.1) ?_ hs.free ⟨⟨hs.grounded, hs.rest⟩, hs'⟩) ?_
  · exact fun s locks h => ⟨h.1, hφ s _ (grows_indexLocks s locks) h.2⟩
  · exact fun value s locks h => ⟨h.1, hψ value s _ (grows_indexLocks s locks) h.2⟩
  · intro s₁ hinv hholds h
    refine wp_mono (hbody s₁ hinv ⟨hholds, h.1.1, h.1.2⟩ h.2) fun value s₂ hs₂ => ?_
    exact ⟨hs₂.1.holds, ⟨hs₂.1.grounded, hs₂.1.rest⟩, hs₂.2⟩
  · intro value s₂ hs₂
    exact ⟨⟨hs₂.1, hs₂.2.1.1, hs₂.2.1.2⟩, hs₂.2.2⟩

/-- The cached index. -/
theorem wp_indexEntry {key : ProviderKey} {φ : Shared → Prop} (hφ : Keep U service R t φ)
    (hs : φ s) : Wp U service R t (indexEntry key) (fun answer s' => φ s' ∧ match answer with
      | some entry => GoodIndex service key entry s'
      | none => key ∉ s'.indices) s := by
  refine wp_read trivial (fun s => s.indices.lookup key) hφ hs (fun _ _ => rfl) fun s₁ hinv hs₁ => ?_
  refine ⟨hs₁, ?_⟩
  cases hlookup : s₁.indices.lookup key with
  | some entry =>
    obtain ⟨-, hvalid, horigin⟩ := hinv.caches.indices key entry hlookup
    exact ⟨hvalid, horigin, AList.lookup_isSome.mp (by rw [hlookup]; rfl)⟩
  | none => exact AList.lookup_eq_none.mp hlookup

/-- The loader of indices does what a loader must. -/
def indexSpec (hC : KeepLocks U service R t C) :
    LoaderSpec U service R t (indexLoader service) where
  admissible := Admissible service
  counted _ := True
  inside key := InIndex t key C
  outside := Away t C
  good := GoodIndex service
  present key s := key ∈ s.indices
  absent key s := s.indices.lookup key = none
  ready _ _ := True
  available key s := s.indexAvailable service key = true
  keep_inside _ := keep_inIndex hC
  keep_outside := keep_away hC
  keep_absent key := by
    intro s s' hinv hframe h
    refine ⟨keep_inIndex hC s s' hinv hframe h.1, ?_⟩
    rw [hframe.cached key h.1.holds]
    exact h.2
  good_grows _ _ _ _ hg h := goodIndex_grows hg h
  present_grows key _ _ hg h := hg.indices key h
  ready_grows _ _ _ _ h := h
  available_grows key _ _ _ hg h := hg.index_available key h
  available_cases key s h := by
    unfold Shared.indexAvailable at h
    simp only [Bool.or_eq_true, decide_eq_true_eq, Option.any_eq_true] at h
    rcases h with hpresent | ⟨bytes, hlookup, hpersisted⟩
    · exact .inl hpresent
    · right
      unfold persistedIndex at hpersisted
      split at hpersisted
      · cases hpersisted
      · next entry hdecode =>
          refine ⟨bytes, entry, hlookup, hdecode, ?_⟩
          change validateRegistryVersions entry.value = .ok ()
          cases hvalid : validateRegistryVersions entry.value with
          | ok value => rfl
          | error error =>
            rw [hvalid] at hpersisted
            cases hpersisted
  ready_present _ _ _ := trivial
  ready_missing _ _ _ := trivial
  entry key φ s hφ hs := by
    refine wp_mono (wp_indexEntry hφ hs) fun answer s' hs' => ?_
    cases answer with
    | some entry => exact hs'
    | none => exact hs'
  contains key φ s hφ hs hinside := by
    refine wp_read trivial (fun s => decide (key ∈ s.indices)) (hφ.and (keep_inIndex hC))
      ⟨hs, hinside⟩ (fun _ _ => rfl) fun s₁ _ hs₁ => ⟨hs₁.1, hs₁.2, ?_⟩
    by_cases hmem : key ∈ s₁.indices
    · rw [decide_eq_true hmem]
      exact hmem
    · rw [decide_eq_false hmem]
      exact ⟨AList.lookup_eq_none.mpr hmem, hmem⟩
  insert key entry bytes s hkey hinside habsent hfound hdecode hvalid := by
    have horigin : IndexOrigin service key entry s := .inr ⟨bytes, hfound, hdecode, hvalid⟩
    have hkeep : Keep U service R t fun s => (InIndex t key C s ∧ s.indices.lookup key = none) ∧
        IndexOrigin service key entry s := by
      refine Stable.and ?_ (keep_of_grows fun _ _ hg h => indexOrigin_grows h hg)
      intro s s' hinv hframe h
      refine ⟨keep_inIndex hC s s' hinv hframe h.1, ?_⟩
      rw [hframe.cached key h.1.holds]
      exact h.2
    refine wp_call ⟨⟨hinside, habsent⟩, horigin⟩ hkeep
      (fun _ _ h => ⟨h.1.1.holds, h.1.2, hkey, hvalid, h.2⟩)
      fun s₁ choice answer s₂ _ hs₁ _ hexec _ => ?_
    cases always_some hexec
    refine ⟨⟨hs₁.1.1.holds, hs₁.1.1.grounded, hs₁.1.1.rest⟩, ?_⟩
    exact (AList.mem_insert _).mpr (.inl rfl)
  refresh key s hkey hinside _ := refreshIndexUnlocked_spec hC hkey hinside
  guard key body φ ψ _ hφ hψ hbody s houtside hs := guarded_index hC hφ hψ hbody houtside hs
  enter key φ s hφ hs := by
    refine wp_read trivial (fun s => s.indexPresence service key) hφ hs (fun _ _ => rfl) ?_
    intro s₁ _ hs₁
    refine ⟨hs₁, fun h => ?_, fun h => ?_⟩
    · unfold Shared.indexPresence at h
      split at h
      · assumption
      · split at h <;> cases h
    · unfold Shared.indexPresence at h
      split at h
      · cases h
      · split at h
        · assumption
        · cases h
  leave key answer result φ s hφ hs hgood hanswer := by
    have hkeep : Keep U service R t fun s => φ s ∧
        ∀ entry, result = .ok entry → GoodIndex service key entry s := by
      refine hφ.and fun s s' _ hframe h entry heq => ?_
      exact goodIndex_grows hframe.grows (h entry heq)
    refine wp_call ⟨hs, hgood⟩ hkeep (fun s₁ _ h => ⟨fun entry heq => (h.2 entry heq).origin,
      fun h => hanswer (promised_imp (fun hreadable => ⟨trivial, hreadable⟩) h)⟩)
      fun s₁ choice answer s₂ hinv hs₁ _ hexec hinv₂ => ?_
    cases always_some hexec
    have hkeeps : Keeps U service R Everyone s₁
        { s₁ with indexLoads := ⟨key, _, _⟩ :: s₁.indexLoads } := keeps_loads hinv hinv₂.loads
    exact hφ s₁ _ hinv₂ (hkeeps.frame t trivial) hs₁.1

/-- `load_index`. -/
theorem loadIndex_spec {key : ProviderKey} (hC : KeepLocks U service R t C)
    (hkey : Admissible service key) (hs : Away t C s) :
    Wp U service R t (loadIndex service key).run (fun result s' => Away t C s' ∧
      ∀ entry, result = .ok entry → GoodIndex service key entry s') s :=
  (indexSpec hC).load_spec hkey hs

/-- What follows when the index lacks the version, or the index itself. -/
theorem whenMissing_spec {key : VersionKey} {index : IndexEntry} {force : MetadataService.Task IndexEntry}
    {P : Shared → Prop} (hP : Keep U service R t P)
    (hforce : ∀ s, P s → Wp U service R t force.run (fun result s' => P s' ∧
      ∀ entry, result = .ok entry → GoodIndex service key.provider entry s') s)
    (hs : P s) (hindex : GoodIndex service key.provider index s) :
    Wp U service R t (whenMissing key index force).run (fun result s' => P s' ∧
      ∀ entry, result = .ok entry → GoodIndex service key.provider entry s') s := by
  have hkeep : Keep U service R t fun s => P s ∧ GoodIndex service key.provider index s :=
    hP.and (keep_goodIndex key.provider index)
  have hreturn : ∀ s', P s' ∧ GoodIndex service key.provider index s' →
      Wp U service R t (pure index : MetadataService.Task IndexEntry).run (fun result s' => P s' ∧
        ∀ entry, result = .ok entry → GoodIndex service key.provider entry s') s' := by
    intro s' hs'
    refine (wp_run_pure t _ _ s').mpr ⟨hs'.1, fun entry heq => ?_⟩
    cases heq
    exact hs'.2
  unfold whenMissing
  split
  · exact hreturn s ⟨hs, hindex⟩
  · refine wp_lift_bind (wp_step trivial hkeep ⟨hs, hindex⟩ fun missed s₁ _ hs₁ => ?_)
    split
    · refine wp_lift_bind (wp_step trivial hkeep hs₁ fun allowed s₂ _ hs₂ => ?_)
      split
      · exact hforce s₂ hs₂.1
      · exact hreturn s₂ hs₂
    · exact hreturn s₁ hs₁

/-- The forced refresh, inside the lock. -/
theorem forceIndexLocked_spec {key : VersionKey} {index : IndexEntry}
    (hC : KeepLocks U service R t C) (hkey : Admissible service key.provider)
    (hs : InIndex t key.provider C s) (hindex : GoodIndex service key.provider index s) :
    Wp U service R t (forceIndexLocked service key index).run (fun result s' =>
      InIndex t key.provider C s' ∧
        ∀ entry, result = .ok entry → GoodIndex service key.provider entry s') s := by
  have hkeep : Keep U service R t fun s => InIndex t key.provider C s ∧
      GoodIndex service key.provider index s :=
    (keep_inIndex hC).and (keep_goodIndex key.provider index)
  unfold forceIndexLocked
  refine wp_lift_bind (wp_mono (wp_indexEntry hkeep ⟨hs, hindex⟩) fun current s₁ hs₁ => ?_)
  obtain ⟨⟨hinside₁, hindex₁⟩, hcurrent⟩ := hs₁
  have hgood : GoodIndex service key.provider (current.getD index) s₁ := by
    cases current with
    | none => exact hindex₁
    | some entry => exact hcurrent
  refine whenMissing_spec (keep_inIndex hC) (fun s₂ hs₂ => ?_) hinside₁ hgood
  refine wp_lift_bind (wp_step trivial (keep_inIndex hC) hs₂ fun _ s₃ _ hs₃ => ?_)
  exact refreshIndexTimed_spec hC hkey hs₃

/-- The forced refresh. -/
theorem forceIndex_spec {key : VersionKey} {index : IndexEntry}
    (hC : KeepLocks U service R t C) (hkey : Admissible service key.provider)
    (hs : Away t C s) (hindex : GoodIndex service key.provider index s) :
    Wp U service R t (forceIndex service key index).run (fun result s' => Away t C s' ∧
      ∀ entry, result = .ok entry → GoodIndex service key.provider entry s') s := by
  unfold forceIndex
  -- the index that was loaded stays good while the lock is awaited
  refine wp_mono (whenMissing_spec (P := fun s => Away t C s ∧
    GoodIndex service key.provider index s)
    ((keep_away hC).and (keep_goodIndex key.provider index)) (fun s₁ hs₁ => ?_) ⟨hs, hindex⟩ hindex) ?_
  · refine wp_mono (guarded_index (φ := GoodIndex service key.provider index)
      (ψ := fun result s => GoodIndex service key.provider index s ∧
        ∀ entry, result = .ok entry → GoodIndex service key.provider entry s) hC
      (fun s s' hg h => goodIndex_grows hg h) (fun result s s' hg h => ?_) (fun s₂ _ hs₂ hgood => ?_)
      hs₁.1 hs₁.2) fun result s₂ hs₂ => ⟨⟨hs₂.1, hs₂.2.1⟩, hs₂.2.2⟩
    · exact ⟨goodIndex_grows hg h.1, fun entry heq => goodIndex_grows hg (h.2 entry heq)⟩
    · refine wp_mono (wp_grows (forceIndexLocked_spec hC hkey hs₂ hgood)) fun result s₃ hs₃ => ?_
      exact ⟨hs₃.1.1, goodIndex_grows hs₃.2 hgood, hs₃.1.2⟩
  · exact fun result s' hs' => ⟨hs'.1.1, hs'.2⟩

end Indices

section Merging

variable {U : Type} [UrlCrate U] [SemverCrate]

/-- What a refresh merges is acceptable. -/
theorem mergeVersion_accepted {key : VersionKey} {cached : Option VersionEntry}
    {platforms : List RegistryPlatform} {answers : List (ℕ × Except RegistryError PlatformMetadata)}
    {complete : Bool} {value : VersionMetadata} (hcount : platforms.length ≤ 128)
    (hcached : ∀ entry, cached = some entry → AcceptedVersion U key entry.value)
    (h : mergeVersion key cached platforms (packageResults U key platforms answers) =
      .ok (complete, value)) :
    AcceptedVersion U key value ∧ value.version = key.version := by
  have haccepted : ∀ merged, merged = mergePlatforms cached
      (platforms.map fun platform => (platform.os, platform.arch))
      (refreshedPackages (packageResults U key platforms answers)) platforms →
      AcceptedVersion U key ⟨key.provider.hostname, key.provider.providerNamespace,
        key.provider.providerType, key.version, merged⟩ := by
    intro merged hmerged
    refine ⟨rfl, rfl, rfl, ?_, fun package hpackage => ?_⟩
    · rw [hmerged]
      exact Nat.le_trans (mergePlatforms_length ..) hcount
    · rw [hmerged] at hpackage
      rcases mergePlatforms_mem hpackage with ⟨platform, hlookup⟩ | ⟨entry, hentry, hmem⟩
      · exact packageResults_mem (refreshedPackages_some hlookup).1
      · exact (hcached entry hentry).packages package hmem
  unfold mergeVersion at h
  dsimp only at h
  split at h
  · cases h
  · cases h
    exact ⟨haccepted _ rfl, rfl⟩

end Merging

section Versions

variable {U : Type} [UrlCrate U] [SemverCrate] [JsonCrate]
variable {service : ProviderMetadataService} {R : Rules} {t : ℕ} {s : Shared} {key : VersionKey}

/-- The task is in the section of the version, and in no section of an index. -/
abbrev InVersion (t : ℕ) (key : VersionKey) : Shared → Prop := Away t fun locks => locks.Holds t key

/-- The task is in no section. -/
abbrev Idle (t : ℕ) : Shared → Prop := Away t fun locks => locks.handles.lookup t = none

theorem keep_inVersion : Keep U service R t (InVersion t key) := keep_away (keep_holds_version key)

theorem keep_idle : Keep U service R t (Idle t) := keep_away keep_free_version

/-- Acceptable metadata of known origin. -/
def GoodVersion (U : Type) [UrlCrate U]
    (service : ProviderMetadataService) (key : VersionKey) (entry : VersionEntry) (s : Shared) :
    Prop :=
  AcceptedVersion U key entry.value ∧ VersionOrigin U service key entry s

theorem goodVersion_grows {entry : VersionEntry} {s s' : Shared} (hg : Grows U service R s s')
    (h : GoodVersion U service key entry s) : GoodVersion U service key entry s' :=
  ⟨h.1, versionOrigin_grows h.2 hg⟩

/-- The cached version. -/
theorem wp_versionEntry {φ : Shared → Prop} (hφ : Keep U service R t φ) (hs : φ s) :
    Wp U service R t (versionEntry key) (fun answer s' => φ s' ∧ match answer with
      | some entry => GoodVersion U service key entry s'
      | none => key ∉ s'.versions) s := by
  refine wp_read trivial (fun s => s.versions.lookup key) hφ hs (fun _ _ => rfl) fun s₁ hinv hs₁ => ?_
  refine ⟨hs₁, ?_⟩
  cases hlookup : s₁.versions.lookup key with
  | some entry => exact (hinv.caches.versions key entry hlookup).2
  | none => exact AList.lookup_eq_none.mp hlookup

omit [SemverCrate] [JsonCrate] in
/-- A version of an acceptable index has few platforms. -/
theorem listed_count {index : IndexEntry} {version : String} {summary : RegistryVersion}
    (hvalid : validateRegistryVersions index.value = .ok ())
    (h : listedVersion index version = some summary) : summary.platforms.length ≤ 128 := by
  have hmem := List.mem_of_find?_eq_some h
  unfold validateRegistryVersions at hvalid
  split at hvalid
  · cases hvalid
  · have hversion := checkAll_ok.mp hvalid summary hmem
    obtain ⟨value, -, hrest⟩ := bind_ok.mp hversion
    split at hrest
    · cases hrest
    · omega

/-- What a refresh must know to persist the version. -/
def Persistable (U : Type) [UrlCrate U] (service : ProviderMetadataService) (key : VersionKey)
    (s : Shared) : Prop :=
  Settled U service key s ∧ Indexed key s

theorem persistable_grows {s s' : Shared} (hg : Grows U service R s s')
    (h : Persistable U service key s) : Persistable U service key s' :=
  ⟨hg.settled key h.1, fun hindex => hg.indices _ (h.2 hindex)⟩

/-- Persisting the merged version. -/
theorem writeVersion_spec {entry : VersionEntry}
    (hsane : Sane U service R (.version key entry))
    (hs : InVersion t key s ∧ Persistable U service key s) :
    Wp U service R t (writeJsonAtomic (service.versionPath key) (.version key entry)).run
      (fun _ => InVersion t key) s := by
  have hkeep : Keep U service R t fun s => InVersion t key s ∧ Persistable U service key s :=
    keep_inVersion.and (keep_of_grows fun _ _ hg h => persistable_grows hg h)
  have hplace : Keep U service R t (InVersion t key) := keep_inVersion
  refine wp_mono (writeJsonAtomic_spec hkeep ?_ ?_ hplace hs hsane rfl ?_ ?_) ?_
  · intro s _ _ _ _ hg h
    exact ⟨⟨h.1.free, h.1.grounded, h.1.rest⟩, persistable_grows hg h.2⟩
  · exact fun s _ _ h => ⟨⟨h.1.free, h.1.grounded, h.1.rest⟩, h.2⟩
  · intro s₁ _ h
    refine ⟨fun key' n hn => ?_, fun key' entry' heq => ?_, fun key' entry' heq => ?_, nofun⟩
    · obtain ⟨entry', heq⟩ := hn
      cases heq
    · cases heq
      exact h.2.1
    · cases heq
      exact h.2.2
  · exact fun s₁ _ h _ _ => ⟨h.1.free, h.1.grounded, h.1.rest⟩
  · intro result s' h
    cases result with
    | ok value => exact h
    | error error =>
      rcases h with h | h
      · exact h.1
      · exact h

/-- The refresh of a version that the index lists. -/
theorem refreshListed_spec {summary : RegistryVersion} (hkey : AdmissibleVersion service R key)
    (hcount : summary.platforms.length ≤ 128)
    (hs : InVersion t key s ∧ Persistable U service key s) :
    Wp U service R t (refreshListed U service key summary).run (fun result s' =>
      InVersion t key s' ∧ ∀ entry, result = .ok entry → GoodVersion U service key entry s') s := by
  have hkeep : Keep U service R t fun s => InVersion t key s ∧ Persistable U service key s :=
    keep_inVersion.and (keep_of_grows fun _ _ hg h => persistable_grows hg h)
  unfold refreshListed
  refine wp_lift_bind (wp_mono (wp_versionEntry hkeep hs) fun cached s₁ hs₁ => ?_)
  obtain ⟨hplace₁, hanswer⟩ := hs₁
  have hcached : ∀ entry, cached = some entry → AcceptedVersion U key entry.value := by
    intro entry heq
    rw [heq] at hanswer
    exact hanswer.1
  refine wp_lift_bind (wp_step trivial hkeep hplace₁ fun answers s₂ _ hplace₂ => ?_)
  cases hmerge : mergeVersion key cached summary.platforms
      (packageResults U key summary.platforms answers) with
  | error error => exact (wp_run_throw t _ _ s₂).mpr ⟨hplace₂.1, nofun⟩
  | ok merged =>
    obtain ⟨complete, value⟩ := merged
    obtain ⟨haccepted, hversion⟩ := mergeVersion_accepted hcount hcached hmerge
    dsimp only
    refine wp_lift_bind (wp_step trivial hkeep hplace₂ fun fetchedAt s₃ _ hplace₃ => ?_)
    have hsane : Sane U service R (.version key ⟨fetchedAt, complete, value⟩) :=
      ⟨hkey, haccepted, hversion⟩
    refine wp_bind_of (writeVersion_spec hsane hplace₃) ?_ (fun _ _ h => ⟨h, nofun⟩)
    intro _ s₄ hs₄
    refine wp_lift_bind (wp_call hs₄ keep_inVersion (fun _ _ _ => ⟨hkey, haccepted, nofun⟩) ?_)
    intro s₅ choice answer s₆ _ hs₅ _ hexec _
    cases always_some hexec
    refine ⟨⟨hs₅.free, hs₅.grounded, hs₅.rest⟩, fun entry heq => ?_⟩
    cases heq
    exact ⟨haccepted, .inl List.mem_cons_self⟩

/-- `refresh_version`. -/
theorem refreshVersion_spec (hkey : AdmissibleVersion service R key)
    (hs : InVersion t key s) (hsettled : Settled U service key s) :
    Wp U service R t (refreshVersion U service key).run (fun result s' =>
      InVersion t key s' ∧ ∀ entry, result = .ok entry → GoodVersion U service key entry s') s := by
  unfold refreshVersion
  refine wp_bind_of (wp_grows (loadIndex_spec (keep_holds_version key) hkey.provider hs)) ?_
    (fun _ _ h => ⟨h.1.1, nofun⟩)
  intro index s₁ hs₁
  obtain ⟨⟨hplace₁, hindex₁⟩, hgrows₁⟩ := hs₁
  have hsettled₁ := hgrows₁.settled key hsettled
  refine wp_bind_of (wp_grows (forceIndex_spec (keep_holds_version key) hkey.provider hplace₁
    (hindex₁ index rfl))) ?_ (fun _ _ h => ⟨h.1.1, nofun⟩)
  intro index s₂ hs₂
  obtain ⟨⟨hplace₂, hindex₂⟩, hgrows₂⟩ := hs₂
  cases hlisted : listedVersion index key.version with
  | none => exact (wp_run_throw t _ _ s₂).mpr ⟨hplace₂, nofun⟩
  | some summary =>
    have hcount := listed_count (hindex₂ index rfl).valid hlisted
    refine refreshListed_spec hkey hcount ⟨hplace₂, hgrows₂.settled key hsettled₁, ?_⟩
    exact fun _ => (hindex₂ index rfl).cached

/-- The section of a version. -/
theorem guarded_version {α : Type} {body : Code α} {φ : Shared → Prop} {ψ : α → Shared → Prop}
    (hφ : ∀ s s', Grows U service R s s' → φ s → φ s')
    (hψ : ∀ value s s', Grows U service R s s' → ψ value s → ψ value s')
    (hbody : ∀ s, Inv U service R s → InVersion t key s → φ s →
      Wp U service R t body (fun value s' => InVersion t key s' ∧ ψ value s') s)
    (hs : Idle t s) (hs' : φ s) :
    Wp U service R t (guarded versionLock key body) (fun value s' => Idle t s' ∧ ψ value s') s := by
  have hφkeep : Keep U service R t fun s =>
      (s.indexLocks.handles.lookup t = none ∧ Grounded t s) ∧ φ s :=
    (keep_free.and keep_grounded).and (keep_of_grows hφ)
  have hψkeep : ∀ value, Keep U service R t fun s =>
      (s.indexLocks.handles.lookup t = none ∧ Grounded t s) ∧ ψ value s :=
    fun value => (keep_free.and keep_grounded).and (keep_of_grows (hψ value))
  refine wp_mono (wp_guarded (k := key) versionAccess trivial hφkeep hψkeep ?_ ?_
    (fun _ _ => trivial) (fun _ _ _ => trivial) ?_ hs.rest ⟨⟨hs.free, hs.grounded⟩, hs'⟩) ?_
  · exact fun s locks h => ⟨h.1, hφ s _ (grows_versionLocks s locks) h.2⟩
  · exact fun value s locks h => ⟨h.1, hψ value s _ (grows_versionLocks s locks) h.2⟩
  · intro s₁ hinv hholds h
    refine wp_mono (hbody s₁ hinv ⟨h.1.1, h.1.2, hholds⟩ h.2) fun value s₂ hs₂ => ?_
    exact ⟨hs₂.1.rest, ⟨hs₂.1.free, hs₂.1.grounded⟩, hs₂.2⟩
  · intro value s₂ hs₂
    exact ⟨⟨hs₂.2.1.1, hs₂.2.1.2, hs₂.1⟩, hs₂.2.2⟩

/-- The loader of versions does what a loader must. -/
def versionSpec : LoaderSpec U service R t (versionLoader U service) where
  admissible := AdmissibleVersion service R
  counted key := key.version ≠ "index"
  inside key := InVersion t key
  outside := Idle t
  good := GoodVersion U service
  present key s := key ∈ s.versions
  absent _ _ := True
  ready key := Settled U service key
  available key s := s.versionAvailable U service key = true
  keep_inside _ := keep_inVersion
  keep_outside := keep_idle
  keep_absent _ := keep_inVersion.and (Stable.const True)
  good_grows _ _ _ _ hg h := goodVersion_grows hg h
  present_grows key _ _ hg h := hg.versions key h
  ready_grows key _ _ hg h := hg.settled key h
  available_grows key hkey _ _ hg h := hg.version_available key hkey h
  available_cases key s h := by
    unfold Shared.versionAvailable at h
    simp only [Bool.or_eq_true, decide_eq_true_eq, Option.any_eq_true] at h
    rcases h with hpresent | ⟨bytes, hlookup, hpersisted⟩
    · exact .inl hpresent
    · right
      unfold persistedVersion at hpersisted
      split at hpersisted
      · cases hpersisted
      · next entry hdecode =>
          refine ⟨bytes, entry, hlookup, hdecode, ?_⟩
          change validateVersionMetadata U key entry.value = .ok ()
          cases hvalid : validateVersionMetadata U key entry.value with
          | ok value => rfl
          | error error =>
            rw [hvalid] at hpersisted
            cases hpersisted
  ready_present _ _ h _ := .inl h
  ready_missing key s h _ := by
    right
    cases hlookup : s.files.lookup (service.versionPath key) with
    | none => rfl
    | some bytes =>
      rw [Option.any_some]
      unfold persistedVersion
      split
      · rfl
      · next entry hdecode =>
          have hinvalid := h bytes entry hlookup hdecode
          cases hvalid : validateVersionMetadata U key entry.value with
          | ok value => exact absurd hvalid hinvalid
          | error error => rfl
  entry key φ s hφ hs := by
    refine wp_mono (wp_versionEntry hφ hs) fun answer s' hs' => ?_
    cases answer with
    | some entry => exact hs'
    | none => exact hs'
  contains key φ s hφ hs hinside := by
    refine wp_read trivial (fun s => decide (key ∈ s.versions)) (hφ.and keep_inVersion)
      ⟨hs, hinside⟩ (fun _ _ => rfl) fun s₁ _ hs₁ => ⟨hs₁.1, hs₁.2, ?_⟩
    by_cases hmem : key ∈ s₁.versions
    · rw [decide_eq_true hmem]
      exact hmem
    · rw [decide_eq_false hmem]
      exact ⟨trivial, hmem⟩
  insert key entry bytes s hkey hinside _ hfound hdecode hvalid := by
    have hgood : GoodVersion U service key entry s :=
      ⟨accepted_of_validate hvalid, .inr ⟨bytes, hfound, hdecode, hvalid⟩⟩
    have hkeep : Keep U service R t fun s => InVersion t key s ∧ GoodVersion U service key entry s :=
      keep_inVersion.and (keep_of_grows fun _ _ hg h => goodVersion_grows hg h)
    refine wp_call ⟨hinside, hgood⟩ hkeep (fun _ _ h => ⟨hkey, h.2.1, fun _ => h.2.2⟩)
      fun s₁ choice answer s₂ _ hs₁ _ hexec _ => ?_
    cases always_some hexec
    exact ⟨⟨hs₁.1.free, hs₁.1.grounded, hs₁.1.rest⟩, (AList.mem_insert _).mpr (.inl rfl)⟩
  refresh key s hkey hinside hready := refreshVersion_spec hkey hinside hready
  guard key body φ ψ _ hφ hψ hbody s houtside hs := guarded_version hφ hψ hbody houtside hs
  enter key φ s hφ hs := by
    refine wp_read trivial (fun s => s.versionPresence U service key) hφ hs (fun _ _ => rfl) ?_
    intro s₁ _ hs₁
    refine ⟨hs₁, fun h => ?_, fun h => ?_⟩
    · unfold Shared.versionPresence at h
      split at h
      · assumption
      · split at h <;> cases h
    · unfold Shared.versionPresence at h
      split at h
      · cases h
      · split at h
        · assumption
        · cases h
  leave key answer result φ s hφ hs hgood hanswer := by
    have hkeep : Keep U service R t fun s => φ s ∧
        ∀ entry, result = .ok entry → GoodVersion U service key entry s := by
      refine hφ.and fun s s' _ hframe h entry heq => ?_
      exact goodVersion_grows hframe.grows (h entry heq)
    refine wp_call ⟨hs, hgood⟩ hkeep (fun s₁ _ h => ⟨fun entry heq => (h.2 entry heq).2, hanswer⟩)
      fun s₁ choice answer s₂ hinv hs₁ _ hexec hinv₂ => ?_
    cases always_some hexec
    have hkeeps : Keeps U service R Everyone s₁
        { s₁ with versionLoads := ⟨key, _, _⟩ :: s₁.versionLoads } := keeps_loads hinv hinv₂.loads
    exact hφ s₁ _ hinv₂ (hkeeps.frame t trivial) hs₁.1

/-- `load_version`. -/
theorem loadVersion_spec (hkey : AdmissibleVersion service R key) (hs : Idle t s) :
    Wp U service R t (loadVersion U service key).run (fun result s' => Idle t s' ∧
      ∀ entry, result = .ok entry → GoodVersion U service key entry s') s :=
  versionSpec.load_spec hkey hs

end Versions

section Requests

variable {U : Type} [UrlCrate U] [SemverCrate] [JsonCrate]
variable {service : ProviderMetadataService} {R : Rules} {t : ℕ} {s : Shared}

/-- Nothing is said about the answer. -/
abbrev Anything {α : Type} : α → Shared → Prop := fun _ _ => True

omit [SemverCrate] [JsonCrate] in
/-- A key that `provider_key` returned. -/
theorem admissible_of_key {hostname providerNamespace providerType : String} {key : ProviderKey}
    (h : service.providerKey hostname providerNamespace providerType = .ok key) :
    Admissible service key ∧ key = ⟨hostname, providerNamespace, providerType⟩ := by
  have hkey := h
  unfold ProviderMetadataService.providerKey at hkey
  obtain ⟨_, -, hkey⟩ := bind_ok.mp hkey
  obtain ⟨_, -, hkey⟩ := bind_ok.mp hkey
  obtain ⟨_, -, hkey⟩ := bind_ok.mp hkey
  split at hkey
  · cases hkey
  · cases hkey
    exact ⟨h, rfl⟩

/-- `list_versions`. -/
theorem listVersions_spec {hostname providerNamespace providerType : String} (hs : Idle t s) :
    Wp U service R t (listVersions service hostname providerNamespace providerType).run
      (fun _ => Idle t) s := by
  unfold listVersions
  cases hkey : service.providerKey hostname providerNamespace providerType with
  | error error => exact (wp_run_throw t _ _ s).mpr hs
  | ok key =>
    dsimp only
    refine wp_bind_of (loadIndex_spec keep_free_version (admissible_of_key hkey).1 hs) ?_
      (fun _ _ h => h.1)
    intro entry s₁ hs₁
    exact (wp_run_pure t _ _ s₁).mpr hs₁.1

/-- The loop of `sync_known`. -/
theorem syncKeys_spec {keys : List ProviderKey} {failures : ℕ}
    (hkeys : ∀ key ∈ keys, Admissible service key) (hs : Idle t s) :
    Wp U service R t (syncKeys service keys failures) (fun _ => Idle t) s := by
  induction keys generalizing failures s with
  | nil => exact hs
  | cons key rest ih =>
    have hrest : ∀ key ∈ rest, Admissible service key :=
      fun key hmem => hkeys key (List.mem_cons_of_mem _ hmem)
    unfold syncKeys
    refine (wp_bind t _ _ _ s).mpr (wp_mono (guarded_index (φ := fun _ => True)
      (ψ := fun _ _ => True) keep_free_version (fun _ _ _ h => h) (fun _ _ _ _ h => h) ?_ hs trivial)
      fun result s₁ hs₁ => ?_)
    · intro s₁ _ hinside _
      refine wp_mono (refreshIndexTimed_spec keep_free_version (hkeys key List.mem_cons_self) hinside)
        fun result s₂ hs₂ => ⟨hs₂.1, trivial⟩
    · cases result with
      | error error => exact ih hrest hs₁.1
      | ok entry => exact ih hrest hs₁.1

/-- `sync_known`. -/
theorem syncKnown_spec (hs : Idle t s) :
    Wp U service R t (syncKnown service).run (fun _ => Idle t) s := by
  unfold syncKnown
  refine wp_lift_bind (wp_step trivial keep_idle hs fun mine s₁ _ hs₁ => ?_)
  split
  · refine wp_lift_bind (wp_mono (Q := fun keys s' => Idle t s' ∧
      ∀ key ∈ keys, Admissible service key) ?_ fun keys s₂ hs₂ => ?_)
    · refine wp_read trivial (fun s => s.indices.keys) keep_idle hs₁ (fun _ _ => rfl) ?_
      refine fun s₂ hinv hs₂ => ⟨hs₂, fun key hkey => ?_⟩
      obtain ⟨entry, hlookup⟩ := Option.isSome_iff_exists.mp (AList.lookup_isSome.mpr hkey)
      exact (hinv.caches.indices key entry hlookup).1
    · refine wp_lift_bind (wp_mono (syncKeys_spec hs₂.2 hs₂.1) fun failures s₃ hs₃ => ?_)
      refine wp_lift_bind (wp_step trivial keep_idle hs₃ fun _ s₄ _ hs₄ => ?_)
      split
      · exact (wp_run_pure t _ _ s₄).mpr hs₄
      · exact (wp_run_throw t _ _ s₄).mpr hs₄
  · exact (wp_run_throw t _ _ s₁).mpr hs₁

/-- `get_version_entry`. -/
theorem getVersionEntry_spec {hostname providerNamespace providerType version : String}
    (hplain : R.plain → normalizeVersion version ≠ "index") (hs : Idle t s) :
    Wp U service R t (getVersionEntry U service hostname providerNamespace providerType version).run
      (fun _ => Idle t) s := by
  unfold getVersionEntry
  cases hversion : validateVersion version "version" with
  | error error => exact (wp_run_throw t _ _ s).mpr hs
  | ok value =>
    dsimp only
    cases hkey : service.providerKey hostname providerNamespace providerType with
    | error error => exact (wp_run_throw t _ _ s).mpr hs
    | ok provider =>
      have hvalid : validVersion (normalizeVersion version) = true := by
        unfold validateVersion at hversion
        split at hversion
        · cases hversion
        · next h => simpa using h
      have hadmissible : AdmissibleVersion service R ⟨provider, normalizeVersion version⟩ :=
        ⟨(admissible_of_key hkey).1, hvalid, hplain⟩
      refine wp_lift_bind (wp_mono (loadVersion_spec hadmissible hs) fun result s₁ hs₁ => ?_)
      cases result with
      | ok entry => exact (wp_run_pure t _ _ s₁).mpr hs₁.1
      | error error =>
        cases error with
        | notFound => exact (wp_run_pure t _ _ s₁).mpr hs₁.1
        | _ => exact (wp_run_throw t _ _ s₁).mpr hs₁.1

/-- A request, from its start. -/
theorem request_spec {entry : Entry} (hplain : R.plain → Plain entry) (hs : Idle t s) :
    Wp U service R t (request U service entry) Anything s := by
  have hdone : ∀ {α : Type} (program : MetadataService.Task α)
      {out : Except MetadataError α → MetadataMachine.Out},
      Wp U service R t program.run (fun _ => Idle t) s →
      Wp U service R t (program.run >>= fun result => Prog.done (out result)) Anything s := by
    intro α program out h
    exact (wp_bind t _ _ _ s).mpr (wp_mono h fun _ _ _ => trivial)
  cases entry with
  | listVersions hostname providerNamespace providerType =>
    exact hdone (listVersions service hostname providerNamespace providerType)
      (listVersions_spec hs)
  | sync => exact hdone (syncKnown service) (syncKnown_spec hs)
  | getVersion hostname providerNamespace providerType version =>
    refine hdone (getVersion U service hostname providerNamespace providerType version) ?_
    unfold getVersion
    refine wp_bind_of (getVersionEntry_spec hplain hs) ?_ (fun _ _ h => h)
    exact fun entry s₁ hs₁ => (wp_run_pure t _ _ s₁).mpr hs₁
  | getPlatform hostname providerNamespace providerType filename =>
    refine hdone (getPlatformByArchive U service hostname providerNamespace providerType filename) ?_
    unfold getPlatformByArchive
    cases harchive : ArchiveName.parse providerType filename with
    | error error => exact (wp_run_throw t _ _ s).mpr hs
    | ok archive =>
      dsimp only
      refine wp_bind_of (getVersionEntry_spec (fun hp => hplain hp archive harchive) hs) ?_
        (fun _ _ h => h)
      exact fun entry s₁ hs₁ => (wp_run_pure t _ _ s₁).mpr hs₁

/-- The destructors of a dropped request, from anywhere. -/
theorem unwind_spec (hs : Grounded t s) : Wp U service R t unwind Anything s := by
  unfold unwind
  refine wp_unlock indexAccess keep_grounded (fun _ _ h => h) (fun _ h => h) ?_ hs
  intro s₁ _ hs₁
  refine wp_unlock versionAccess keep_grounded (fun _ _ h => h) (fun _ _ => trivial) ?_ hs₁
  intro s₂ _ hs₂
  refine (wp_bind t _ _ _ s₂).mpr (wp_step trivial keep_grounded hs₂ fun _ s₃ _ _ => ?_)
  exact trivial

end Requests

section Machine

variable (U : Type) [UrlCrate U] [SemverCrate] [JsonCrate]
variable (service : ProviderMetadataService) (R : Rules)

/-- The proofs about single requests add up. -/
theorem machine_sound :
    Sound (assertions U service R) (policy R) (machine U service) fun _ => Anything where
  exec t s op choice answer s' hinv hpre _ hexec := by
    have hkeeps := keeps_exec hinv hpre hexec
    exact ⟨hkeeps.inv, hkeeps.frame⟩
  start t s entry program s' hinv hplain hstart := by
    have hstart' : (if s.unused t then some (request U service entry, s) else none) =
        some (program, s') := hstart
    split at hstart'
    · next hunused =>
        cases hstart'
        simp only [Shared.unused, Bool.and_eq_true, Option.isNone_iff_eq_none, List.all_eq_true,
          decide_eq_true_eq] at hunused
        obtain ⟨⟨⟨hindex, hversion⟩, hflights⟩, -⟩ := hunused
        exact ⟨hinv, fun t' _ => frame_refl t' s, request_spec hplain ⟨hindex, hflights, hversion⟩⟩
    · cases hstart'
  cancel t s op s' hinv hpre _ hcancel := by
    obtain ⟨hkeeps, hgrounded⟩ := keeps_cancel hinv hpre hcancel
    exact ⟨hkeeps.inv, hkeeps.frame, unwind_spec hgrounded⟩
  move s m s' hinv hpolicy hmove := by
    have hkeeps := keeps_move hinv hpolicy hmove
    exact ⟨hkeeps.inv, fun t => hkeeps.frame t trivial⟩
  reboot s s' _ hfalse _ := hfalse.elim
  post _ _ := Stable.const True

end Machine

end OpenTfMirror.MetadataTasks
