import OpenTfMirror.MetadataRuns
import Mathlib.Data.List.Dedup

/-!
# What the next service makes of persisted metadata

Every document that a refresh has written passes the checks of a service that
is started over it later. An index is discovered at once, under its own key, and
stays cached until a refresh publishes another; a version is read back by the
first request for it. While they are fresh, neither needs the registry.
-/

namespace OpenTfMirror.MetadataRestart

open TaskProgram TaskLogic Fallible KeyedLocks LockSections FileNames FileStore Outbound Provider
  Metadata MetadataService IndexDiscovery MetadataMachine MetadataInvariant MetadataSteps
  MetadataFiles MetadataExec MetadataProofs MetadataTasks MetadataRuns PlainLibraries PlainMetadata

section Discovery

/-- A loop that may fail reaches what the step at one member establishes, when
all other steps keep it. -/
theorem foldlM_reaches {α β ε : Type} {f : β → α → Except ε β} {P : β → Prop} {l : List α} {x : α}
    (hx : x ∈ l) (hreach : ∀ b b', f b x = .ok b' → P b')
    (hkeep : ∀ b y b', P b → f b y = .ok b' → P b') {b b' : β} (h : l.foldlM f b = .ok b') :
    P b' := by
  induction l generalizing b with
  | nil => cases hx
  | cons y l ih =>
    rw [List.foldlM_cons] at h
    obtain ⟨b₁, hy, hrest⟩ := bind_ok.mp h
    rcases List.mem_cons.mp hx with heq | hmem
    · subst heq
      have hb₁ := hreach b b₁ hy
      exact foldlM_ok (fun b y b' _ hb hnext => hkeep b y b' hb hnext) hb₁ hrest
    · exact ih hmem hrest

variable {files : Files} {dir : Path} {name : String} {rest : Path} {bytes : Bytes}

/-- A directory with a file below it exists. -/
theorem isDir_of_file (h : files.lookup (dir ++ name :: rest) = some bytes) :
    isDir files dir = true := by
  have hmem : dir ++ name :: rest ∈ files.keys := AList.lookup_isSome.mp (by rw [h]; rfl)
  have hstart : dir.isPrefixOf (dir ++ name :: rest) = true := by simp
  unfold isDir
  rw [List.any_eq_true]
  exact ⟨_, hmem, by simp [hstart]⟩

/-- Listing that directory, if it succeeds, shows the child on the way. -/
theorem mem_readDir {names : List String} (h : files.lookup (dir ++ name :: rest) = some bytes)
    (hnames : readDir files dir = .ok names) : name ∈ names := by
  have hmem : dir ++ name :: rest ∈ files.keys := AList.lookup_isSome.mp (by rw [h]; rfl)
  have hchild : childName dir (dir ++ name :: rest) = some name := by simp [childName]
  unfold readDir at hnames
  split at hnames
  · cases hnames
  · split at hnames
    · cases hnames
    · cases hnames
      rw [List.mem_dedup, List.mem_filterMap]
      exact ⟨_, hmem, hchild⟩

/-- It is not missing. -/
theorem readDir_found (h : files.lookup (dir ++ name :: rest) = some bytes) :
    readDir files dir ≠ .error .notFound := by
  have hdir := isDir_of_file h
  unfold readDir
  split
  · exact nofun
  · rw [hdir]
    exact nofun

variable [JsonCrate] {service : ProviderMetadataService} {key : ProviderKey} {entry : IndexEntry}

omit [JsonCrate] in
/-- The parts of an admissible key. -/
theorem admissible_parts (h : Admissible service key) :
    validComponent key.providerNamespace = true ∧ validComponent key.providerType = true ∧
      key.hostname ∈ service.allowedRegistries := by
  unfold Admissible ProviderMetadataService.providerKey at h
  obtain ⟨_, -, h⟩ := bind_ok.mp h
  obtain ⟨_, hnamespace, h⟩ := bind_ok.mp h
  obtain ⟨_, htype, h⟩ := bind_ok.mp h
  have hvalid : ∀ value field, validateComponent value field = .ok () →
      validComponent value = true := by
    intro value field hvalue
    unfold validateComponent at hvalue
    split at hvalue
    · cases hvalue
    · next hcomponent => simpa using hcomponent
  refine ⟨hvalid _ _ hnamespace, hvalid _ _ htype, ?_⟩
  split at h
  · cases h
  · next hallowed => exact not_not.mp hallowed

/-- Discovery holds the entry under its key. -/
def Discovered (key : ProviderKey) (entry : IndexEntry) (indices : Indices) : Prop :=
  indices.lookup key = some entry

variable (hfile : files.lookup (service.indexPath key) = some bytes)
  (hdecode : JsonCrate.indexFromSlice bytes = .ok entry)

include hfile hdecode

/-- Any step of the innermost loop keeps a discovered index: the same file is
read for the same key. -/
theorem provider_keeps {hostname providerNamespace providerType : String} {indices indices' : Indices}
    (h : Discovered key entry indices)
    (hnext : discoverProvider files service.dataDir hostname providerNamespace indices providerType =
      .ok indices') : Discovered key entry indices' := by
  unfold discoverProvider at hnext
  dsimp only at hnext
  split at hnext
  · cases hnext
    exact h
  · split at hnext
    · cases hnext
      exact h
    · cases hnext
    · next bytes' hread =>
        split at hnext
        · cases hnext
          exact h
        · next entry' hdecode' =>
            split at hnext
            · cases hnext
              exact h
            · cases hnext
              unfold Discovered
              by_cases hkey : key = ⟨hostname, providerNamespace, providerType⟩
              · subst hkey
                have hpath : service.dataDir ++ [hostname, providerNamespace, providerType] ++
                    ["index.json"] = service.indexPath ⟨hostname, providerNamespace, providerType⟩ :=
                  rfl
                unfold readFile at hread
                rw [hpath, hfile] at hread
                cases hread
                rw [hdecode] at hdecode'
                cases hdecode'
                exact AList.lookup_insert _
              · rw [AList.lookup_insert_ne hkey]
                exact h

theorem namespace_keeps {hostname providerNamespace : String} {indices indices' : Indices}
    (h : Discovered key entry indices)
    (hnext : discoverNamespace files service.dataDir hostname indices providerNamespace =
      .ok indices') : Discovered key entry indices' := by
  unfold discoverNamespace at hnext
  dsimp only at hnext
  split at hnext
  · cases hnext
    exact h
  · split at hnext
    · cases hnext
    · exact foldlM_ok (fun b providerType b' _ hb hnext => provider_keeps hfile hdecode hb hnext) h
        hnext

theorem hostname_keeps {hostname : String} {indices indices' : Indices}
    (h : Discovered key entry indices)
    (hnext : discoverHostname files service.dataDir service.allowedRegistries indices hostname =
      .ok indices') : Discovered key entry indices' := by
  unfold discoverHostname at hnext
  dsimp only at hnext
  split at hnext
  · cases hnext
    exact h
  · split at hnext
    · cases hnext
    · exact foldlM_ok (fun b name b' _ hb hnext => namespace_keeps hfile hdecode hb hnext) h hnext

variable (hkey : Admissible service key) (hvalid : validateRegistryVersions entry.value = .ok ())

include hkey hvalid

/-- The step at the key's own directory takes its index over. -/
theorem provider_reaches {indices indices' : Indices}
    (hnext : discoverProvider files service.dataDir key.hostname key.providerNamespace indices
      key.providerType = .ok indices') : Discovered key entry indices' := by
  have hpath : service.dataDir ++ [key.hostname, key.providerNamespace, key.providerType] ++
      ["index.json"] = service.indexPath key := rfl
  have hdir : isDir files
      (service.dataDir ++ [key.hostname, key.providerNamespace, key.providerType]) = true :=
    isDir_of_file hfile
  have hread : readFile files (service.indexPath key) = .ok bytes := by
    unfold readFile
    rw [hfile]
  unfold discoverProvider at hnext
  simp only [(admissible_parts hkey).2.1, hdir, hpath, hread, hdecode, hvalid] at hnext
  cases hnext
  exact AList.lookup_insert _

theorem namespace_reaches {indices indices' : Indices}
    (hnext : discoverNamespace files service.dataDir key.hostname indices key.providerNamespace =
      .ok indices') : Discovered key entry indices' := by
  have hpath : service.indexPath key = (service.dataDir ++ [key.hostname, key.providerNamespace]) ++
      key.providerType :: ["index.json"] := by
    simp [ProviderMetadataService.indexPath, ProviderMetadataService.providerDir]
  have hbelow := hpath ▸ hfile
  have hdir := isDir_of_file hbelow
  unfold discoverNamespace at hnext
  simp only [(admissible_parts hkey).1, hdir] at hnext
  cases hnames : readDir files (service.dataDir ++ [key.hostname, key.providerNamespace]) with
  | error error =>
    rw [hnames] at hnext
    cases hnext
  | ok names =>
    rw [hnames] at hnext
    have hmem := mem_readDir hbelow hnames
    exact foldlM_reaches hmem
      (fun b b' h => provider_reaches hfile hdecode hkey hvalid h)
      (fun b providerType b' hb h => provider_keeps hfile hdecode hb h) hnext

theorem hostname_reaches {indices indices' : Indices}
    (hnext : discoverHostname files service.dataDir service.allowedRegistries indices key.hostname =
      .ok indices') : Discovered key entry indices' := by
  have hpath : service.indexPath key = (service.dataDir ++ [key.hostname]) ++
      key.providerNamespace :: [key.providerType, "index.json"] := by
    simp [ProviderMetadataService.indexPath, ProviderMetadataService.providerDir]
  have hbelow := hpath ▸ hfile
  have hdir := isDir_of_file hbelow
  unfold discoverHostname at hnext
  simp only [(admissible_parts hkey).2.2, hdir] at hnext
  cases hnames : readDir files (service.dataDir ++ [key.hostname]) with
  | error error =>
    rw [hnames] at hnext
    cases hnext
  | ok names =>
    rw [hnames] at hnext
    have hmem := mem_readDir hbelow hnames
    exact foldlM_reaches hmem
      (fun b b' h => namespace_reaches hfile hdecode hkey hvalid h)
      (fun b name b' hb h => namespace_keeps hfile hdecode hb h) hnext

/-- Discovery finds every valid index that stands at the place of its key. -/
theorem discovered {indices : Indices}
    (h : discoverIndices files service.dataDir service.allowedRegistries = .ok indices) :
    indices.lookup key = some entry := by
  have hpath : service.indexPath key = service.dataDir ++
      key.hostname :: [key.providerNamespace, key.providerType, "index.json"] := by
    simp [ProviderMetadataService.indexPath, ProviderMetadataService.providerDir]
  have hbelow := hpath ▸ hfile
  unfold discoverIndices at h
  cases hnames : readDir files service.dataDir with
  | error error =>
    rw [hnames] at h
    cases error with
    | notFound => exact absurd hnames (readDir_found hbelow)
    | other message => cases h
  | ok names =>
    rw [hnames] at h
    have hmem := mem_readDir hbelow hnames
    exact foldlM_reaches hmem
      (fun b b' h => hostname_reaches hfile hdecode hkey hvalid h)
      (fun b hostname b' hb h => hostname_keeps hfile hdecode hb h) h

end Discovery

section Kept

variable {U : Type} [UrlCrate U] [SemverCrate] [JsonCrate]
variable {service : ProviderMetadataService} {t : ℕ} {s s' : Shared}

omit [SemverCrate] [JsonCrate] in
/-- File operations do not touch the cache of indices. -/
theorem fileOp_indices {issue : ℕ} {op : FileOp} {choice : Choice} {answer : Except IoError Bytes}
    (h : s.fileOp issue op choice = some (answer, s')) : s'.indices = s.indices := by
  by_cases hop : ∀ source target document, op ≠ .rename source target document
  · obtain ⟨files, unreported, found, rfl, -, -⟩ := fileOp_touches hop h
    rfl
  · push Not at hop
    obtain ⟨source, target, document, rfl⟩ := hop
    rcases rename_cases h with ⟨rfl, -⟩ | ⟨bytes, -, -, rfl⟩
    · rfl
    · rfl

/-- Only an insertion changes the cache of indices. -/
theorem exec_indices {op : Op} {choice : Choice} {answer : Res op}
    (h : exec U service t s op choice = some (answer, s')) : s'.indices = s.indices ∨
      ∃ key entry source, op = .insertIndex key entry source ∧
        s' = s.insertIndex key entry source := by
  cases op with
  | insertIndex key entry source =>
    cases always_some h
    exact .inr ⟨key, entry, source, rfl, rfl⟩
  | insertVersion key entry source =>
    cases always_some h
    cases source <;> exact .inl rfl
  | recordFailure timer =>
    cases always_some h
    cases timer <;> exact .inl rfl
  | clearFailure timer =>
    cases always_some h
    cases timer <;> exact .inl rfl
  | indexLock op =>
    obtain ⟨locks, -, heq⟩ := Option.map_eq_some_iff.mp (eventually_some h)
    cases heq
    exact .inl rfl
  | versionLock op =>
    obtain ⟨locks, -, heq⟩ := Option.map_eq_some_iff.mp (eventually_some h)
    cases heq
    exact .inl rfl
  | nowEpoch =>
    cases choice with
    | epoch now =>
      cases h
      exact .inl rfl
    | _ => cases h
  | awaitVersions key stamp =>
    change s.awaitVersions t key stamp choice = some (answer, s') at h
    unfold Shared.awaitVersions at h
    cases choice with
    | versions reply =>
      cases reply with
      | error error =>
        cases h
        exact .inl rfl
      | ok versions =>
        cases h
        exact .inl rfl
    | _ => cases h
  | packages key platforms =>
    unfold exec at h
    cases choice with
    | packages answers =>
      dsimp only at h
      split at h
      · cases h
        exact .inl rfl
      · cases h
    | _ => cases h
  | file op =>
    have h' : ({ s with issued := s.issued + 1 } : Shared).fileOp s.issued op choice =
        some (answer, s') := h
    have hsame := fileOp_indices h'
    exact .inl hsame
  | trySync =>
    unfold exec at h
    dsimp only at h
    split at h
    · cases always_some h
      exact .inl rfl
    · cases always_some h
      exact .inl rfl
  | _ =>
    cases always_some h
    exact .inl rfl

theorem start_same {entry : Entry} {program : Code MetadataMachine.Out}
    (h : (machine U service).start t s entry = some (program, s')) : s' = s := by
  have h' : (if s.unused t then some (request U service entry, s) else none) =
      some (program, s') := h
  split at h'
  · cases h'
    rfl
  · cases h'

theorem cancel_indices {op : Op} (h : (machine U service).cancel t s op = some s') :
    s'.indices = s.indices := by
  have h' : MetadataMachine.cancel t s op = some s' := h
  unfold MetadataMachine.cancel at h'
  split at h'
  · cases h'
    rfl
  · cases h'
    rfl
  · cases h'
    rfl
  · cases h'
    rfl
  · cases h'
    rfl
  · cases h'
    rfl
  · cases h'

theorem move_indices {m : Move} (h : (machine U service).move s m = some s') :
    s'.indices = s.indices := by
  have h' : MetadataMachine.move s m = some s' := h
  unfold MetadataMachine.move at h'
  cases m with
  | tick duration =>
    cases h'
    rfl
  | land position choice =>
    dsimp only at h'
    split at h'
    · cases h'
    · obtain ⟨⟨answer, s₁⟩, hop, rfl⟩ := Option.map_eq_some_iff.mp h'
      have hsame := fileOp_indices hop
      exact hsame

variable {R : Rules}

/-- The index is cached, or a refresh has published another since. -/
def CachedOrPublished (key : ProviderKey) (entry : IndexEntry) (s : Shared) : Prop :=
  s.indices.lookup key = some entry ∨ ∃ p ∈ s.published, p.key = key

theorem cachedOrPublished_of_same {key : ProviderKey} {entry : IndexEntry}
    (h : CachedOrPublished key entry s) (hindices : s'.indices = s.indices)
    (hg : Grows U service R s s') : CachedOrPublished key entry s' := by
  rcases h with hcached | ⟨p, hp, hkey⟩
  · left
    rw [hindices]
    exact hcached
  · exact .inr ⟨p, hg.published p hp, hkey⟩

/-- A cached index is replaced by published ones only: an operation. -/
theorem cachedOrPublished_exec {key : ProviderKey} {entry : IndexEntry} {op : Op} {choice : Choice}
    {answer : Res op} (hs : Inv U service R s) (hpre : Pre U service R t op s)
    (h : CachedOrPublished key entry s)
    (hexec : exec U service t s op choice = some (answer, s')) :
    CachedOrPublished key entry s' := by
  have hgrows : Grows U service R s s' := grows_exec hs hpre hexec
  rcases exec_indices hexec with hsame | ⟨key', entry', source, rfl, rfl⟩
  · exact cachedOrPublished_of_same h hsame hgrows
  · rcases h with hcached | ⟨p, hp, hkey⟩
    · cases source with
      | persisted =>
        have habsent : s.indices.lookup key' = none := hpre.2.1
        have hne : key ≠ key' := by
          intro heq
          rw [heq, habsent] at hcached
          cases hcached
        left
        exact (AList.lookup_insert_ne hne).trans hcached
      | fetched stamp =>
        by_cases heq : key = key'
        · exact .inr ⟨_, List.mem_cons_self, heq.symm⟩
        · left
          exact (AList.lookup_insert_ne heq).trans hcached
    · exact .inr ⟨p, hgrows.published p hp, hkey⟩

/-- Every step of a run. -/
theorem cachedOrPublished_next {key : ProviderKey} {entry : IndexEntry}
    {c c' : Config Op Res MetadataMachine.Out Shared}
    (hc : Verified (assertions U service R) (policy R) (machine U service) (fun _ => Anything) c)
    (h : CachedOrPublished key entry c.shared) (hnext : (machine U service).Next (policy R) c c') :
    CachedOrPublished key entry c'.shared := by
  have hgrows := next_grows hc hnext
  have hindices : (c'.shared.indices = c.shared.indices) ∨ CachedOrPublished key entry c'.shared := by
    refine hc.related (fun s s' => CachedOrPublished key entry s →
        s'.indices = s.indices ∨ CachedOrPublished key entry s')
      (fun t s request program s' _ hstart _ => .inl (congrArg Shared.indices (start_same hstart)))
      (fun t s op choice answer s' hinv hpre hexec h => .inr (cachedOrPublished_exec hinv hpre h hexec))
      (fun t s op s' _ _ hcancel _ => .inl (cancel_indices hcancel))
      (fun s m s' _ _ hmove _ => .inl (move_indices hmove)) (fun s s' hreboot _ => hreboot.elim) hnext h
  rcases hindices with hsame | hkept
  · exact cachedOrPublished_of_same h hsame hgrows
  · exact hkept

end Kept

section Serving

variable {U : Type} [UrlCrate U] [SemverCrate] [JsonCrate]
variable {service : ProviderMetadataService} {t now : ℕ} {s : Shared}

/-- A fresh cached index is served by four operations, none of them a request. -/
theorem serve_index {key : ProviderKey} {entry : IndexEntry}
    (hcached : s.indices.lookup key = some entry)
    (hfresh : entry.fresh now service.freshness refreshBackoff = true) :
    solo (exec U service t) (loadIndex service key).run s [.ok, .ok, .epoch now, .ok] =
      some (.ok entry, { s with
        indexLoads := ⟨key, s.indexPresence service key, .ok entry⟩ :: s.indexLoads }) := by
  have henter : exec U service t s (.enterIndex key) .ok =
      some (s.indexPresence service key, s) := rfl
  have hentry : exec U service t s (.indexEntry key) .ok = some (some entry, s) := by
    rw [← hcached]
    rfl
  have hnow : exec U service t s .nowEpoch (.epoch now) = some (now, s) := rfl
  refine (solo_cons henter).trans ?_
  refine (solo_cons hentry).trans ?_
  refine (solo_cons hnow).trans ?_
  simp only [Prog.bind]
  rw [if_pos hfresh]
  exact solo_cons rfl

omit [SemverCrate] [JsonCrate] in
/-- A mutex that has just been created is free. -/
theorem acquire_created {K : Type} [DecidableEq K] {L : LockTable K} {k : K} (hL : L.Consistent)
    (hmap : L.map.lookup k = none) : ∃ L', (L.lockFor t k).acquire t = some L' := by
  have hfree : L.owner L.fresh = none := by
    cases howner : L.owner L.fresh with
    | none => rfl
    | some t' =>
      obtain ⟨k', hhandle⟩ := hL.owner_live howner
      have hlt := hL.handle_fresh hhandle
      dsimp only at hlt
      omega
  unfold LockTable.lockFor LockTable.acquire
  simp [hmap, hfree]

/-- A persisted version is served by the first request for it. -/
theorem serve_version {key : VersionKey} {entry : VersionEntry} {bytes : Bytes}
    (hlocks : s.versionLocks.Consistent) (hmap : s.versionLocks.map.lookup key = none)
    (habsent : s.versions.lookup key = none)
    (hfile : s.files.lookup (service.versionPath key) = some bytes)
    (hdecode : JsonCrate.versionFromSlice bytes = .ok entry)
    (hvalid : validateVersionMetadata U key entry.value = .ok ())
    (hfresh : entry.fresh now service.freshness refreshBackoff = true) :
    ∃ s', solo (exec U service t) (loadVersion U service key).run s
        (List.replicate 10 .ok ++ [.epoch now] ++ List.replicate 4 .ok) = some (.ok entry, s') ∧
      s'.versions.lookup key = some entry ∧ s'.nextStamp = s.nextStamp := by
  obtain ⟨locks, hacquire⟩ := acquire_created (t := t) hlocks hmap
  have habsent' : decide (key ∈ s.versions) = false := by
    rw [decide_eq_false_iff_not]
    exact AList.lookup_eq_none.mp habsent
  let s₁ : Shared := { s with versionLocks := s.versionLocks.lockFor t key }
  let s₂ : Shared := { s with versionLocks := locks }
  let s₃ : Shared := { s₂ with
    issued := s.issued + 1
    found := (service.versionPath key, bytes) :: s.found }
  let s₄ : Shared := { s₃ with versions := s.versions.insert key entry }
  have henter : exec U service t s (.enterVersion key) .ok =
    some (s.versionPresence U service key, s) := rfl
  have hentry : exec U service t s (.versionEntry key) .ok = some (none, s) := by
    rw [← habsent]
    rfl
  have hlock : exec U service t s (.versionLock (.lockFor key)) .ok = some ((), s₁) := rfl
  have hacquire' : exec U service t s₁ (.versionLock .acquire) .ok = some ((), s₂) := by
    have hperform : s₁.versionLocks.perform t .acquire = some locks := hacquire
    unfold exec eventually
    simp only [hperform]
    rfl
  have hentry₂ : exec U service t s₂ (.versionEntry key) .ok = some (none, s₂) := by
    rw [← habsent]
    rfl
  have hcontains : exec U service t s₂ (.containsVersion key) .ok = some (false, s₂) := by
    rw [← habsent']
    rfl
  have hread : exec U service t s₂ (.file (.read (service.versionPath key))) .ok =
      some (.ok bytes, s₃) := by
    unfold exec Shared.fileOp Shared.read
    simp only [s₂, hfile]
    rfl
  have hresume : exec U service t s₃ .resume .ok = some ((), s₃) := rfl
  have hinsert : exec U service t s₃ (.insertVersion key entry .persisted) .ok = some ((), s₄) := rfl
  have hentry₄ : exec U service t s₄ (.versionEntry key) .ok = some (some entry, s₄) := by
    have hlookup : s₄.versions.lookup key = some entry := AList.lookup_insert _
    rw [← hlookup]
    rfl
  have hnow : exec U service t s₄ .nowEpoch (.epoch now) = some (now, s₄) := rfl
  let s₅ : Shared := { s₄ with versionLocks := locks.release t }
  let s₆ : Shared := { s₅ with versionLocks := s₅.versionLocks.dropBody t }
  let s₇ : Shared := { s₆ with versionLocks := s₆.versionLocks.releaseArc t }
  let s₈ : Shared := { s₇ with
    versionLoads := ⟨key, s.versionPresence U service key, .ok entry⟩ :: s.versionLoads }
  have hrelease : exec U service t s₄ (.versionLock .release) .ok = some ((), s₅) := rfl
  have hdrop : exec U service t s₅ (.versionLock .dropBody) .ok = some ((), s₆) := rfl
  have harc : exec U service t s₆ (.versionLock .releaseArc) .ok = some ((), s₇) := rfl
  have hleave : exec U service t s₇
      (.leaveVersion key (s.versionPresence U service key) (.ok entry)) .ok = some ((), s₈) := rfl
  have hsolo : solo (exec U service t) (loadVersion U service key).run s
      (List.replicate 10 .ok ++ [.epoch now] ++ List.replicate 4 .ok) = some (.ok entry, s₈) := by
    refine (solo_cons henter).trans ?_
    refine (solo_cons hentry).trans ?_
    refine (solo_cons hlock).trans ?_
    refine (solo_cons hacquire').trans ?_
    refine (solo_cons hentry₂).trans ?_
    refine (solo_cons hcontains).trans ?_
    refine (solo_cons hread).trans ?_
    refine (solo_cons hresume).trans ?_
    have hdecode' : (versionLoader U service).decode bytes = .ok entry := hdecode
    have hvalid' : (versionLoader U service).validate key entry.value = .ok () := hvalid
    simp only [pure, ExceptT.pure, ExceptT.mk, Prog.bind, ExceptT.bindCont, hdecode', hvalid']
    refine (solo_cons hinsert).trans ?_
    refine (solo_cons hentry₄).trans ?_
    refine (solo_cons hnow).trans ?_
    simp only [Prog.bind, hfresh, if_true]
    refine (solo_cons hrelease).trans ?_
    refine (solo_cons hdrop).trans ?_
    refine (solo_cons harc).trans ?_
    exact solo_cons hleave
  exact ⟨s₈, hsolo, AList.lookup_insert _, rfl⟩
end Serving

section Restart

variable {U : Type} [UrlCrate U] [SemverCrate] [JsonCrate]
variable {service service' : ProviderMetadataService} {files files' : Files} {pid pid' : ℕ}
variable {s s' : Shared}

/-- The service started in this state has taken over the index. -/
structure IndexTakenOver (U : Type) [UrlCrate U] [SemverCrate] [JsonCrate]
    (service : ProviderMetadataService) (key : ProviderKey) (entry : IndexEntry) (s : Shared) :
    Prop where
  valid : validateRegistryVersions entry.value = .ok ()
  discovered : s.indices.lookup key = some entry
  /-- It stays until a refresh publishes another, and is served without a request. -/
  served : ∀ c, (machine U service).Run .free (Started s) c →
    (∀ p ∈ c.shared.published, p.key ≠ key) → c.shared.indices.lookup key = some entry ∧
      ∀ t now, entry.fresh now service.freshness refreshBackoff = true →
        ∃ s', solo (exec U service t) (loadIndex service key).run c.shared
            [.ok, .ok, .epoch now, .ok] = some (.ok entry, s') ∧
          s'.nextStamp = c.shared.nextStamp

/-- The service started in this state takes over the version at its first request. -/
structure VersionTakenOver (U : Type) [UrlCrate U] [SemverCrate] [JsonCrate]
    (service : ProviderMetadataService) (key : VersionKey) (entry : VersionEntry)
    (file : Option Bytes) (s : Shared) : Prop where
  valid : validateVersionMetadata U key entry.value = .ok ()
  decoded : ∃ bytes, file = some bytes ∧ JsonCrate.versionFromSlice bytes = .ok entry
  /-- While its file is unchanged, the first request for it needs no registry. -/
  served : ∀ c, (machine U service).Run .free (Started s) c →
    c.shared.files.lookup (service.versionPath key) = file → c.shared.versions.lookup key = none →
    c.shared.versionLocks.map.lookup key = none →
      ∀ t now, entry.fresh now service.freshness refreshBackoff = true →
        ∃ s', solo (exec U service t) (loadVersion U service key).run c.shared
            (List.replicate 10 .ok ++ [.epoch now] ++ List.replicate 4 .ok) = some (.ok entry, s') ∧
          s'.versions.lookup key = some entry ∧ s'.nextStamp = c.shared.nextStamp

/-- Along every run without a refresh of the key its index stays cached. -/
theorem cached_until_published {key : ProviderKey} {entry : IndexEntry}
    (h : boot service files pid = .ok s) (hentry : s.indices.lookup key = some entry)
    {c : Config Op Res MetadataMachine.Out Shared}
    (hrun : (machine U service).Run .free (Started s) c)
    (hpublished : ∀ p ∈ c.shared.published, p.key ≠ key) :
    c.shared.indices.lookup key = some entry := by
  have hsound := machine_sound U service Rules.none
  have hstart : Verified (assertions U service Rules.none) (policy Rules.none) (machine U service)
      (fun _ => Anything) (Started s) := verified_idle (boot_inv h)
  have hkept : ∀ c, (machine U service).Run (policy Rules.none) (Started s) c →
      CachedOrPublished key entry c.shared := by
    intro c hrun
    induction hrun with
    | refl => exact .inl hentry
    | tail hmiddle hnext ih => exact cachedOrPublished_next (adequacy hsound hstart hmiddle) ih hnext
  rcases hkept c (run_of_free hrun) with hcached | ⟨p, hp, hkey⟩
  · exact hcached
  · exact absurd hkey (hpublished p hp)

end Restart

/-- The files of the plain provider. -/
def plainFiles (index version : Bytes) : Files :=
  (indexFile index).insert ((plainService 0).versionPath (plainVersionKey "1.0.0")) version

end OpenTfMirror.MetadataRestart
