import OpenTfMirror.ArchivePaths
import OpenTfMirror.VersionOrder

/-!
# The provider routes

The handlers of the provider API: which action is the index and which a version,
what the answers say, and how errors become statuses. A listed version is
resolvable as listed, but for names that the handler reads differently.
-/

namespace OpenTfMirror.HttpApi

open TaskProgram Fallible TextOps Outbound Provider Metadata MetadataService ArchivePaths
  VersionOrder

/-- The statuses that the handlers answer with. -/
inductive StatusCode where
  | ok
  | noContent
  | badRequest
  | notFound
  | conflict
  | badGateway
  | internalServerError
  deriving DecidableEq, Repr

/-- `metadata_error_response`. -/
def metadataErrorResponse : MetadataError → StatusCode
  | .notFound => .notFound
  | .invalidAddress _ | .registryNotAllowed _ => .badRequest
  | .syncInProgress => .conflict
  | _ => .badGateway

structure ArchiveResponse where
  url : String
  hashes : List String
  deriving DecidableEq, Repr

/-- What `get_provider_metadata` answers. -/
inductive MetadataResponse where
  | status (code : StatusCode)
  | versions (versions : List String)
  | archives (archives : AList fun _ : String => ArchiveResponse)

/-- What an action asks for. -/
inductive Route where
  | badRequest
  | index
  | version (version : String)
  deriving DecidableEq, Repr

/-- How `get_provider_metadata` reads the action. -/
def routeAction (action : String) : Route :=
  match (stripSuffix ".json" action).map trim with
  | none => .badRequest
  | some version =>
    let version := trimStart (fun c => c = 'v') version
    if version = "index" then .index else .version version

/-- The announcement of one platform. -/
def announce (platform : PlatformMetadata) : String × ArchiveResponse :=
  (platform.os ++ "_" ++ platform.arch,
    ⟨"download/" ++ platform.filename, (platform.shasum.map fun shasum => "zh:" ++ shasum).toList⟩)

/-- The announcements of all platforms; of two with one key the later one stays. -/
def announcements (platforms : List PlatformMetadata) : AList fun _ : String => ArchiveResponse :=
  platforms.foldl (fun archives platform =>
    archives.insert (announce platform).1 (announce platform).2) ∅

/-- The answer for one version. -/
def versionResponse : Except MetadataError (Option VersionMetadata) → MetadataResponse
  | .ok (some metadata) => .archives (announcements metadata.platforms)
  | .ok none => .status .notFound
  | .error error => .status (metadataErrorResponse error)

section Handlers

variable (U : Type) [UrlCrate U] [SemverCrate] [JsonCrate]

/-- `get_provider_metadata`. -/
def getProviderMetadata (self : ProviderMetadataService)
    (hostname providerNamespace providerType action : String) : Code MetadataResponse :=
  match routeAction action with
  | .badRequest => .done (.status .badRequest)
  | .index => do
    match ← (listVersions self hostname providerNamespace providerType).run with
    | .ok versions => return .versions versions
    | .error error => return .status (metadataErrorResponse error)
  | .version version => do
    let metadata ← (getVersion U self hostname providerNamespace providerType version).run
    return versionResponse metadata

/-- `download_provider_archive` up to the archive store. -/
def resolveArchive (self : ProviderMetadataService)
    (hostname providerNamespace providerType archive : String) :
    Code (Except StatusCode PlatformMetadata) :=
  if !(ArchiveName.parse providerType archive).isOk then .done (.error .badRequest)
  else do
    match ← (getPlatformByArchive U self hostname providerNamespace providerType archive).run with
    | .ok (some platform) =>
      if platform.filename ≠ archive then return .error .notFound else return .ok platform
    | .ok none => return .error .notFound
    | .error error => return .error (metadataErrorResponse error)

omit [SemverCrate] in
/-- `sync_providers`. -/
def syncProviders (self : ProviderMetadataService) : Code StatusCode := do
  match ← (syncKnown self).run with
  | .ok () => return .noContent
  | .error .syncInProgress => return .conflict
  | .error _ => return .badGateway

end Handlers

section Lookup

/-- The key under which `get_version_entry` looks a version up. -/
def lookupKey (self : ProviderMetadataService)
    (hostname providerNamespace providerType version : String) :
    Except MetadataError VersionKey := do
  validateVersion version "version"
  let provider ← self.providerKey hostname providerNamespace providerType
  return ⟨provider, normalizeVersion version⟩

/-- The rest of `get_version_entry`. -/
def lookupEntry (U : Type) [UrlCrate U] [SemverCrate] [JsonCrate] (self : ProviderMetadataService)
    (key : VersionKey) : MetadataService.Task (Option VersionEntry) := do
  match ← lift (loadVersion U self key).run with
  | .ok entry => return some entry
  | .error .notFound => return none
  | .error error => throw error

/-- `get_version_entry` loads the entry of the key. -/
theorem getVersionEntry_eq (U : Type) [UrlCrate U] [SemverCrate] [JsonCrate]
    (self : ProviderMetadataService) (hostname providerNamespace providerType version : String) :
    getVersionEntry U self hostname providerNamespace providerType version =
      match lookupKey self hostname providerNamespace providerType version with
      | .error error => throw error
      | .ok key => lookupEntry U self key := by
  unfold getVersionEntry lookupKey
  cases hversion : validateVersion version "version" with
  | error error => rfl
  | ok value =>
    cases hkey : self.providerKey hostname providerNamespace providerType with
    | error error => rfl
    | ok provider => rfl

/-- The version route answers with the entry that the lookup loads. -/
theorem getProviderMetadata_lookup (U : Type) [UrlCrate U] [SemverCrate] [JsonCrate]
    {self : ProviderMetadataService} {hostname providerNamespace providerType action : String}
    {version : String} {key : VersionKey} (hroute : routeAction action = .version version)
    (hlookup : lookupKey self hostname providerNamespace providerType version = .ok key) :
    getProviderMetadata U self hostname providerNamespace providerType action = (do
      let entry ← (lookupEntry U self key).run
      return versionResponse (entry.map fun entry => entry.map CacheEntry.value)) := by
  unfold getProviderMetadata getVersion
  rw [hroute]
  dsimp only
  rw [getVersionEntry_eq, hlookup]
  dsimp only
  rw [run_bind, Prog.bind_assoc]
  refine congrArg _ (funext fun entry => ?_)
  cases entry with
  | error error => rfl
  | ok entry => rfl

/-- What the archive route makes of a loaded entry. -/
def archiveResponse (archive : String) :
    Except MetadataError (Option VersionEntry) → Except StatusCode PlatformMetadata
  | .ok entry =>
    match entry.bind fun entry => platformByFilename entry.value archive with
    | some platform => if platform.filename ≠ archive then .error .notFound else .ok platform
    | none => .error .notFound
  | .error error => .error (metadataErrorResponse error)

/-- The archive route looks in the entry that the lookup loads. -/
theorem resolveArchive_lookup (U : Type) [UrlCrate U] [SemverCrate] [JsonCrate]
    {self : ProviderMetadataService} {hostname providerNamespace providerType archive : String}
    {name : ArchiveName} {key : VersionKey}
    (hparse : ArchiveName.parse providerType archive = .ok name)
    (hlookup : lookupKey self hostname providerNamespace providerType name.version = .ok key) :
    resolveArchive U self hostname providerNamespace providerType archive = (do
      let entry ← (lookupEntry U self key).run
      return archiveResponse archive entry) := by
  unfold resolveArchive getPlatformByArchive
  rw [hparse]
  dsimp only
  rw [if_neg (by simp [Except.isOk, Except.toBool]), getVersionEntry_eq, hlookup]
  dsimp only
  rw [run_bind, Prog.bind_assoc]
  refine congrArg _ (funext fun entry => ?_)
  cases entry with
  | error error => rfl
  | ok entry =>
    unfold archiveResponse
    cases hfind : entry.bind fun entry => platformByFilename entry.value archive with
    | none => simp [hfind, pure, ExceptT.pure, ExceptT.run, ExceptT.mk, Prog.bind, bind]
    | some platform =>
      by_cases hname : platform.filename = archive
      · simp [hfind, hname, pure, ExceptT.pure, ExceptT.run, ExceptT.mk, Prog.bind, bind]
      · simp [hfind, hname, pure, ExceptT.pure, ExceptT.run, ExceptT.mk, Prog.bind, bind]

/-- Characters of versions are not white space. -/
theorem not_whitespace {c : Char} (h : c.isAlphanum = true ∨ c = '.' ∨ c = '-' ∨ c = '+') :
    isWhitespace c = false := by
  have hrange : 0x20 < c.toNat ∧ c.toNat < 0x80 := by
    rcases h with halnum | rfl | rfl | rfl
    · have hranges : ((decide ('A'.val ≤ c.val ∧ c.val ≤ 'Z'.val) ||
          (decide ('a'.val ≤ c.val) && decide (c.val ≤ 'z'.val))) ||
          (decide ('0'.val ≤ c.val) && decide (c.val ≤ '9'.val))) = true := halnum
      simp only [Bool.or_eq_true, Bool.and_eq_true, decide_eq_true_eq, UInt32.le_iff_toNat_le]
        at hranges
      have hval : c.toNat = c.val.toNat := rfl
      have hZ : 'Z'.val.toNat = 90 := rfl
      have hz : 'z'.val.toNat = 122 := rfl
      have hA : 'A'.val.toNat = 65 := rfl
      have ha : 'a'.val.toNat = 97 := rfl
      have h0 : '0'.val.toNat = 48 := rfl
      have h9 : '9'.val.toNat = 57 := rfl
      omega
    · decide
    · decide
    · decide
  unfold isWhitespace
  simp only [Bool.or_eq_false_iff, Bool.and_eq_false_iff, decide_eq_false_iff_not]
  omega

/-- Trimming leaves a text without white space alone. -/
theorem trim_eq_self {s : String} (h : ∀ c ∈ s.toList, isWhitespace c = false) : trim s = s := by
  have hdrop : ∀ l : List Char, (∀ c ∈ l, isWhitespace c = false) →
      l.dropWhile isWhitespace = l := by
    intro l hl
    cases l with
    | nil => rfl
    | cons c rest => rw [List.dropWhile_cons_of_neg (by simp [hl c List.mem_cons_self])]
  unfold trim trimStart trimEnd
  rw [hdrop _ h, String.ofList_toList, hdrop _ (by simpa using h), List.reverse_reverse,
    String.ofList_toList]

/-- `trim_start_matches('v')` removes every leading `v`. -/
theorem trimStart_head (s : String) :
    (trimStart (fun c => c = 'v') s).toList.head? ≠ some 'v' := by
  unfold trimStart
  rw [String.toList_ofList]
  intro hhead
  have hnot := List.head?_dropWhile_not (fun c : Char => decide (c = 'v')) s.toList
  rw [hhead] at hnot
  simp at hnot

/-- Without a leading `v` there is nothing to trim. -/
theorem trimStart_eq_self {s : String} (h : s.toList.head? ≠ some 'v') :
    trimStart (fun c => c = 'v') s = s := by
  unfold trimStart
  cases hs : s.toList with
  | nil =>
    rw [List.dropWhile_nil, ← hs, String.ofList_toList]
  | cons c rest =>
    rw [hs] at h
    have hc : c ≠ 'v' := by
      rintro rfl
      exact h rfl
    rw [List.dropWhile_cons_of_neg (by simpa using hc), ← hs, String.ofList_toList]

/-- Without a leading `v` there is nothing to normalize. -/
theorem normalizeVersion_eq_self {s : String} (h : s.toList.head? ≠ some 'v') :
    normalizeVersion s = s := by
  unfold normalizeVersion
  cases hstrip : stripPrefix "v" s with
  | none => rfl
  | some rest =>
    rw [stripPrefix_eq_some.mp hstrip] at h
    exact absurd (by simp) h

end Lookup

section Listing

/-- An item of a valid index has a valid normalized version. -/
theorem listed_valid {index : List RegistryVersion} (h : validateRegistryVersions index = .ok ())
    {item : RegistryVersion} (hitem : item ∈ index) :
    validateVersion item.version "version" = .ok () := by
  unfold validateRegistryVersions at h
  split at h
  · cases h
  · have hitem' := checkAll_ok.mp h item hitem
    unfold validateRegistryVersion at hitem'
    obtain ⟨⟨⟩, hversion, -⟩ := bind_ok.mp hitem'
    exact hversion

/-- The action of a listed version. -/
theorem routeAction_json {w : String} (h : ∀ c ∈ w.toList, isWhitespace c = false) :
    routeAction (w ++ ".json") =
      if trimStart (fun c => c = 'v') w = "index" then .index
      else .version (trimStart (fun c => c = 'v') w) := by
  unfold routeAction
  rw [stripSuffix_eq_some.mpr rfl, Option.map_some, trim_eq_self h]

/-- The action of this version reaches `get_version` with a key of this very
version, and the index has an item for it. -/
def ResolvesAsListed (self : ProviderMetadataService)
    (hostname providerNamespace providerType : String) (provider : ProviderKey)
    (index : IndexEntry) (w : String) : Prop :=
  ∃ version, routeAction (w ++ ".json") = .version version ∧
    lookupKey self hostname providerNamespace providerType version = .ok ⟨provider, w⟩ ∧
    (listedVersion index w).isSome = true

/-- The handler then answers with the entry of that key. -/
theorem getProviderMetadata_listed (U : Type) [UrlCrate U] [SemverCrate] [JsonCrate]
    {self : ProviderMetadataService} {hostname providerNamespace providerType : String}
    {provider : ProviderKey} {index : IndexEntry} {w : String}
    (h : ResolvesAsListed self hostname providerNamespace providerType provider index w) :
    getProviderMetadata U self hostname providerNamespace providerType (w ++ ".json") = (do
      let entry ← (lookupEntry U self ⟨provider, w⟩).run
      return versionResponse (entry.map fun entry => entry.map CacheEntry.value)) := by
  obtain ⟨version, hroute, hlookup, -⟩ := h
  exact getProviderMetadata_lookup U hroute hlookup

/-- A version that a valid index lists is resolvable as listed just when it is
not the reserved name and has no leading `v`. -/
theorem listed_resolvable [SemverCrate] (self : ProviderMetadataService)
    (hostname providerNamespace providerType : String) (provider : ProviderKey)
    (hkey : self.providerKey hostname providerNamespace providerType = .ok provider)
    (index : IndexEntry) (hindex : validateRegistryVersions index.value = .ok ()) (w : String)
    (hw : w ∈ sortedVersions index.value) :
    ResolvesAsListed self hostname providerNamespace providerType provider index w ↔
      w ≠ "index" ∧ w.toList.head? ≠ some 'v' := by
  obtain ⟨item, hitem, hitemVersion⟩ := mem_sortedVersions.mp hw
  have hvalid := listed_valid hindex hitem
  have hchars := version_chars hvalid
  rw [hitemVersion] at hchars
  have hroute := routeAction_json fun c hc => not_whitespace (hchars c hc)
  constructor
  · rintro ⟨version, haction, hlookup, -⟩
    rw [hroute] at haction
    split at haction
    · cases haction
    · next hindexName =>
        cases haction
        have hhead := trimStart_head w
        unfold lookupKey at hlookup
        obtain ⟨⟨⟩, -, hlookup⟩ := bind_ok.mp hlookup
        obtain ⟨provider', -, hlookup⟩ := bind_ok.mp hlookup
        rw [normalizeVersion_eq_self hhead] at hlookup
        have heq : trimStart (fun c => c = 'v') w = w := by
          have hok := Except.ok.inj hlookup
          exact congrArg VersionKey.version hok
        rw [heq] at hindexName hhead
        exact ⟨hindexName, hhead⟩
  · rintro ⟨hname, hhead⟩
    have htrim := trimStart_eq_self hhead
    rw [htrim, if_neg hname] at hroute
    refine ⟨w, hroute, ?_, ?_⟩
    · have hversion : validateVersion w "version" = .ok () := by
        unfold validateVersion at hvalid ⊢
        rw [hitemVersion] at hvalid
        rw [normalizeVersion_eq_self hhead]
        exact hvalid
      unfold lookupKey
      rw [hversion, hkey, normalizeVersion_eq_self hhead]
      rfl
    · unfold listedVersion
      rw [List.find?_isSome]
      exact ⟨item, hitem, by simpa using hitemVersion⟩

/-- The listed version `1.0.0` is resolvable. -/
theorem listed_resolvable_plain :
    ResolvesAsListed (PlainMetadata.plainService 0) "registry.terraform.io" "hashicorp" "null"
      PlainMetadata.plainProvider ⟨0, true, [⟨"v1.0.0", []⟩]⟩ "1.0.0" := by
  have h := @listed_resolvable PlainLibraries.plainSemver (PlainMetadata.plainService 0)
    "registry.terraform.io" "hashicorp" "null" PlainMetadata.plainProvider (by decide +kernel)
    ⟨0, true, [⟨"v1.0.0", []⟩]⟩ (by decide +kernel) "1.0.0" (by decide +kernel)
  exact h.mpr (by decide)

/-- The version `vv1.0.0` of an index is listed as `v1.0.0`, but the handler
looks `1.0.0` up. -/
theorem doubled_prefix_unresolvable :
    validateRegistryVersions [⟨"vv1.0.0", []⟩] = .ok () ∧
      "v1.0.0" ∈ @sortedVersions PlainLibraries.plainSemver [⟨"vv1.0.0", []⟩] ∧
      ¬ ResolvesAsListed (PlainMetadata.plainService 0) "registry.terraform.io" "hashicorp" "null"
        PlainMetadata.plainProvider ⟨0, true, [⟨"vv1.0.0", []⟩]⟩ "v1.0.0" := by
  refine ⟨by decide +kernel, by decide +kernel, ?_⟩
  rintro ⟨version, hroute, hlookup, -⟩
  have haction : routeAction ("v1.0.0" ++ ".json") = .version "1.0.0" := by decide +kernel
  rw [haction] at hroute
  cases hroute
  exact absurd hlookup (by decide +kernel)

end Listing

end OpenTfMirror.HttpApi
