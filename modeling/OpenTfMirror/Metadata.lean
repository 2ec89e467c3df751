import OpenTfMirror.FileStore
import OpenTfMirror.Outbound
import OpenTfMirror.Provider

/-!
# Provider metadata and its validation

The cached documents, the errors, and the checks that decide which addresses,
upstream answers and persisted files are accepted.
-/

namespace OpenTfMirror.Metadata

open TextOps Outbound Provider FileStore

structure PlatformMetadata where
  os : String
  arch : String
  filename : String
  shasum : Option String
  downloadUrl : String
  deriving DecidableEq, Repr

structure VersionMetadata where
  hostname : String
  providerNamespace : String
  providerType : String
  version : String
  platforms : List PlatformMetadata
  deriving DecidableEq, Repr

structure RegistryPlatform where
  os : String
  arch : String
  deriving DecidableEq, Repr

structure RegistryVersion where
  version : String
  platforms : List RegistryPlatform
  deriving DecidableEq, Repr

inductive RegistryError where
  | notFound
  | invalidOrigin (message : String)
  | request (error : RequestError)
  | outbound (error : OutboundError)
  | invalidResponse (message : String)
  | responseTooLarge (maximum : ℕ)
  | discoveryBackoff
  deriving DecidableEq, Repr

inductive MetadataError where
  | notFound
  | invalidAddress (field : String)
  | registryNotAllowed (hostname : String)
  | syncInProgress
  | syncFailed (count : ℕ)
  | registry (error : RegistryError)
  | io (error : IoError)
  | json (message : String)
  | refreshBackoff
  deriving DecidableEq, Repr

structure ProviderKey where
  hostname : String
  providerNamespace : String
  providerType : String
  deriving DecidableEq, Repr

structure VersionKey where
  provider : ProviderKey
  version : String
  deriving DecidableEq, Repr

structure CacheEntry (α : Type) where
  fetchedAt : ℕ
  complete : Bool
  value : α
  deriving DecidableEq, Repr

abbrev IndexEntry := CacheEntry (List RegistryVersion)
abbrev VersionEntry := CacheEntry VersionMetadata

/-- `Duration::as_secs`, for durations in nanoseconds. -/
def asSecs (duration : ℕ) : ℕ := duration / 10 ^ 9

/-- `CacheEntry::fresh`, when the clock reads `now`. -/
def CacheEntry.fresh {α : Type} (entry : CacheEntry α) (now freshness partialRetry : ℕ) : Bool :=
  let ttl := if entry.complete then freshness else partialRetry
  now - entry.fetchedAt < asSecs ttl

/-- `normalize_version`. -/
def normalizeVersion (value : String) : String := (stripPrefix "v" value).getD value

/-- `valid_component`. -/
def validComponent (value : String) : Bool :=
  value ≠ "" && value.utf8ByteSize ≤ 100 &&
    value.toList.all (fun c => c.isAlphanum || c = '-' || c = '_' || c = '.') &&
    value ≠ "." && value ≠ ".."

/-- `valid_version`. -/
def validVersion (value : String) : Bool :=
  value ≠ "" && value.utf8ByteSize ≤ 100 &&
    value.toList.all (fun c => c.isAlphanum || c = '.' || c = '-' || c = '+') &&
    value ≠ "." && value ≠ ".."

/-- `validate_hostname`. -/
def validateHostname (value : String) : Except MetadataError Unit :=
  if value = "" || 253 < value.utf8ByteSize ||
      (splitAll '.' value).any fun part => !validComponent part then
    .error (.invalidAddress "hostname")
  else .ok ()

/-- `validate_component`. -/
def validateComponent (value name : String) : Except MetadataError Unit :=
  if !validComponent value then .error (.invalidAddress name) else .ok ()

/-- `validate_version`. -/
def validateVersion (value name : String) : Except MetadataError Unit :=
  if !validVersion (normalizeVersion value) then .error (.invalidAddress name) else .ok ()

/-- `validate_platform_component`. -/
def validatePlatformComponent (value name : String) : Except MetadataError Unit :=
  if value = "" || 32 < value.utf8ByteSize ||
      !value.toList.all fun c => isAsciiLowercase c || c.isDigit || c = '_' || c = '-' then
    .error (.invalidAddress name)
  else .ok ()

/-- A SHA-256 checksum in hexadecimal, in either case. -/
def isChecksum (checksum : String) : Bool :=
  checksum.utf8ByteSize = 64 && checksum.toList.all isHexDigit

/-- A loop of checks that stops at the first error. -/
def checkAll {α ε : Type} (check : α → Except ε Unit) : List α → Except ε Unit
  | [] => .ok ()
  | x :: rest =>
    match check x with
    | .error error => .error error
    | .ok _ => checkAll check rest

section Packages

variable (Url : Type) [UrlCrate Url] [SemverCrate]

/-- `validate_package`. -/
def validatePackage (key : VersionKey) (requested : RegistryPlatform)
    (package : PlatformMetadata) : Except MetadataError Unit :=
  if package.os ≠ requested.os || package.arch ≠ requested.arch then
    .error (.invalidAddress "package platform does not match request")
  else
    match ArchiveName.parse key.provider.providerType package.filename with
    | .error _ => .error (.invalidAddress "package filename")
    | .ok archive =>
      if archive.version ≠ key.version || archive.os ≠ requested.os ||
          archive.arch ≠ requested.arch || archive.providerType ≠ key.provider.providerType then
        .error (.invalidAddress "package filename does not match request")
      else if !package.shasum.any isChecksum then .error (.invalidAddress "package checksum")
      else
        match (UrlCrate.parse package.downloadUrl : Option Url) with
        | none => .error (.invalidAddress "package download URL")
        | some url =>
          if UrlCrate.scheme url ≠ "https" || UrlCrate.hostStr url = none then
            .error (.invalidAddress "package download URL policy")
          else .ok ()

/-- The platforms of one listed version. -/
def validatePlatforms (platforms : List RegistryPlatform) : Except MetadataError Unit :=
  checkAll (fun platform => do
    validatePlatformComponent platform.os "operating system"
    validatePlatformComponent platform.arch "architecture") platforms

/-- One listed version. -/
def validateRegistryVersion (version : RegistryVersion) : Except MetadataError Unit := do
  validateVersion version.version "version"
  if 128 < version.platforms.length then .error (.invalidAddress "too many provider platforms")
  else validatePlatforms version.platforms

/-- `validate_registry_versions`. -/
def validateRegistryVersions (versions : List RegistryVersion) : Except MetadataError Unit :=
  if 4096 < versions.length then .error (.invalidAddress "too many provider versions")
  else checkAll validateRegistryVersion versions

/-- `validate_version_metadata`. -/
def validateVersionMetadata (key : VersionKey) (metadata : VersionMetadata) :
    Except MetadataError Unit :=
  if metadata.hostname ≠ key.provider.hostname ||
      metadata.providerNamespace ≠ key.provider.providerNamespace ||
      metadata.providerType ≠ key.provider.providerType then
    .error (.invalidAddress "persisted provider metadata identity")
  else do
    validateVersion metadata.version "version"
    if normalizeVersion metadata.version ≠ key.version then
      .error (.invalidAddress "persisted provider metadata version")
    else if 128 < metadata.platforms.length then
      .error (.invalidAddress "too many provider platforms")
    else
      checkAll (fun platform => validatePackage Url key ⟨platform.os, platform.arch⟩ platform)
        metadata.platforms

end Packages

/-- `map_registry`. -/
def mapRegistry : RegistryError → MetadataError
  | .notFound => .notFound
  | error => .registry error

/-- `should_backoff`. -/
def shouldBackoff : MetadataError → Bool
  | .notFound | .invalidAddress _ | .registryNotAllowed _ => false
  | _ => true

/-- `compare_versions`. -/
def compareVersions [SemverCrate] (a b : String) : Ordering :=
  match SemverCrate.valid a, SemverCrate.valid b with
  | true, true => SemverCrate.compare a b
  | true, false => .lt
  | false, true => .gt
  | false, false => compare a b

/-- A loop of checks passes when each of them does. -/
theorem checkAll_ok {α ε : Type} {check : α → Except ε Unit} {l : List α} :
    checkAll check l = .ok () ↔ ∀ x ∈ l, check x = .ok () := by
  induction l with
  | nil => simp [checkAll]
  | cons x l ih =>
    unfold checkAll
    cases hx : check x with
    | error error => simp [hx]
    | ok value => simp [hx, ih]

/-- Two checks in a row pass when both do. -/
theorem bind_ok {α β ε : Type} {first : Except ε α} {next : α → Except ε β} {b : β} :
    (first >>= next) = .ok b ↔ ∃ a, first = .ok a ∧ next a = .ok b := by
  cases first with
  | error error => simp [bind, Except.bind]
  | ok value => simp [bind, Except.bind]

section Errors

/-- A check that fails names the field it checks. -/
def NamesField (check : Except MetadataError Unit) : Prop :=
  ∀ error, check = .error error → ∃ field, error = .invalidAddress field

theorem namesField_ok : NamesField (.ok ()) := nofun

theorem namesField_error (field : String) : NamesField (.error (.invalidAddress field)) := by
  intro error h
  cases h
  exact ⟨field, rfl⟩

theorem namesField_bind {first : Except MetadataError Unit}
    {next : Unit → Except MetadataError Unit} (h : NamesField first) (hnext : NamesField (next ())) : NamesField (first >>= next) := by
  cases first with
  | error error => exact h
  | ok value => exact hnext

theorem namesField_checkAll {α : Type} {check : α → Except MetadataError Unit} {l : List α}
    (h : ∀ x, NamesField (check x)) : NamesField (checkAll check l) := by
  induction l with
  | nil => exact namesField_ok
  | cons x l ih =>
    unfold checkAll
    have hx := h x
    cases hcheck : check x with
    | error error =>
      rw [hcheck] at hx
      exact hx
    | ok value => exact ih

theorem validateVersion_namesField (value name : String) :
    NamesField (validateVersion value name) := by
  unfold validateVersion
  split
  · exact namesField_error name
  · exact namesField_ok

theorem validatePlatformComponent_namesField (value name : String) :
    NamesField (validatePlatformComponent value name) := by
  unfold validatePlatformComponent
  split
  · exact namesField_error name
  · exact namesField_ok

/-- Every check of a listed index names a field. -/
theorem validateRegistryVersions_namesField (versions : List RegistryVersion) :
    NamesField (validateRegistryVersions versions) := by
  have hplatforms : ∀ platforms, NamesField (validatePlatforms platforms) := fun platforms =>
    namesField_checkAll fun platform => namesField_bind
      (validatePlatformComponent_namesField _ _) (validatePlatformComponent_namesField _ _)
  have hversion : ∀ item, NamesField (validateRegistryVersion item) := by
    intro item
    refine namesField_bind (validateVersion_namesField _ _) ?_
    split
    · exact namesField_error _
    · exact hplatforms _
  unfold validateRegistryVersions
  split
  · exact namesField_error _
  · exact namesField_checkAll hversion

/-- Every check of a package names a field. -/
theorem validatePackage_namesField (Url : Type) [UrlCrate Url] [SemverCrate] (key : VersionKey)
    (requested : RegistryPlatform) (package : PlatformMetadata) :
    NamesField (validatePackage Url key requested package) := by
  unfold validatePackage
  split
  · exact namesField_error _
  · split
    · exact namesField_error _
    · split
      · exact namesField_error _
      · split
        · exact namesField_error _
        · split
          · exact namesField_error _
          · split
            · exact namesField_error _
            · exact namesField_ok

end Errors

end OpenTfMirror.Metadata
