import OpenTfMirror.MetadataMachine
import OpenTfMirror.PlainLibraries

/-!
# A plain metadata service

Settings and addresses for the concrete runs of the metadata service, and the
JSON texts of the few documents that occur in them.
-/

namespace OpenTfMirror.PlainMetadata

open TaskLogic FileNames FileStore Outbound Provider Metadata MetadataService IndexDiscovery
  MetadataMachine PlainLibraries

/-- A service for one registry. -/
def plainService (freshness : ℕ) : ProviderMetadataService where
  dataDir := ["data", "metadata"]
  allowedRegistries := ["registry.terraform.io"]
  freshness
  hostnames := by decide +kernel

def plainProvider : ProviderKey := ⟨"registry.terraform.io", "hashicorp", "null"⟩

section Json

/-- Text, character by character. -/
abbrev Text := List Char

def jsonString (s : String) : Text := '"' :: s.toList ++ ['"']

/-- The items between commas. -/
def jsonItems : List Text → Text
  | [] => []
  | [item] => item
  | item :: rest => item ++ ',' :: jsonItems rest

def jsonArray (items : List Text) : Text := '[' :: jsonItems items ++ [']']

def jsonObject (fields : List (String × Text)) : Text :=
  '\x7b' :: jsonItems (fields.map fun field => jsonString field.1 ++ ':' :: field.2) ++ ['\x7d']

def platformText (platform : RegistryPlatform) : Text :=
  jsonObject [("os", jsonString platform.os), ("arch", jsonString platform.arch)]

def registryVersionText (item : RegistryVersion) : Text :=
  jsonObject [("version", jsonString item.version),
    ("platforms", jsonArray (item.platforms.map platformText))]

def packageText (package : PlatformMetadata) : Text :=
  jsonObject [("os", jsonString package.os), ("arch", jsonString package.arch),
    ("filename", jsonString package.filename),
    ("shasum", package.shasum.elim "null".toList jsonString),
    ("download_url", jsonString package.downloadUrl)]

def metadataText (metadata : VersionMetadata) : Text :=
  jsonObject [("hostname", jsonString metadata.hostname),
    ("namespace", jsonString metadata.providerNamespace),
    ("provider_type", jsonString metadata.providerType), ("version", jsonString metadata.version),
    ("platforms", jsonArray (metadata.platforms.map packageText))]

def entryText {α : Type} (text : α → Text) (entry : CacheEntry α) : Text :=
  jsonObject [("fetched_at", (toString entry.fetchedAt).toList),
    ("complete", (toString entry.complete).toList), ("value", text entry.value)]

def asciiBytes (text : Text) : Bytes := text.map fun c => UInt8.ofNat c.toNat

def indexBytes (entry : IndexEntry) : Bytes :=
  asciiBytes (entryText (fun versions => jsonArray (versions.map registryVersionText)) entry)

def versionBytes (entry : VersionEntry) : Bytes := asciiBytes (entryText metadataText entry)

/-- Encode one of the samples. -/
def encodeSample {α : Type} [DecidableEq α] (samples : List α) (encode : α → Bytes) (x : α) :
    Except String Bytes :=
  if x ∈ samples then .ok (encode x) else .error "not a sample"

/-- The sample with this encoding. -/
def decodeSample {α : Type} (samples : List α) (encode : α → Bytes) (bytes : Bytes) :
    Except String α :=
  match samples.find? fun x => encode x = bytes with
  | some x => .ok x
  | none => .error "not a sample"

/-- Samples with different encodings are decoded to themselves. -/
theorem decodeSample_encodeSample {α : Type} [DecidableEq α] {samples : List α}
    {encode : α → Bytes}
    (h : ∀ x ∈ samples, samples.find? (fun y => encode y = encode x) = some x) (x : α)
    (bytes : Bytes) (hx : encodeSample samples encode x = .ok bytes) :
    decodeSample samples encode bytes = .ok x := by
  unfold encodeSample at hx
  split at hx
  · rename_i hmem
    cases hx
    unfold decodeSample
    rw [h x hmem]
  · cases hx

/-- A complete index that lists the versions for one platform. -/
def plainIndex (fetchedAt : ℕ) (versions : List String) : IndexEntry :=
  ⟨fetchedAt, true, versions.map fun version => ⟨version, [⟨"linux", "amd64"⟩]⟩⟩

def plainVersionKey (version : String) : VersionKey := ⟨plainProvider, version⟩

/-- Complete metadata of a version with these platforms. -/
def plainEntry (fetchedAt : ℕ) (version : String) (platforms : List PlatformMetadata) :
    VersionEntry :=
  ⟨fetchedAt, true, plainProvider.hostname, plainProvider.providerNamespace,
    plainProvider.providerType, version, platforms⟩

/-- The package of a version for the platform. -/
def plainPackage (version : String) : PlatformMetadata :=
  { plainMetadata with filename := "terraform-provider-null_" ++ version ++ "_linux_amd64.zip" }

def indexSamples : List IndexEntry :=
  [plainIndex 100 ["1.0.0"], plainIndex 200 ["1.0.0", "1.1.0"],
    plainIndex 300 ["1.0.0", "1.1.0", "1.2.0"]]

def versionSamples : List VersionEntry :=
  [plainEntry 100 "1.0.0" [plainMetadata], plainEntry 300 "1.1.0" [plainPackage "1.1.0"],
    plainEntry 300 "1.2.0" [plainPackage "1.2.0"], plainEntry 100 "index" []]

/-- The documents of the samples. -/
@[reducible] def plainJson : JsonCrate where
  indexToVec := encodeSample indexSamples indexBytes
  indexFromSlice := decodeSample indexSamples indexBytes
  versionToVec := encodeSample versionSamples versionBytes
  versionFromSlice := decodeSample versionSamples versionBytes
  index_roundTrip := decodeSample_encodeSample (by decide +kernel)
  version_roundTrip := decodeSample_encodeSample (by decide +kernel)

end Json

section Actions

def listPlain : Entry := .listVersions plainProvider.hostname plainProvider.providerNamespace
  plainProvider.providerType

def getPlain (version : String) : Entry := .getVersion plainProvider.hostname
  plainProvider.providerNamespace plainProvider.providerType version

/-- Everything goes well at this time, and the registry gives these answers. -/
def answers (now : ℕ) (versions : Except RegistryError (List RegistryVersion))
    (packages : List (ℕ × Except RegistryError PlatformMetadata)) : Op → Choice
  | .nowEpoch => .epoch now
  | .awaitVersions _ _ => .versions versions
  | .packages _ _ => .packages packages
  | _ => .ok

/-- The registry lists these versions and has no packages to give. -/
def listing (now : ℕ) (versions : List String) : Op → Choice :=
  answers now (.ok (plainIndex now versions).value) []

def never : Shared → Op → Bool := fun _ _ => false

def atAwaitVersions : Shared → Op → Bool
  | _, .awaitVersions _ _ => true
  | _, _ => false

def atCreateNew : Shared → Op → Bool
  | _, .file (.createNew _) => true
  | _, _ => false

def atRename : Shared → Op → Bool
  | _, .file (.rename _ _ _) => true
  | _, _ => false

end Actions

end OpenTfMirror.PlainMetadata
