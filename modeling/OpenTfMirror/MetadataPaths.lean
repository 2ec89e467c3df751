import OpenTfMirror.ArchivePaths
import OpenTfMirror.MetadataSteps

/-!
# The paths of the metadata documents

Every index and every version document of an accepted address has its own place
four plain components below the metadata directory, apart from the temporary
files; but a version that is named like the index shares the place of the index.
-/

namespace OpenTfMirror.MetadataPaths

open TextOps FileNames PathText Outbound Provider Metadata MetadataService MetadataSteps
  ArchivePaths

/-- The keys of the two kinds of documents. -/
inductive MetadataKey where
  | index (key : ProviderKey)
  | version (key : VersionKey)
  deriving DecidableEq, Repr

namespace MetadataKey

def provider : MetadataKey → ProviderKey
  | index key => key
  | version key => key.provider

/-- The last component of the document's path. -/
def fileName : MetadataKey → String
  | index _ => "index.json"
  | version key => key.version ++ ".json"

/-- `index_path` and `version_path`. -/
def path (service : ProviderMetadataService) : MetadataKey → Path
  | index key => service.indexPath key
  | version key => service.versionPath key

/-- `index_path` and `version_path`, as text. -/
def pathText (root : String) (key : MetadataKey) : String :=
  joinAll root [key.provider.hostname, key.provider.providerNamespace, key.provider.providerType,
    key.fileName]

/-- The temporary file of `write_json_atomic`, as text. -/
def tempText (root : String) (key : MetadataKey) (pid sequence : ℕ) : String :=
  joinAll root [key.provider.hostname, key.provider.providerNamespace, key.provider.providerType,
    tempName "metadata" pid sequence]

/-- The keys that `get_version` and `list_versions` build from accepted arguments. -/
structure Accepted (service : ProviderMetadataService) (key : MetadataKey) : Prop where
  provider : ∃ hostname providerNamespace providerType,
    service.providerKey hostname providerNamespace providerType = .ok key.provider
  version : ∀ versionKey, key = version versionKey → ∃ text,
    validateVersion text "version" = .ok () ∧ versionKey.version = normalizeVersion text

/-- One key is an index, the other a version of its provider with the name of the
index. -/
def SharesIndex (key key' : MetadataKey) : Prop :=
  ∃ provider, key = index provider ∧ key' = version ⟨provider, "index"⟩ ∨
    key' = index provider ∧ key = version ⟨provider, "index"⟩

end MetadataKey

section Components

theorem plain_of_metadata {value : String} (h : Metadata.validComponent value = true) :
    Plain value := by
  simp only [Metadata.validComponent, Bool.and_eq_true, decide_eq_true_eq, List.all_eq_true,
    Bool.or_eq_true] at h
  obtain ⟨⟨⟨⟨hne, -⟩, hall⟩, hcurrent⟩, hparent⟩ := h
  refine ⟨hne, hcurrent, hparent, fun c hc => ?_⟩
  rcases hall c hc with ((halnum | rfl) | rfl) | rfl
  · exact ne_of_alphanum halnum
  · decide
  · decide
  · decide

/-- A name with the ending of documents is no special component. -/
theorem json_ne (stem : String) : ∀ s ∈ ["", ".", ".."], stem ++ ".json" ≠ s := by
  intro s hs heq
  have hlen : 5 ≤ s.toList.length := by
    rw [← heq, String.toList_append, List.length_append]
    have hending : ".json".toList.length = 5 := by decide
    omega
  have hshort : ∀ s ∈ ["", ".", ".."], s.toList.length < 5 := by decide
  have hs' := hshort s hs
  omega

theorem plain_of_version {text : String} (h : validateVersion text "version" = .ok ()) :
    Plain (normalizeVersion text ++ ".json") := by
  have hne := json_ne (normalizeVersion text)
  refine ⟨hne "" (by simp), hne "." (by simp), hne ".." (by simp), fun c hc => ?_⟩
  rw [String.toList_append, List.mem_append] at hc
  rcases hc with hc | hc
  · rcases version_chars h c hc with halnum | rfl | rfl | rfl
    · exact ne_of_alphanum halnum
    · decide
    · decide
    · decide
  · have hending : ∀ c ∈ ".json".toList, c ≠ '/' ∧ c ≠ '\\' ∧ c ≠ '\x00' := by simp
    exact hending c hc

variable {service : ProviderMetadataService} {key : MetadataKey}

/-- The components of an accepted provider. -/
theorem plain_provider (h : key.Accepted service) : Plain key.provider.hostname ∧
    Plain key.provider.providerNamespace ∧ Plain key.provider.providerType := by
  obtain ⟨hostname, providerNamespace, providerType, hkey⟩ := h.provider
  obtain ⟨hhost, hns, htype, heq⟩ := providerKey_ok hkey
  rw [heq]
  exact ⟨plain_of_hostname (validHostname_of_metadata hhost), plain_of_metadata hns,
    plain_of_metadata htype⟩

theorem plain_fileName (h : key.Accepted service) : Plain key.fileName := by
  cases key with
  | index provider =>
    have hname : Plain "index.json" := ⟨by decide, by decide, by decide, by simp⟩
    exact hname
  | version versionKey =>
    obtain ⟨text, htext, hversion⟩ := h.version versionKey rfl
    have hplain : Plain (normalizeVersion text ++ ".json") := plain_of_version htext
    rw [← hversion] at hplain
    exact hplain

/-- The components below the metadata directory. -/
def documentParts (key : MetadataKey) (name : String) : List String :=
  [key.provider.hostname, key.provider.providerNamespace, key.provider.providerType, name]

theorem plain_documentParts (h : key.Accepted service) {name : String} (hname : Plain name) :
    ∀ part ∈ documentParts key name, Plain part := by
  obtain ⟨hhost, hns, htype⟩ := plain_provider h
  intro part hpart
  simp only [documentParts, List.mem_cons, List.not_mem_nil, or_false] at hpart
  rcases hpart with rfl | rfl | rfl | rfl
  · exact hhost
  · exact hns
  · exact htype
  · exact hname

theorem components_pathText (h : key.Accepted service) (root : String) :
    components (key.pathText root) = components root ++ documentParts key key.fileName :=
  components_joinAll root (plain_documentParts h (plain_fileName h))

theorem components_tempText (h : key.Accepted service) (root : String) (pid n : ℕ) :
    components (key.tempText root pid n) =
      components root ++ documentParts key (tempName "metadata" pid n) := by
  have hmetadata : Plain "metadata" := ⟨by decide, by decide, by decide, by simp⟩
  exact components_joinAll root (plain_documentParts h (plain_tempName hmetadata pid n))

/-- The components are those of the path that the service works with. -/
theorem path_parts (service : ProviderMetadataService) (key : MetadataKey) :
    key.path service = service.dataDir ++ documentParts key key.fileName := by
  cases key with
  | index provider => exact List.append_assoc ..
  | version versionKey => exact List.append_assoc ..

end Components

section Collisions

variable {service : ProviderMetadataService}

/-- Two keys have one path when they are equal, or one is the index and the other
the version named like it. -/
theorem path_eq_iff (service : ProviderMetadataService) (key key' : MetadataKey) :
    key.path service = key'.path service ↔ key = key' ∨ key.SharesIndex key' := by
  constructor
  · intro h
    cases key with
    | index provider =>
      cases key' with
      | index provider' => exact .inl (congrArg _ (indexPath_inj h))
      | version versionKey =>
        obtain ⟨hversion, hprovider⟩ := indexed_of_path (Eq.symm h)
        refine .inr ⟨provider, .inl ⟨rfl, ?_⟩⟩
        rw [← hversion, ← hprovider]
    | version versionKey =>
      cases key' with
      | index provider =>
        obtain ⟨hversion, hprovider⟩ := indexed_of_path h
        refine .inr ⟨provider, .inr ⟨rfl, ?_⟩⟩
        rw [← hversion, ← hprovider]
      | version versionKey' => exact .inl (congrArg _ (versionPath_inj h))
  · rintro (rfl | ⟨provider, ⟨rfl, rfl⟩ | ⟨rfl, rfl⟩⟩)
    · rfl
    · rfl
    · rfl

/-- The document of an accepted key lies four plain components below the metadata
directory, at no temporary path. Another accepted key has the same path just when
one of the two is an index and the other the version of its provider that is
named like it. -/
theorem metadata_paths_apart (service : ProviderMetadataService) (root : String)
    (hroot : service.dataDir = components root) (key : MetadataKey) (hkey : key.Accepted service) :
    (∃ parts : Path, parts.length = 4 ∧ (∀ part ∈ parts, Plain part) ∧
      components (key.pathText root) = components root ++ parts) ∧
    components (key.pathText root) = key.path service ∧
    (∀ key' pid n, MetadataKey.Accepted service key' →
      components (key'.tempText root pid n) =
          (key'.path service).dropLast ++ [tempName "metadata" pid n] ∧
        components (key'.tempText root pid n) ≠ components (key.pathText root)) ∧
    ∀ key', MetadataKey.Accepted service key' → key' ≠ key →
      (components (key'.pathText root) ≠ components (key.pathText root) ↔
        ¬ MetadataKey.SharesIndex key' key) := by
  have hpath : ∀ key : MetadataKey, key.Accepted service →
      components (key.pathText root) = key.path service := by
    intro key hkey
    rw [components_pathText hkey, path_parts, hroot]
  refine ⟨⟨documentParts key key.fileName, rfl, plain_documentParts hkey (plain_fileName hkey),
    components_pathText hkey root⟩, hpath key hkey, ?_, ?_⟩
  · intro key' pid n hkey'
    have htemp : components (key'.tempText root pid n) =
        (key'.path service).dropLast ++ [tempName "metadata" pid n] := by
      rw [components_tempText hkey', path_parts, hroot, List.dropLast_append_of_ne_nil (by
        unfold documentParts; simp), List.append_assoc]
      rfl
    refine ⟨htemp, fun heq => ?_⟩
    rw [htemp, hpath key hkey] at heq
    have htemporary : Temporary (key.path service) := ⟨_, _, _, _, heq.symm⟩
    cases key with
    | index provider => exact indexPath_not_temporary service provider htemporary
    | version versionKey => exact versionPath_not_temporary service versionKey htemporary
  · intro key' hkey' hne
    rw [hpath key hkey, hpath key' hkey', ne_eq, path_eq_iff]
    simp [hne]

/-- The index and a version of one provider below `data/metadata`. -/
theorem metadata_paths_apart_plain :
    components ((MetadataKey.version ⟨PlainMetadata.plainProvider, "1.0.0"⟩).pathText
        "data/metadata") ≠
      components ((MetadataKey.index PlainMetadata.plainProvider).pathText "data/metadata") := by
  have hprovider : ∃ hostname providerNamespace providerType,
      (PlainMetadata.plainService 0).providerKey hostname providerNamespace providerType =
        .ok PlainMetadata.plainProvider :=
    ⟨"registry.terraform.io", "hashicorp", "null", by decide +kernel⟩
  have hindex : MetadataKey.Accepted (PlainMetadata.plainService 0)
      (.index PlainMetadata.plainProvider) := ⟨hprovider, nofun⟩
  have hversion : MetadataKey.Accepted (PlainMetadata.plainService 0)
      (.version ⟨PlainMetadata.plainProvider, "1.0.0"⟩) := by
    refine ⟨hprovider, fun versionKey heq => ⟨"v1.0.0", by decide +kernel, ?_⟩⟩
    rw [← MetadataKey.version.inj heq]
    decide +kernel
  have h := metadata_paths_apart (PlainMetadata.plainService 0) "data/metadata" (by decide +kernel)
    (.index PlainMetadata.plainProvider) hindex
  refine (h.2.2.2 _ hversion nofun).mpr ?_
  rintro ⟨provider, ⟨h, -⟩ | ⟨-, h⟩⟩
  · cases h
  · have hname : "1.0.0" = "index" := congrArg VersionKey.version (MetadataKey.version.inj h)
    exact absurd hname (by decide)

/-- The version `index` is accepted, and its document is the index. -/
theorem index_version_collides :
    validateVersion "index" "version" = .ok () ∧
    (PlainMetadata.plainService 0).providerKey "registry.terraform.io" "hashicorp" "null" =
      .ok PlainMetadata.plainProvider ∧
    (MetadataKey.version ⟨PlainMetadata.plainProvider, normalizeVersion "index"⟩).pathText
        "data/metadata" =
      (MetadataKey.index PlainMetadata.plainProvider).pathText "data/metadata" :=
  ⟨by decide +kernel, by decide +kernel, by decide +kernel⟩

end Collisions

end OpenTfMirror.MetadataPaths
