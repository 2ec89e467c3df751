import OpenTfMirror.HttpApi
import OpenTfMirror.MetadataRestart
import Mathlib.Data.List.Induction

/-!
# Advertised checksums

The version route announces one checksum for each operating system and
architecture; the archive route takes the checksum that the store verifies from
the first platform with the announced file name. The two agree just when the
checksums of these two platforms do, in lower case.
-/

namespace OpenTfMirror.AdvertisedHashes

open TaskProgram TaskLogic TextOps Outbound Provider Metadata MetadataService MetadataMachine
open MetadataInvariant MetadataTasks MetadataRuns HttpApi

section Platforms

/-- No later platform is announced under the same key. -/
def ListedLast (platforms : List PlatformMetadata) (platform : PlatformMetadata) : Prop :=
  ∃ before after, platforms = before ++ platform :: after ∧
    ∀ other ∈ after, ¬(other.os = platform.os ∧ other.arch = platform.arch)

/-- No earlier platform has the same file name. -/
def ListedFirst (platforms : List PlatformMetadata) (platform : PlatformMetadata) : Prop :=
  ∃ before after, platforms = before ++ platform :: after ∧
    ∀ other ∈ before, other.filename ≠ platform.filename

/-- The last platform of an operating system and architecture has the checksum
of the first one with its file name, written in lower case. -/
def ChecksumsAgree (platforms : List PlatformMetadata) : Prop :=
  ∀ last first, ListedLast platforms last → ListedFirst platforms first →
    first.filename = last.filename → last.shasum = first.shasum.map toAsciiLowercase

/-- The announcement of a key is that of the last platform with it. -/
theorem announcements_lookup (platforms : List PlatformMetadata) (k : String) :
    (announcements platforms).lookup k =
      (platforms.reverse.find? fun platform => (announce platform).1 = k).map
        fun platform => (announce platform).2 := by
  unfold announcements
  induction platforms using List.reverseRecOn with
  | nil => rfl
  | append_singleton platforms platform ih =>
    rw [List.foldl_append, List.foldl_cons, List.foldl_nil, List.reverse_append,
      List.reverse_singleton, List.singleton_append]
    by_cases hk : (announce platform).1 = k
    · rw [List.find?_cons_of_pos (by simpa using hk), ← hk, AList.lookup_insert]
      rfl
    · rw [List.find?_cons_of_neg (by simpa using hk), AList.lookup_insert_ne (Ne.symm hk), ih]

/-- The platform found from the end is listed last. -/
theorem listedLast_of_find {platforms : List PlatformMetadata} {k : String}
    {last : PlatformMetadata}
    (h : (platforms.reverse.find? fun platform => (announce platform).1 = k) = some last) :
    ListedLast platforms last ∧ last ∈ platforms ∧ (announce last).1 = k := by
  obtain ⟨hkey, later, earlier, hsplit, hlater⟩ := List.find?_eq_some_iff_append.mp h
  have hkey' : (announce last).1 = k := by simpa using hkey
  have hplatforms : platforms = earlier.reverse ++ last :: later.reverse := by
    have hreverse := congrArg List.reverse hsplit
    simpa using hreverse
  refine ⟨⟨_, _, hplatforms, fun other hother heq => ?_⟩, ?_, hkey'⟩
  · have hne := hlater other (List.mem_reverse.mp hother)
    rw [← hkey'] at hne
    simp [announce, heq.1, heq.2] at hne
  · rw [hplatforms]
    exact List.mem_append_right _ List.mem_cons_self

/-- The platform found by its file name is listed first. -/
theorem listedFirst_of_find {platforms : List PlatformMetadata} {filename : String}
    {first : PlatformMetadata}
    (h : platforms.find? (fun platform => platform.filename = filename) = some first) :
    ListedFirst platforms first ∧ first ∈ platforms ∧ first.filename = filename := by
  obtain ⟨hname, earlier, later, hsplit, hearlier⟩ := List.find?_eq_some_iff_append.mp h
  have hname' : first.filename = filename := by simpa using hname
  refine ⟨⟨earlier, later, hsplit, fun other hother heq => ?_⟩, ?_, hname'⟩
  · have hne := hearlier other hother
    simp [heq, hname'] at hne
  · rw [hsplit]
    exact List.mem_append_right _ List.mem_cons_self

/-- The first platform with its file name is found by it. -/
theorem find_of_listedFirst {platforms : List PlatformMetadata} {first : PlatformMetadata}
    (h : ListedFirst platforms first) :
    platforms.find? (fun platform => platform.filename = first.filename) = some first := by
  obtain ⟨earlier, later, hsplit, hearlier⟩ := h
  refine List.find?_eq_some_iff_append.mpr ⟨by simp, earlier, later, hsplit, fun other hother => ?_⟩
  simpa using hearlier other hother

end Platforms

section Accepted

variable {U : Type} [UrlCrate U] [SemverCrate] {key : VersionKey} {metadata : VersionMetadata}

/-- The separator occurs in neither part of an accepted platform's key. -/
theorem no_separator (h : AcceptedVersion U key metadata) {platform : PlatformMetadata}
    (hplatform : platform ∈ metadata.platforms) :
    '_' ∉ platform.os.toList ∧ '_' ∉ platform.arch.toList := by
  obtain ⟨⟨name, hname, -, hos, harch⟩, -⟩ := ArchivePaths.package_ok U (h.packages _ hplatform)
  have hos' : name.os = platform.os := hos
  have harch' : name.arch = platform.arch := harch
  have hwell := (parse_wellformed hname).1
  rw [← hos', ← harch']
  constructor
  · intro hmem
    exact absurd (hwell.os '_' hmem) (by decide)
  · intro hmem
    exact absurd (hwell.arch '_' hmem) (by decide)

/-- Accepted platforms announced under one key agree in both parts of it. -/
theorem announce_inj (h : AcceptedVersion U key metadata) {platform other : PlatformMetadata}
    (hother : other ∈ metadata.platforms) (hkey : (announce other).1 = (announce platform).1) :
    other.os = platform.os ∧ other.arch = platform.arch := by
  have hlist := congrArg String.toList hkey
  have hsep : "_".toList = ['_'] := rfl
  simp only [announce, String.toList_append, hsep, List.append_assoc, List.singleton_append]
    at hlist
  obtain ⟨hos, harch⟩ := no_separator h hother
  have hparts := (List.append_cons_inj_of_notMem hos harch).mp hlist
  exact ⟨String.toList_inj.mp hparts.1, String.toList_inj.mp hparts.2.2⟩

/-- The last platform with its key is the one whose announcement stays. -/
theorem announced_of_listedLast (h : AcceptedVersion U key metadata) {last : PlatformMetadata}
    (hlast : ListedLast metadata.platforms last) :
    last ∈ metadata.platforms ∧
      (announcements metadata.platforms).lookup (announce last).1 = some (announce last).2 := by
  obtain ⟨before, after, hsplit, hafter⟩ := hlast
  have hmem : last ∈ metadata.platforms := by
    rw [hsplit]
    exact List.mem_append_right _ List.mem_cons_self
  refine ⟨hmem, ?_⟩
  have hfind : (metadata.platforms.reverse.find? fun platform =>
      (announce platform).1 = (announce last).1) = some last := by
    refine List.find?_eq_some_iff_append.mpr
      ⟨by simp, after.reverse, before.reverse, by rw [hsplit]; simp, fun other hother => ?_⟩
    have hother' : other ∈ after := List.mem_reverse.mp hother
    have hotherMem : other ∈ metadata.platforms := by
      rw [hsplit]
      exact List.mem_append_right _ (List.mem_cons_of_mem _ hother')
    have hne : (announce other).1 ≠ (announce last).1 := fun hkey =>
      hafter other hother' (announce_inj h hotherMem hkey)
    simpa using hne
  rw [announcements_lookup, hfind]
  rfl

/-- The store compares with the lower-case checksum of an accepted platform. -/
theorem expectedChecksum_of_accepted (h : AcceptedVersion U key metadata)
    {platform : PlatformMetadata} (hplatform : platform ∈ metadata.platforms) :
    ∃ checksum, platform.shasum = some checksum ∧
      Storage.expectedChecksum platform = .ok (toAsciiLowercase checksum) := by
  obtain ⟨-, checksum, hshasum, hchecksum⟩ := ArchivePaths.package_ok U (h.packages _ hplatform)
  refine ⟨checksum, hshasum, ?_⟩
  unfold Storage.expectedChecksum
  rw [hshasum]
  simp only [hchecksum, if_true]

end Accepted

section Routes

variable (U : Type) [UrlCrate U] [SemverCrate] [JsonCrate] (service : ProviderMetadataService)

/-- The version route answers for the key with its loaded entry, and the archive
route looks this file name up in it. -/
structure RoutesTo (key : VersionKey) (filename : String) : Prop where
  version : getProviderMetadata U service key.provider.hostname key.provider.providerNamespace
      key.provider.providerType (key.version ++ ".json") = (do
    let entry ← (lookupEntry U service key).run
    return versionResponse (entry.map fun entry => entry.map CacheEntry.value))
  archive : resolveArchive U service key.provider.hostname key.provider.providerNamespace
      key.provider.providerType filename = (do
    let entry ← (lookupEntry U service key).run
    return archiveResponse filename entry)

/-- The file name that is announced for the platform leads back to a platform of
the entry, and the announced checksum is the one that the store compares with. -/
def Advertised (key : VersionKey) (entry : VersionEntry) (platform : PlatformMetadata) : Prop :=
  ∃ archives response filename resolved expected,
    versionResponse (.ok (some entry.value)) = .archives archives ∧
    archives.lookup (platform.os ++ "_" ++ platform.arch) = some response ∧
    response.url = "download/" ++ filename ∧ RoutesTo U service key filename ∧
    archiveResponse filename (.ok (some entry)) = .ok resolved ∧
    Storage.expectedChecksum resolved = .ok expected ∧ response.hashes = ["zh:" ++ expected]

variable {U service} {R : Rules} {key : VersionKey} {entry : VersionEntry}

omit [SemverCrate] [JsonCrate] in
/-- An accepted version looked up under its own name. -/
theorem lookupKey_of_admissible (hkey : AdmissibleVersion service R key)
    (hhead : key.version.toList.head? ≠ some 'v') :
    lookupKey service key.provider.hostname key.provider.providerNamespace
      key.provider.providerType key.version = .ok key := by
  have hversion : validateVersion key.version "version" = .ok () := by
    unfold validateVersion
    rw [normalizeVersion_eq_self hhead, if_neg (by simp [hkey.version])]
  have hprovider : service.providerKey key.provider.hostname key.provider.providerNamespace
      key.provider.providerType = .ok key.provider := hkey.provider
  unfold lookupKey
  rw [hversion, hprovider, normalizeVersion_eq_self hhead]
  rfl

/-- Both routes reach the entry of a version with accepted platforms. -/
theorem routesTo_of_accepted (hgrammar : SemverGrammar) (hkey : AdmissibleVersion service R key)
    (haccepted : AcceptedVersion U key entry.value) {platform : PlatformMetadata}
    (hplatform : platform ∈ entry.value.platforms) : RoutesTo U service key platform.filename := by
  obtain ⟨⟨name, hname, hversion, -⟩, -⟩ :=
    ArchivePaths.package_ok U (haccepted.packages _ hplatform)
  obtain ⟨⟨c, rest, hstart, hdigit⟩, hchars⟩ :=
    hgrammar name.version (parse_wellformed hname).1.version
  rw [hversion] at hstart hchars
  have hhead : key.version.toList.head? ≠ some 'v' := by
    rw [hstart]
    intro hv
    cases hv
    exact absurd hdigit (by decide)
  have hindex : key.version ≠ "index" := by
    intro heq
    rw [heq] at hstart
    cases hstart
    exact absurd hdigit (by decide)
  have hlookup := lookupKey_of_admissible hkey hhead
  refine ⟨getProviderMetadata_lookup U ?_ hlookup, resolveArchive_lookup U hname ?_⟩
  · rw [routeAction_json fun c hc => not_whitespace (hchars c hc), trimStart_eq_self hhead,
      if_neg hindex]
  · rw [hversion]
    exact hlookup

omit [UrlCrate U] [SemverCrate] [JsonCrate] in
/-- The archive route answers with the first platform of that name. -/
theorem archiveResponse_of_listedFirst {first : PlatformMetadata}
    (h : ListedFirst entry.value.platforms first) :
    archiveResponse first.filename (.ok (some entry)) = .ok first := by
  have hfind : platformByFilename entry.value first.filename = some first := find_of_listedFirst h
  simp [archiveResponse, hfind]

/-- A checksum that is announced as verified is the lower-case one. -/
theorem agree_of_advertised (haccepted : AcceptedVersion U key entry.value)
    (hadvertised : ∀ platform ∈ entry.value.platforms, Advertised U service key entry platform) :
    ChecksumsAgree entry.value.platforms := by
  intro last first hlast hfirst hname
  obtain ⟨hmem, hannounced⟩ := announced_of_listedLast haccepted hlast
  obtain ⟨archives, response, filename, resolved, expected, harchives, hresponse, hurl, -,
    hresolved, hexpected, hhashes⟩ := hadvertised last hmem
  cases harchives
  cases hresponse.symm.trans hannounced
  have hfilename : last.filename = filename := (String.append_right_inj _).mp hurl
  rw [← hfilename, ← hname, archiveResponse_of_listedFirst hfirst] at hresolved
  cases hresolved
  have hfirstMem : first ∈ entry.value.platforms := by
    obtain ⟨before, after, hsplit, -⟩ := hfirst
    rw [hsplit]
    exact List.mem_append_right _ List.mem_cons_self
  obtain ⟨checksum, hshasum, hcompared⟩ := expectedChecksum_of_accepted haccepted hfirstMem
  cases hcompared.symm.trans hexpected
  obtain ⟨announced, hlastShasum, -⟩ := expectedChecksum_of_accepted haccepted hmem
  simp only [announce, hlastShasum, Option.map_some, Option.toList_some, List.cons.injEq,
    String.append_right_inj, and_true] at hhashes
  rw [hlastShasum, hshasum, hhashes]
  rfl

/-- Checksums that agree are announced as verified. -/
theorem advertised_of_agree (hgrammar : SemverGrammar) (hkey : AdmissibleVersion service R key)
    (haccepted : AcceptedVersion U key entry.value)
    (hagree : ChecksumsAgree entry.value.platforms) :
    ∀ platform ∈ entry.value.platforms, Advertised U service key entry platform := by
  intro platform hplatform
  have hannounced := announcements_lookup entry.value.platforms (announce platform).1
  cases hlast : entry.value.platforms.reverse.find? fun other =>
      (announce other).1 = (announce platform).1 with
  | none =>
    have hnone := List.find?_eq_none.mp hlast platform (List.mem_reverse.mpr hplatform)
    simp at hnone
  | some last =>
    obtain ⟨hlistedLast, hlastMem, hlastKey⟩ := listedLast_of_find hlast
    cases hfirst : entry.value.platforms.find? fun other => other.filename = last.filename with
    | none =>
      have hnone := List.find?_eq_none.mp hfirst last hlastMem
      simp at hnone
    | some first =>
      obtain ⟨hlistedFirst, hfirstMem, hname⟩ := listedFirst_of_find hfirst
      obtain ⟨checksum, hshasum, hcompared⟩ := expectedChecksum_of_accepted haccepted hfirstMem
      have hlastShasum := hagree last first hlistedLast hlistedFirst hname
      rw [hshasum, Option.map_some] at hlastShasum
      rw [hlast, Option.map_some] at hannounced
      refine ⟨_, _, last.filename, first, _, rfl, hannounced, rfl,
        routesTo_of_accepted hgrammar hkey haccepted hlastMem, ?_, hcompared, ?_⟩
      · rw [← hname]
        exact archiveResponse_of_listedFirst hlistedFirst
      · simp only [announce, hlastShasum, Option.map_some, Option.toList_some]

/-- Every platform of every cached entry is advertised with the checksum that is
verified just when the checksums of the entry agree. -/
theorem advertised_is_verified (hgrammar : SemverGrammar) {files : IndexDiscovery.Files} {pid : ℕ} {s : Shared}
    (h : boot service files pid = .ok s) {c : Config Op Res Out Shared}
    (hrun : (machine U service).Run .free (Started s) c)
    (hentry : c.shared.versions.lookup key = some entry) :
    (∀ platform ∈ entry.value.platforms, Advertised U service key entry platform) ↔
      ChecksumsAgree entry.value.platforms := by
  have hinv : Inv U service Rules.none c.shared := reachable_inv h (run_of_free hrun)
  obtain ⟨hkey, haccepted, -⟩ := hinv.caches.versions key entry hentry
  exact ⟨agree_of_advertised haccepted, advertised_of_agree hgrammar hkey haccepted⟩

end Routes

section Plain

open PlainLibraries PlainMetadata

/-- Lower-case checksums agree when each file name has one. -/
theorem agree_of_lowercase {platforms : List PlatformMetadata}
    (hlower : ∀ platform ∈ platforms,
      platform.shasum.map toAsciiLowercase = platform.shasum)
    (hunique : ∀ platform ∈ platforms, ∀ other ∈ platforms,
      platform.filename = other.filename → platform.shasum = other.shasum) :
    ChecksumsAgree platforms := by
  intro last first hlast hfirst hname
  obtain ⟨before, after, hsplit, -⟩ := hlast
  obtain ⟨before', after', hsplit', -⟩ := hfirst
  have hlastMem : last ∈ platforms := by
    rw [hsplit]
    exact List.mem_append_right _ List.mem_cons_self
  have hfirstMem : first ∈ platforms := by
    rw [hsplit']
    exact List.mem_append_right _ List.mem_cons_self
  rw [hlower first hfirstMem]
  exact hunique last hlastMem first hfirstMem hname.symm

/-- The plain package is advertised with the checksum that is verified. -/
theorem advertised_is_verified_plain :
    letI := plainJson
    letI := plainSemver
    Advertised PlainUrl (plainService 0) (plainVersionKey "1.0.0")
      (plainEntry 100 "1.0.0" [plainMetadata]) plainMetadata := by
  let _ := plainJson
  let _ := plainSemver
  let M := machine PlainUrl (plainService 0)
  let c₁ := M.act (Started (bootWith ∅ ∅ 7)) (.start 0 (getPlain "1.0.0"))
  let c₂ := M.follow 0 (answers 100 (.ok (plainIndex 100 ["1.0.0"]).value)
    [(0, .ok plainMetadata)]) never 200 c₁
  have hrun : M.Run .free (Started (bootWith ∅ ∅ 7)) c₂ :=
    have hstart : M.Run .free (Started (bootWith ∅ ∅ 7)) c₁ := run_act M .free trivial
    hstart.trans (run_follow M .free never (fun _ _ _ => trivial) 200 c₁)
  have hentry : c₂.shared.versions.lookup (plainVersionKey "1.0.0") =
      some (plainEntry 100 "1.0.0" [plainMetadata]) := by
    decide +kernel
  have hboot : boot (plainService 0) ∅ 7 = .ok (bootWith ∅ ∅ 7) := rfl
  have hiff := advertised_is_verified plainSemver_grammar hboot hrun hentry
  exact hiff.mpr (agree_of_lowercase (by decide +kernel) (by decide)) plainMetadata (by decide)

/-- The plain package with its checksum in upper-case digits. -/
def upperMetadata : PlatformMetadata :=
  { plainMetadata with
    shasum := some "BA7816BF8F01CFEA414140DE5DAE2223B00361A396177A9CB410FF61F20015AD" }

theorem indexSamples_roundTrip (entry : IndexEntry) (bytes : FileStore.Bytes)
    (h : encodeSample indexSamples indexBytes entry = .ok bytes) :
    decodeSample indexSamples indexBytes bytes = .ok entry :=
  decodeSample_encodeSample (by decide +kernel) entry bytes h

theorem upperSamples_roundTrip (entry : VersionEntry) (bytes : FileStore.Bytes)
    (h : encodeSample [plainEntry 100 "1.0.0" [upperMetadata]] versionBytes entry = .ok bytes) :
    decodeSample [plainEntry 100 "1.0.0" [upperMetadata]] versionBytes bytes = .ok entry :=
  decodeSample_encodeSample (by decide +kernel) entry bytes h

/-- The documents of the plain index and of this package. -/
@[reducible] def upperJson : JsonCrate where
  indexToVec := encodeSample indexSamples indexBytes
  indexFromSlice := decodeSample indexSamples indexBytes
  versionToVec := encodeSample [plainEntry 100 "1.0.0" [upperMetadata]] versionBytes
  versionFromSlice := decodeSample [plainEntry 100 "1.0.0" [upperMetadata]] versionBytes
  index_roundTrip := indexSamples_roundTrip
  version_roundTrip := upperSamples_roundTrip

/-- The upper-case checksum is accepted, cached and announced as it stands, and
the store compares with another text. -/
theorem upper_case_unverified :
    letI := upperJson
    letI := plainSemver
    ∃ c, (machine PlainUrl (plainService 0)).Run .free (Started (bootWith ∅ ∅ 7)) c ∧
      c.shared.versions.lookup (plainVersionKey "1.0.0") =
        some (plainEntry 100 "1.0.0" [upperMetadata]) ∧
      ¬ Advertised PlainUrl (plainService 0) (plainVersionKey "1.0.0")
        (plainEntry 100 "1.0.0" [upperMetadata]) upperMetadata := by
  let _ := upperJson
  let _ := plainSemver
  let M := machine PlainUrl (plainService 0)
  let c₁ := M.act (Started (bootWith ∅ ∅ 7)) (.start 0 (getPlain "1.0.0"))
  let c₂ := M.follow 0 (answers 100 (.ok (plainIndex 100 ["1.0.0"]).value)
    [(0, .ok upperMetadata)]) never 200 c₁
  have hrun : M.Run .free (Started (bootWith ∅ ∅ 7)) c₂ :=
    have hstart : M.Run .free (Started (bootWith ∅ ∅ 7)) c₁ := run_act M .free trivial
    hstart.trans (run_follow M .free never (fun _ _ _ => trivial) 200 c₁)
  have hentry : c₂.shared.versions.lookup (plainVersionKey "1.0.0") =
      some (plainEntry 100 "1.0.0" [upperMetadata]) := by
    decide +kernel
  have hboot : boot (plainService 0) ∅ 7 = .ok (bootWith ∅ ∅ 7) := rfl
  have hinv : Inv PlainUrl (plainService 0) Rules.none c₂.shared :=
    reachable_inv hboot (run_of_free hrun)
  obtain ⟨-, haccepted, -⟩ := hinv.caches.versions _ _ hentry
  refine ⟨c₂, hrun, hentry, fun hadvertised => ?_⟩
  have hall : ∀ platform ∈ [upperMetadata], Advertised PlainUrl (plainService 0)
      (plainVersionKey "1.0.0") (plainEntry 100 "1.0.0" [upperMetadata]) platform := by
    intro platform hplatform
    rw [List.mem_singleton.mp hplatform]
    exact hadvertised
  have hagree := agree_of_advertised haccepted hall
  have hsame := hagree upperMetadata upperMetadata ⟨[], [], rfl, nofun⟩ ⟨[], [], rfl, nofun⟩ rfl
  exact absurd hsame (by decide +kernel)

end Plain

end OpenTfMirror.AdvertisedHashes
