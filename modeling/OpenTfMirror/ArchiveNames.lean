import OpenTfMirror.ArchivePaths

/-!
# The grammar of archive names

Four renderings of a type, a version and a platform are parsed back to them, and
nothing but a rendering is accepted; but the two platform fields may be empty.
The names that a registry gives by the standard scheme are accepted for those
listed platforms and versions that fit into the fields.
-/

namespace OpenTfMirror.ArchiveNames

open TextOps Outbound Provider Metadata MetadataService ArchivePaths

section Renderings

/-- The name with underscores. -/
def underscoreName (providerType version os arch : String) : String :=
  "terraform-provider-" ++ providerType ++ "_" ++ version ++ "_" ++ os ++ "_" ++ arch ++ ".zip"

/-- The name with dashes. -/
def dashName (providerType version os arch : String) : String :=
  "terraform-provider-" ++ providerType ++ "-" ++ version ++ "-" ++ os ++ "-" ++ arch ++ "-bin.zip"

/-- Both names, with and without a `v` before the version. -/
def renderings (providerType version os arch : String) : List String :=
  [underscoreName providerType version os arch, underscoreName providerType ("v" ++ version) os arch,
    dashName providerType version os arch, dashName providerType ("v" ++ version) os arch]

variable [SemverCrate] {providerType version os arch archive : String}

/-- The platform fields: letters, and letters and digits. -/
structure PlatformWords (os arch : String) : Prop where
  os : ∀ c ∈ os.toList, isAsciiLowercase c = true
  arch : ∀ c ∈ arch.toList, isAsciiLowercase c = true ∨ c.isDigit = true

omit [SemverCrate] in
theorem no_separator (h : PlatformWords os arch) {sep : Char} (hsep : sep = '_' ∨ sep = '-') :
    sep ∉ os.toList ∧ sep ∉ arch.toList := by
  constructor
  · intro hmem
    have hword := h.os sep hmem
    rcases hsep with rfl | rfl
    · exact absurd hword (by decide)
    · exact absurd hword (by decide)
  · intro hmem
    have hword := h.arch sep hmem
    rcases hsep with rfl | rfl
    · exact absurd hword (by decide)
    · exact absurd hword (by decide)

/-- A version text that parses without its `v` is taken so. -/
theorem fromParts_ok {text : String} (hversion : SemverCrate.valid (normalizeVersion text) = true)
    (h : PlatformWords os arch) :
    ArchiveName.fromParts providerType text os arch =
      .ok ⟨providerType, normalizeVersion text, os, arch⟩ := by
  have hos : os.toList.all isAsciiLowercase = true := List.all_eq_true.mpr h.os
  have harch : (arch.toList.all fun c => isAsciiLowercase c || c.isDigit) = true := by
    rw [List.all_eq_true]
    intro c hc
    simpa using h.arch c hc
  unfold ArchiveName.fromParts
  rw [if_neg (by simp [hos, harch])]
  exact if_pos hversion

omit [SemverCrate] in
/-- A text does not start with a letter other than its first. -/
theorem stripPrefix_eq_none {pre s : String} {c d : Char} {rest : List Char}
    (hpre : pre.toList = [c]) (hs : s.toList = d :: rest) (hne : c ≠ d) : stripPrefix pre s = none := by
  unfold stripPrefix
  rw [hpre, hs, if_neg]
  simp [hne]

/-- The fields of a name with underscores. -/
theorem parse_underscore {text : String}
    (hversion : SemverCrate.valid (normalizeVersion text) = true) (h : PlatformWords os arch) :
    ArchiveName.parse providerType (underscoreName providerType text os arch) =
      .ok ⟨providerType, normalizeVersion text, os, arch⟩ := by
  have hname : underscoreName providerType text os arch = "terraform-provider-" ++ providerType ++
      ("_" ++ (text ++ "_" ++ os ++ "_" ++ arch) ++ ".zip") := by
    unfold underscoreName
    simp only [String.append_assoc]
  have hfields : rsplitn3 '_' (text ++ "_" ++ os ++ "_" ++ arch) = [arch, os, text] := by
    have hsep : String.singleton '_' = "_" := by decide
    exact rsplitn3_eq_three.mpr ⟨by rw [hsep], no_separator h (.inl rfl)⟩
  unfold ArchiveName.parse
  rw [stripPrefix_eq_some.mpr hname]
  dsimp only
  rw [stripSuffix_eq_some.mpr rfl]
  dsimp only
  rw [stripPrefix_eq_some.mpr rfl]
  dsimp only
  rw [hfields]
  exact fromParts_ok hversion h

/-- The fields of a name with dashes. -/
theorem parse_dash {text : String}
    (hversion : SemverCrate.valid (normalizeVersion text) = true) (h : PlatformWords os arch) :
    ArchiveName.parse providerType (dashName providerType text os arch) =
      .ok ⟨providerType, normalizeVersion text, os, arch⟩ := by
  have hending : "-bin.zip" = "-bin" ++ ".zip" := by decide
  have hname : dashName providerType text os arch = "terraform-provider-" ++ providerType ++
      ("-" ++ ((text ++ "-" ++ os ++ "-" ++ arch) ++ "-bin") ++ ".zip") := by
    unfold dashName
    rw [hending]
    simp only [String.append_assoc]
  have hfields : rsplitn3 '-' (text ++ "-" ++ os ++ "-" ++ arch) = [arch, os, text] := by
    have hsep : String.singleton '-' = "-" := by decide
    exact rsplitn3_eq_three.mpr ⟨by rw [hsep], no_separator h (.inr rfl)⟩
  have hnot : stripPrefix "_" ("-" ++ ((text ++ "-" ++ os ++ "-" ++ arch) ++ "-bin")) = none := by
    refine stripPrefix_eq_none rfl (String.toList_append ..) ?_
    decide
  unfold ArchiveName.parse
  rw [stripPrefix_eq_some.mpr hname]
  dsimp only
  rw [stripSuffix_eq_some.mpr rfl]
  dsimp only
  rw [hnot]
  dsimp only
  rw [stripPrefix_eq_some.mpr rfl]
  dsimp only
  rw [stripSuffix_eq_some.mpr rfl]
  dsimp only
  rw [hfields]
  exact fromParts_ok hversion h

omit [SemverCrate] in
theorem normalizeVersion_v (version : String) : normalizeVersion ("v" ++ version) = version := by
  unfold normalizeVersion
  rw [stripPrefix_eq_some.mpr rfl]
  rfl

/-- What parses as a version starts with a digit, so it has no `v` to take off. -/
theorem normalizeVersion_of_valid (hgrammar : SemverGrammar)
    (hversion : SemverCrate.valid version = true) : normalizeVersion version = version := by
  obtain ⟨⟨c, rest, hstart, hdigit⟩, -⟩ := hgrammar version hversion
  have hne : 'v' ≠ c := by
    intro heq
    rw [← heq] at hdigit
    exact absurd hdigit (by decide)
  unfold normalizeVersion
  rw [stripPrefix_eq_none rfl hstart hne]
  rfl

/-- Every rendering is parsed back. -/
theorem names_round_trip (hgrammar : SemverGrammar) (providerType version os arch : String)
    (hversion : SemverCrate.valid version = true) (h : PlatformWords os arch) :
    ∀ name ∈ renderings providerType version os arch,
      ArchiveName.parse providerType name = .ok ⟨providerType, version, os, arch⟩ := by
  have hplain : normalizeVersion version = version := normalizeVersion_of_valid hgrammar hversion
  have hletter : normalizeVersion ("v" ++ version) = version := normalizeVersion_v version
  have hboth : ∀ text, normalizeVersion text = version →
      ArchiveName.parse providerType (underscoreName providerType text os arch) =
          .ok ⟨providerType, version, os, arch⟩ ∧
        ArchiveName.parse providerType (dashName providerType text os arch) =
          .ok ⟨providerType, version, os, arch⟩ := by
    intro text htext
    subst htext
    exact ⟨parse_underscore hversion h, parse_dash hversion h⟩
  intro name hname
  simp only [renderings, List.mem_cons, List.not_mem_nil, or_false] at hname
  rcases hname with rfl | rfl | rfl | rfl
  · exact (hboth version hplain).1
  · exact (hboth ("v" ++ version) hletter).1
  · exact (hboth version hplain).2
  · exact (hboth ("v" ++ version) hletter).2

omit [SemverCrate] in
/-- A name of a type with a dash in it. -/
theorem names_round_trip_dashed :
    @ArchiveName.parse PlainLibraries.plainSemver "google-beta"
      "terraform-provider-google-beta-6.2.0-linux-arm64-bin.zip" =
        .ok ⟨"google-beta", "6.2.0", "linux", "arm64"⟩ :=
  @names_round_trip PlainLibraries.plainSemver PlainLibraries.plainSemver_grammar "google-beta"
    "6.2.0" "linux" "arm64" (by decide +kernel) ⟨by simp [isAsciiLowercase], by simp [isAsciiLowercase]⟩
    "terraform-provider-google-beta-6.2.0-linux-arm64-bin.zip" (by decide +kernel)

end Renderings

section Soundness

variable [SemverCrate] {providerType archive : String} {name : ArchiveName}

/-- A parsed name of the type, with both platform fields, that renders as the
archive. -/
structure Sound (routeType archive : String) (name : ArchiveName) : Prop where
  sameType : name.providerType = routeType
  version : SemverCrate.valid name.version = true
  os_nonempty : name.os ≠ ""
  arch_nonempty : name.arch ≠ ""
  platform : PlatformWords name.os name.arch
  rendering : archive ∈ renderings routeType name.version name.os name.arch

/-- The archive has the shape of a name, but a platform field is empty. -/
def EmptyPlatform (providerType archive : String) : Prop :=
  ∃ text os arch, SemverCrate.valid (normalizeVersion text) = true ∧ PlatformWords os arch ∧
    (os = "" ∨ arch = "") ∧
      (archive = underscoreName providerType text os arch ∨
        archive = dashName providerType text os arch)

omit [SemverCrate] in
theorem mem_renderings {version os arch v : String} (hv : v ∈ ["", "v"]) :
    underscoreName providerType (v ++ version) os arch ∈ renderings providerType version os arch ∧
      dashName providerType (v ++ version) os arch ∈ renderings providerType version os arch := by
  simp only [List.mem_cons, List.not_mem_nil, or_false] at hv
  rcases hv with rfl | rfl
  · rw [String.empty_append]
    simp [renderings]
  · simp [renderings]

/-- A parsed name renders as the archive, its version with at most one `v`. -/
theorem parse_rendering (h : ArchiveName.parse providerType archive = .ok name) :
    ∃ text, name.version = normalizeVersion text ∧
      (archive = underscoreName providerType text name.os name.arch ∨
        archive = dashName providerType text name.os name.arch) := by
  obtain ⟨text, hversion, spelling, hspelling, htext⟩ := parse_fields h
  refine ⟨text, hversion, ?_⟩
  simp only [spellings, List.mem_cons, List.not_mem_nil, or_false] at hspelling
  rcases hspelling with rfl | rfl
  · left
    unfold underscoreName
    rw [htext]
    simp only [String.append_assoc]
  · right
    unfold dashName
    rw [htext]
    simp only [String.append_assoc]

/-- What is parsed is a sound name, just when the archive is none with an empty
platform field. -/
theorem parsed_sound_iff (providerType archive : String) :
    (∀ name, ArchiveName.parse providerType archive = .ok name → Sound providerType archive name) ↔
      ¬ EmptyPlatform providerType archive := by
  constructor
  · rintro h ⟨text, os, arch, hversion, hwords, hempty, harchive⟩
    have hparse : ArchiveName.parse providerType archive =
        .ok ⟨providerType, normalizeVersion text, os, arch⟩ := by
      rcases harchive with rfl | rfl
      · exact parse_underscore hversion hwords
      · exact parse_dash hversion hwords
    have hsound := h _ hparse
    rcases hempty with rfl | rfl
    · exact hsound.os_nonempty rfl
    · exact hsound.arch_nonempty rfl
  · intro h name hname
    have hwell := (parse_wellformed hname).1
    have hwords : PlatformWords name.os name.arch := ⟨hwell.os, hwell.arch⟩
    obtain ⟨text, htext, harchive⟩ := parse_rendering hname
    have hnonempty : ¬ (name.os = "" ∨ name.arch = "") := by
      intro hempty
      have hversion : SemverCrate.valid (normalizeVersion text) = true := htext ▸ hwell.version
      exact h ⟨text, name.os, name.arch, hversion, hwords, hempty, harchive⟩
    obtain ⟨hos, harch⟩ := not_or.mp hnonempty
    obtain ⟨v, hv, hletter⟩ := strip_v text
    have hspelled : text = v ++ name.version := hletter.trans (congrArg (v ++ ·) htext.symm)
    have hmem : underscoreName providerType text name.os name.arch ∈
          renderings providerType name.version name.os name.arch ∧
        dashName providerType text name.os name.arch ∈
          renderings providerType name.version name.os name.arch := by
      rw [hspelled]
      exact mem_renderings hv
    refine ⟨hwell.routeType, hwell.version, hos, harch, hwords, ?_⟩
    rcases harchive with harchive | harchive
    · exact harchive ▸ hmem.1
    · exact harchive ▸ hmem.2

omit [SemverCrate] in
/-- Both platform fields may be empty. -/
theorem empty_platform_parsed :
    ∃ name, @ArchiveName.parse PlainLibraries.plainSemver "null"
        "terraform-provider-null_1.0.0__.zip" = .ok name ∧ name.os = "" ∧ name.arch = "" ∧
      ¬ @Sound PlainLibraries.plainSemver "null" "terraform-provider-null_1.0.0__.zip" name := by
  refine ⟨⟨"null", "1.0.0", "", ""⟩, by decide +kernel, rfl, rfl, fun h => ?_⟩
  exact @Sound.os_nonempty PlainLibraries.plainSemver _ _ _ h rfl

end Soundness

section StandardPackages

variable (U : Type) [UrlCrate U] [SemverCrate]

/-- The answer of a well-behaved registry for a listed version and platform. -/
structure StandardPackage (provider : ProviderKey) (item : RegistryVersion)
    (platform : RegistryPlatform) (package : PlatformMetadata) : Prop where
  os : package.os = platform.os
  arch : package.arch = platform.arch
  filename : package.filename = underscoreName provider.providerType
    (normalizeVersion item.version) platform.os platform.arch
  shasum : package.shasum.any isChecksum = true
  url : ∃ url : U, UrlCrate.parse package.downloadUrl = some url ∧
    UrlCrate.scheme url = "https" ∧ UrlCrate.hostStr url ≠ none

/-- A standard answer is accepted just when the listed version is a semantic
version and the platform fits into the fields of archive names. -/
theorem standard_accepted_iff (hgrammar : SemverGrammar) (provider : ProviderKey)
    (item : RegistryVersion) (platform : RegistryPlatform) (package : PlatformMetadata)
    (h : StandardPackage U provider item platform package) :
    validatePackage U ⟨provider, normalizeVersion item.version⟩ platform package = .ok () ↔
      SemverCrate.valid (normalizeVersion item.version) = true ∧
        PlatformWords platform.os platform.arch := by
  constructor
  · intro hpackage
    obtain ⟨⟨name, hname, hversion, hos, harch⟩, -⟩ := package_ok U hpackage
    have hwell := (parse_wellformed hname).1
    have hvalid : SemverCrate.valid name.version = true := hwell.version
    have hwords : PlatformWords name.os name.arch := ⟨hwell.os, hwell.arch⟩
    rw [hversion] at hvalid
    rw [hos, harch] at hwords
    exact ⟨hvalid, hwords⟩
  · rintro ⟨hvalid, hwords⟩
    have hplain : normalizeVersion (normalizeVersion item.version) = normalizeVersion item.version :=
      normalizeVersion_of_valid hgrammar hvalid
    have hparse : ArchiveName.parse provider.providerType package.filename =
        .ok ⟨provider.providerType, normalizeVersion item.version, platform.os, platform.arch⟩ := by
      have htwice : SemverCrate.valid (normalizeVersion (normalizeVersion item.version)) = true := by
        rw [hplain]
        exact hvalid
      have hparsed : ArchiveName.parse provider.providerType (underscoreName provider.providerType
          (normalizeVersion item.version) platform.os platform.arch) =
          .ok ⟨provider.providerType, normalizeVersion (normalizeVersion item.version),
            platform.os, platform.arch⟩ := parse_underscore htwice hwords
      rw [hplain] at hparsed
      rw [h.filename]
      exact hparsed
    obtain ⟨url, hurl, hscheme, hhost⟩ := h.url
    unfold validatePackage
    rw [if_neg (by simp [h.os, h.arch]), hparse]
    dsimp only
    rw [if_neg (by simp), if_neg (by simp [h.shasum]), hurl]
    dsimp only
    rw [if_neg (by simp [hscheme, hhost])]

omit [SemverCrate] in
/-- The plain package is accepted. -/
theorem standard_accepted_plain :
    @validatePackage PlainUrl _ PlainLibraries.plainSemver
      ⟨PlainMetadata.plainProvider, normalizeVersion "v1.0.0"⟩ ⟨"linux", "amd64"⟩
      PlainLibraries.plainMetadata = .ok () := by
  have hstandard : StandardPackage PlainUrl PlainMetadata.plainProvider
      ⟨"v1.0.0", [⟨"linux", "amd64"⟩]⟩ ⟨"linux", "amd64"⟩ PlainLibraries.plainMetadata :=
    ⟨rfl, rfl, by decide +kernel, by decide +kernel,
      ⟨"https", "releases.example", "/null.zip"⟩, by decide +kernel, by decide +kernel,
      by decide +kernel⟩
  have h := @standard_accepted_iff PlainUrl _ PlainLibraries.plainSemver
    PlainLibraries.plainSemver_grammar PlainMetadata.plainProvider
    ⟨"v1.0.0", [⟨"linux", "amd64"⟩]⟩ ⟨"linux", "amd64"⟩ PlainLibraries.plainMetadata hstandard
  exact h.mpr ⟨by decide +kernel, by simp [isAsciiLowercase], by simp [isAsciiLowercase]⟩

/-- A registry lists an architecture with an underscore, and no standard package
for it is accepted. -/
def underscoreIndex : List RegistryVersion := [⟨"1.0.0", [⟨"linux", "arm_v7"⟩]⟩]

def underscorePackage : PlatformMetadata where
  os := "linux"
  arch := "arm_v7"
  filename := "terraform-provider-null_1.0.0_linux_arm_v7.zip"
  shasum := some "ba7816bf8f01cfea414140de5dae2223b00361a396177a9cb410ff61f20015ad"
  downloadUrl := "https://releases.example/null.zip"

omit [SemverCrate] in
theorem underscore_arch_refused :
    validateRegistryVersions underscoreIndex = .ok () ∧
    StandardPackage PlainUrl PlainMetadata.plainProvider ⟨"1.0.0", [⟨"linux", "arm_v7"⟩]⟩
      ⟨"linux", "arm_v7"⟩ underscorePackage ∧
    @validatePackage PlainUrl _ PlainLibraries.plainSemver
      ⟨PlainMetadata.plainProvider, normalizeVersion "1.0.0"⟩ ⟨"linux", "arm_v7"⟩
      underscorePackage = .error (.invalidAddress "package filename") := by
  refine ⟨by decide +kernel, ⟨rfl, rfl, by decide +kernel, by decide +kernel,
    ⟨"https", "releases.example", "/null.zip"⟩, by decide +kernel, by decide +kernel,
    by decide +kernel⟩, by decide +kernel⟩

end StandardPackages

end OpenTfMirror.ArchiveNames
