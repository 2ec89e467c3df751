import OpenTfMirror.PathText
import OpenTfMirror.PlainMetadata

/-!
# Archive addresses

Which addresses the store accepts, where it puts their archives, and how its
checks compare with those of the metadata service. Every accepted address has a
place of its own below the data directory.
-/

namespace OpenTfMirror.ArchivePaths

open TextOps FileNames PathText Outbound Provider Metadata Storage MetadataService

section Paths

/-- `archive_path`, as text. -/
def archivePathText (root : String) (key : ProviderArchiveKey) : String :=
  joinAll root ["providers", key.hostname, key.providerNamespace, key.providerType, key.filename]

/-- `bundled_path`, as text. -/
def bundledPathText (mirror : String) (key : ProviderArchiveKey) : String :=
  joinAll mirror [key.hostname, key.providerNamespace, key.providerType, key.filename]

/-- The temporary file of `download`, as text. -/
def tempPathText (root : String) (key : ProviderArchiveKey) (pid sequence : ℕ) : String :=
  joinAll root ["providers", key.hostname, key.providerNamespace, key.providerType,
    tempName key.filename pid sequence]

end Paths

section Components

/-- A character of the store's components. -/
theorem ne_of_alphanum {c : Char} (h : c.isAlphanum = true) :
    c ≠ '/' ∧ c ≠ '\\' ∧ c ≠ '\x00' := by
  refine ⟨?_, ?_, ?_⟩ <;>
    · intro heq
      subst heq
      exact absurd h (by decide)

theorem ne_of_archiveChar {c : Char} (h : archiveChar c = true) :
    c ≠ '/' ∧ c ≠ '\\' ∧ c ≠ '\x00' := by
  simp only [archiveChar, Bool.or_eq_true, decide_eq_true_eq] at h
  rcases h with (((halnum | rfl) | rfl) | rfl) | rfl
  · exact ne_of_alphanum halnum
  · decide
  · decide
  · decide
  · decide

theorem plain_of_component {value : String} (h : Storage.validComponent value = true) :
    Plain value := by
  simp only [Storage.validComponent, Bool.and_eq_true, decide_eq_true_eq, List.all_eq_true,
    Bool.or_eq_true] at h
  obtain ⟨⟨⟨⟨hne, hcurrent⟩, hparent⟩, -⟩, hall⟩ := h
  refine ⟨hne, hcurrent, hparent, fun c hc => ?_⟩
  rcases hall c hc with (halnum | rfl) | rfl
  · exact ne_of_alphanum halnum
  · decide
  · decide

theorem plain_of_hostname {value : String} (h : validHostname value = true) : Plain value := by
  have hparts : ∀ part ∈ splitAll '.' value, Plain part := by
    simp only [validHostname, Bool.and_eq_true, List.all_eq_true] at h
    exact fun part hpart => plain_of_component (h.2 part hpart)
  refine ⟨?_, ?_, ?_, ?_⟩
  · rintro rfl
    exact absurd h (by decide)
  · rintro rfl
    exact absurd h (by decide)
  · rintro rfl
    exact absurd h (by decide)
  · intro c hc
    rcases mem_splitAll '.' hc with rfl | ⟨part, hpart, hc⟩
    · decide
    · exact (hparts part hpart).no_separator c hc

variable [SemverCrate]

/-- What `validate_key` accepts. -/
structure AcceptedKey (key : ProviderArchiveKey) : Prop where
  hostname : validHostname key.hostname = true
  providerNamespace : Storage.validComponent key.providerNamespace = true
  providerType : Storage.validComponent key.providerType = true
  filename : ∀ c ∈ key.filename.toList, c ≠ '/' ∧ c ≠ '\\'
  archive : ∃ name, ArchiveName.parse key.providerType key.filename = .ok name

theorem validateKey_ok {key : ProviderArchiveKey} :
    validateKey key = .ok () ↔ AcceptedKey key := by
  unfold validateKey
  constructor
  · intro h
    split at h
    · cases h
    · next hchecks =>
        simp only [Bool.or_eq_true, Bool.not_eq_true', not_or, Bool.not_eq_false,
          Bool.not_eq_true, List.any_eq_false, decide_eq_true_eq] at hchecks
        obtain ⟨⟨⟨⟨hhost, hns⟩, htype⟩, hchars⟩, hparse⟩ := hchecks
        refine ⟨hhost, hns, htype, hchars, ?_⟩
        cases hname : ArchiveName.parse key.providerType key.filename with
        | ok name => exact ⟨name, rfl⟩
        | error error =>
          rw [hname] at hparse
          cases hparse
  · intro h
    obtain ⟨name, hname⟩ := h.archive
    have hchars : (key.filename.toList.any fun c => c = '/' || c = '\\') = false := by
      rw [List.any_eq_false]
      intro c hc
      have hne := h.filename c hc
      simp [hne.1, hne.2]
    rw [if_neg]
    simp [h.hostname, h.providerNamespace, h.providerType, hname, hchars, Except.isOk, Except.toBool]

omit [SemverCrate] in
/-- A text that starts with the fixed start of file names. -/
theorem filename_ne {rest s : String} (hlen : s.toList.length < 3) :
    "terraform-provider-" ++ rest ≠ s := by
  rintro rfl
  simp only [String.toList_append, List.length_append] at hlen
  have hstart : "terraform-provider-".toList.length = 19 := by decide
  omega

/-- The name of an accepted archive is a plain component. -/
theorem plain_of_filename (hgrammar : SemverGrammar) {key : ProviderArchiveKey}
    (h : AcceptedKey key) : Plain key.filename := by
  obtain ⟨name, hname⟩ := h.archive
  obtain ⟨rest, hrest⟩ := parse_start hname
  have hne : ∀ s : String, s.toList.length < 3 → key.filename ≠ s := by
    intro s hs
    rw [hrest]
    exact filename_ne hs
  refine ⟨hne "" (by decide), hne "." (by decide), hne ".." (by decide), fun c hc => ?_⟩
  rcases parse_chars hname hc with hc | hc | hc
  · exact (plain_of_component h.providerType).no_separator c hc
  · rcases (hgrammar name.version (parse_wellformed hname).1.version).2 c hc with
      halnum | rfl | rfl | rfl
    · exact ne_of_alphanum halnum
    · decide
    · decide
    · decide
  · exact ne_of_archiveChar hc

omit [SemverCrate] in
/-- A temporary name made of a plain one is plain. -/
theorem plain_tempName {base : String} (h : Plain base) (pid n : ℕ) :
    Plain (tempName base pid n) := by
  have hdigits : ∀ (m : ℕ), ∀ c ∈ (toString m).toList, c ≠ '/' ∧ c ≠ '\\' ∧ c ≠ '\x00' := by
    intro m c hc
    have hdigit : c.isDigit = true :=
      Nat.isDigit_of_mem_toDigits (b := 10) (n := m) (by omega) (by omega) (by simpa using hc)
    exact ne_of_alphanum (by simp [Char.isAlphanum, hdigit])
  have hlong : 2 < (tempName base pid n).toList.length := by
    simp only [tempName, String.toList_append, List.length_append]
    have hending : ".tmp".toList.length = 4 := by decide
    omega
  have hne : ∀ s : String, s.toList.length < 3 → tempName base pid n ≠ s := by
    intro s hs heq
    rw [heq] at hlong
    omega
  have hconst : ∀ s ∈ [".", "-", ".tmp"], ∀ c ∈ s.toList, c ≠ '/' ∧ c ≠ '\\' ∧ c ≠ '\x00' := by
    simp
  refine ⟨hne "" (by decide), hne "." (by decide), hne ".." (by decide), fun c hc => ?_⟩
  simp only [tempName, String.toList_append, List.mem_append] at hc
  rcases hc with (((((hc | hc) | hc) | hc) | hc) | hc) | hc
  · exact hconst "." (by simp) c hc
  · exact h.no_separator c hc
  · exact hconst "-" (by simp) c hc
  · exact hdigits pid c hc
  · exact hconst "-" (by simp) c hc
  · exact hdigits n c hc
  · exact hconst ".tmp" (by simp) c hc

end Components

section Confinement

variable [SemverCrate]

/-- The components of an address below `providers`. -/
def addressParts (key : ProviderArchiveKey) : List String :=
  [key.hostname, key.providerNamespace, key.providerType, key.filename]

theorem plain_addressParts (hgrammar : SemverGrammar) {key : ProviderArchiveKey}
    (h : AcceptedKey key) : ∀ part ∈ addressParts key, Plain part := by
  intro part hpart
  simp only [addressParts, List.mem_cons, List.not_mem_nil, or_false] at hpart
  rcases hpart with rfl | rfl | rfl | rfl
  · exact plain_of_hostname h.hostname
  · exact plain_of_component h.providerNamespace
  · exact plain_of_component h.providerType
  · exact plain_of_filename hgrammar h

omit [SemverCrate] in
theorem plain_providers : Plain "providers" where
  nonempty := by decide
  not_current := by decide
  not_parent := by decide
  no_separator := by simp

omit [SemverCrate] in
/-- The components determine the address. -/
theorem addressParts_inj {key key' : ProviderArchiveKey}
    (h : addressParts key' = addressParts key) : key' = key := by
  simp only [addressParts, List.cons.injEq, and_true] at h
  obtain ⟨hhost, hns, htype, hname⟩ := h
  cases key
  cases key'
  simp_all only

theorem components_archivePath (hgrammar : SemverGrammar) (root : String)
    {key : ProviderArchiveKey} (h : AcceptedKey key) :
    components (archivePathText root key) = components root ++ "providers" :: addressParts key := by
  have hplain : ∀ part ∈ "providers" :: addressParts key, Plain part := by
    intro part hpart
    rcases List.mem_cons.mp hpart with rfl | hpart
    · exact plain_providers
    · exact plain_addressParts hgrammar h part hpart
  exact components_joinAll root hplain

theorem components_bundledPath (hgrammar : SemverGrammar) (mirror : String)
    {key : ProviderArchiveKey} (h : AcceptedKey key) :
    components (bundledPathText mirror key) = components mirror ++ addressParts key :=
  components_joinAll mirror (plain_addressParts hgrammar h)

theorem components_tempPath (hgrammar : SemverGrammar) (root : String) {key : ProviderArchiveKey}
    (h : AcceptedKey key) (pid n : ℕ) :
    components (tempPathText root key pid n) = components root ++ ["providers", key.hostname,
      key.providerNamespace, key.providerType, tempName key.filename pid n] := by
  refine components_joinAll root fun part hpart => ?_
  simp only [List.mem_cons, List.not_mem_nil, or_false] at hpart
  rcases hpart with rfl | rfl | rfl | rfl | rfl
  · exact plain_providers
  · exact plain_of_hostname h.hostname
  · exact plain_of_component h.providerNamespace
  · exact plain_of_component h.providerType
  · exact plain_tempName (plain_of_filename hgrammar h) pid n

/-- The texts denote the paths that the store works with. -/
theorem components_of_store (hgrammar : SemverGrammar) (self : ProviderStorage) (root : String)
    (hroot : self.root = components root) {key : ProviderArchiveKey} (h : AcceptedKey key) :
    components (archivePathText root key) = self.archivePath key ∧
      ∀ pid n, components (tempPathText root key pid n) =
        (self.archivePath key).dropLast ++ [tempName key.filename pid n] := by
  constructor
  · rw [components_archivePath hgrammar root h, ← hroot]
    rfl
  · intro pid n
    rw [components_tempPath hgrammar root h, ← hroot]
    unfold ProviderStorage.archivePath
    rw [List.dropLast_append_of_ne_nil (by simp), List.append_assoc]
    rfl

/-- The archive of an accepted address lies four plain components below
`providers`, that of the bundled mirror four below its root. No other accepted
address has the same path, and no temporary file does. -/
theorem archive_paths_confined (hgrammar : SemverGrammar) (self : ProviderStorage) (root : String)
    (hroot : self.root = components root) (key : ProviderArchiveKey)
    (hkey : validateKey key = .ok ()) :
    (∃ parts : Path, parts.length = 4 ∧ (∀ part ∈ parts, Plain part) ∧
      components (archivePathText root key) = components root ++ "providers" :: parts ∧
      ∀ mirror, components (bundledPathText mirror key) = components mirror ++ parts) ∧
    components (archivePathText root key) = self.archivePath key ∧
    (∀ key', validateKey key' = .ok () →
      components (archivePathText root key') = components (archivePathText root key) →
        key' = key) ∧
    ∀ key' pid n, validateKey key' = .ok () →
      components (tempPathText root key' pid n) =
          (self.archivePath key').dropLast ++ [tempName key'.filename pid n] ∧
        components (tempPathText root key' pid n) ≠ components (archivePathText root key) := by
  have haccepted := validateKey_ok.mp hkey
  have hpath := components_archivePath hgrammar root haccepted
  refine ⟨⟨addressParts key, rfl, plain_addressParts hgrammar haccepted, hpath,
    fun mirror => components_bundledPath hgrammar mirror haccepted⟩,
    (components_of_store hgrammar self root hroot haccepted).1, ?_, ?_⟩
  · intro key' hkey' heq
    rw [components_archivePath hgrammar root (validateKey_ok.mp hkey'), hpath] at heq
    have hparts := List.append_cancel_left heq
    exact addressParts_inj (List.cons.inj hparts).2
  · intro key' pid n hkey'
    have haccepted' := validateKey_ok.mp hkey'
    refine ⟨(components_of_store hgrammar self root hroot haccepted').2 pid n, fun heq => ?_⟩
    rw [components_tempPath hgrammar root haccepted', hpath] at heq
    have hparts := List.append_cancel_left heq
    simp only [addressParts, List.cons.injEq, and_true, true_and] at hparts
    obtain ⟨name, hname⟩ := haccepted.archive
    obtain ⟨stem, hstem⟩ := (parse_wellformed hname).2
    exact tempName_ne (by decide) (by decide) (hparts.2.2.2.trans hstem)

end Confinement

section Advertised

/-- `load_or_fetch` gets past the checks of its arguments. -/
def PassesChecks [SemverCrate] (key : ProviderArchiveKey) (metadata : PlatformMetadata) : Prop :=
  validateKey key = .ok () ∧ metadata.filename = key.filename ∧
    ∃ expected, expectedChecksum metadata = .ok expected

/-- Without dots, a component of the metadata service is one of the store. -/
theorem validComponent_iff {value : String} (h : Metadata.validComponent value = true) :
    Storage.validComponent value = true ↔ '.' ∉ value.toList := by
  simp only [Metadata.validComponent, Bool.and_eq_true, decide_eq_true_eq, List.all_eq_true,
    Bool.or_eq_true] at h
  obtain ⟨⟨⟨⟨hne, hsize⟩, hall⟩, hcurrent⟩, hparent⟩ := h
  simp only [Storage.validComponent, Bool.and_eq_true, decide_eq_true_eq, List.all_eq_true,
    Bool.or_eq_true]
  constructor
  · rintro ⟨-, hplain⟩ hdot
    exact absurd (hplain '.' hdot) (by decide)
  · intro hdot
    refine ⟨⟨⟨⟨hne, hcurrent⟩, hparent⟩, hsize⟩, fun c hc => ?_⟩
    rcases hall c hc with ((halnum | hdash) | hunderscore) | rfl
    · exact .inl (.inl halnum)
    · exact .inl (.inr hdash)
    · exact .inr hunderscore
    · exact absurd hc hdot

/-- Host names of the metadata service are host names of the store. -/
theorem validHostname_of_metadata {value : String} (h : validateHostname value = .ok ()) :
    validHostname value = true := by
  unfold validateHostname at h
  split at h
  · cases h
  · next hchecks =>
      simp only [Bool.or_eq_true, decide_eq_true_eq, not_or, Bool.not_eq_true,
        List.any_eq_false] at hchecks
      obtain ⟨⟨hne, -⟩, hparts⟩ := hchecks
      simp only [validHostname, Bool.and_eq_true, decide_eq_true_eq, List.all_eq_true]
      refine ⟨hne, fun part hpart => ?_⟩
      have hvalid : Metadata.validComponent part = true := by simpa using hparts part hpart
      exact (validComponent_iff hvalid).mpr (not_mem_of_splitAll hpart)

/-- What the address of an accepted request satisfies. -/
theorem providerKey_ok {service : ProviderMetadataService} {hostname providerNamespace
    providerType : String} {key : ProviderKey}
    (h : service.providerKey hostname providerNamespace providerType = .ok key) :
    validateHostname hostname = .ok () ∧ Metadata.validComponent providerNamespace = true ∧
      Metadata.validComponent providerType = true ∧
      key = ⟨hostname, providerNamespace, providerType⟩ := by
  unfold ProviderMetadataService.providerKey at h
  obtain ⟨⟨⟩, hhost, h⟩ := bind_ok.mp h
  obtain ⟨⟨⟩, hns, h⟩ := bind_ok.mp h
  obtain ⟨⟨⟩, htype, h⟩ := bind_ok.mp h
  have hcomponent : ∀ value name, validateComponent value name = .ok () →
      Metadata.validComponent value = true := by
    intro value name h
    unfold validateComponent at h
    split at h
    · cases h
    · next hvalid => simpa using hvalid
  split at h
  · cases h
  · cases h
    exact ⟨hhost, hcomponent _ _ hns, hcomponent _ _ htype, rfl⟩

/-- The characters of an accepted version. -/
theorem version_chars {version : String} (h : validateVersion version "version" = .ok ()) :
    ∀ c ∈ (normalizeVersion version).toList, c.isAlphanum = true ∨ c = '.' ∨ c = '-' ∨ c = '+' := by
  unfold validateVersion at h
  split at h
  · cases h
  · next hvalid =>
      simp only [Bool.not_eq_true', Bool.not_eq_false, validVersion, Bool.and_eq_true,
        List.all_eq_true, Bool.or_eq_true, decide_eq_true_eq] at hvalid
      intro c hc
      have hchar := hvalid.1.1.2 c hc
      tauto

variable (U : Type) [UrlCrate U] [SemverCrate]

/-- What `validate_package` establishes for the store. -/
theorem package_ok {key : VersionKey} {requested : RegistryPlatform} {package : PlatformMetadata}
    (h : validatePackage U key requested package = .ok ()) :
    (∃ name, ArchiveName.parse key.provider.providerType package.filename = .ok name ∧
      name.version = key.version ∧ name.os = requested.os ∧ name.arch = requested.arch) ∧
    ∃ checksum, package.shasum = some checksum ∧ isChecksum checksum = true := by
  unfold validatePackage at h
  split at h
  · cases h
  · split at h
    · cases h
    · next name hname =>
        split at h
        · cases h
        · next hmatch =>
            split at h
            · cases h
            · next hchecksum =>
                simp only [Bool.or_eq_true, decide_eq_true_eq, not_or, not_not] at hmatch
                refine ⟨⟨name, hname, hmatch.1.1.1, hmatch.1.1.2, hmatch.1.2⟩, ?_⟩
                cases hshasum : package.shasum with
                | none =>
                  rw [hshasum] at hchecksum
                  exact absurd rfl hchecksum
                | some checksum =>
                  rw [hshasum] at hchecksum
                  exact ⟨checksum, rfl, by simpa using hchecksum⟩

/-- For an address and a package that the metadata service accepts, the store
passes its checks just when neither the namespace nor the type has a dot. -/
theorem advertised_accepted (service : ProviderMetadataService) (hostname providerNamespace
    providerType version : String) (provider : ProviderKey)
    (hkey : service.providerKey hostname providerNamespace providerType = .ok provider)
    (hversion : validateVersion version "version" = .ok ()) (requested : RegistryPlatform)
    (package : PlatformMetadata)
    (hpackage : validatePackage U ⟨provider, normalizeVersion version⟩ requested package = .ok ()) :
    PassesChecks ⟨hostname, providerNamespace, providerType, package.filename⟩ package ↔
      '.' ∉ providerNamespace.toList ∧ '.' ∉ providerType.toList := by
  obtain ⟨hhost, hns, htype, rfl⟩ := providerKey_ok hkey
  obtain ⟨⟨name, hname, hnameVersion, -⟩, checksum, hshasum, hchecksum⟩ := package_ok U hpackage
  constructor
  · intro h
    have haccepted := validateKey_ok.mp h.1
    exact ⟨(validComponent_iff hns).mp haccepted.providerNamespace,
      (validComponent_iff htype).mp haccepted.providerType⟩
  · intro h
    have htype' := (validComponent_iff htype).mpr h.2
    refine ⟨validateKey_ok.mpr ⟨validHostname_of_metadata hhost, (validComponent_iff hns).mpr h.1,
      htype', ?_, name, hname⟩, rfl, ?_⟩
    · intro c hc
      have hplain : c ≠ '/' ∧ c ≠ '\\' ∧ c ≠ '\x00' := by
        rcases parse_chars hname hc with hc | hc | hc
        · exact (plain_of_component htype').no_separator c hc
        · rw [hnameVersion] at hc
          rcases version_chars hversion c hc with halnum | rfl | rfl | rfl
          · exact ne_of_alphanum halnum
          · decide
          · decide
          · decide
        · exact ne_of_archiveChar hc
      exact ⟨hplain.1, hplain.2.1⟩
    · refine ⟨toAsciiLowercase checksum, ?_⟩
      unfold expectedChecksum
      rw [hshasum]
      simp only [hchecksum, if_true]

end Advertised

section Plain

/-- An archive below `/data`. -/
theorem archive_paths_confined_plain :
    components (archivePathText "/data" PlainLibraries.plainKey) =
      components "/data" ++ ["providers", "registry.terraform.io", "hashicorp", "null",
        "terraform-provider-null_1.0.0_linux_amd64.zip"] ∧
    ∀ pid n, components (tempPathText "/data" PlainLibraries.plainKey pid n) ≠
      components (archivePathText "/data" PlainLibraries.plainKey) := by
  have h := @archive_paths_confined PlainLibraries.plainSemver PlainLibraries.plainSemver_grammar
    { PlainLibraries.plainStore with root := ["/", "data"] } "/data" (by decide)
    PlainLibraries.plainKey (by decide +kernel)
  exact ⟨h.2.1, fun pid n => (h.2.2.2 PlainLibraries.plainKey pid n (by decide +kernel)).2⟩

/-- The store accepts the plain package under its address. -/
theorem advertised_accepted_plain :
    @PassesChecks PlainLibraries.plainSemver
      ⟨"registry.terraform.io", "hashicorp", "null", PlainLibraries.plainMetadata.filename⟩
      PlainLibraries.plainMetadata := by
  have h := @advertised_accepted PlainUrl _ PlainLibraries.plainSemver
    (PlainMetadata.plainService 0) "registry.terraform.io" "hashicorp" "null" "1.0.0"
    PlainMetadata.plainProvider (by decide +kernel) (by decide +kernel) ⟨"linux", "amd64"⟩
    PlainLibraries.plainMetadata (by decide +kernel)
  exact h.mpr (by decide)

/-- The metadata service accepts a namespace with a dot, for which the store
refuses every archive. -/
theorem dotted_namespace_refused :
    (PlainMetadata.plainService 0).providerKey "registry.terraform.io" "my.org" "null" =
        .ok ⟨"registry.terraform.io", "my.org", "null"⟩ ∧
      validateVersion "1.0.0" "version" = .ok () ∧
      @validatePackage PlainUrl _ PlainLibraries.plainSemver
        ⟨⟨"registry.terraform.io", "my.org", "null"⟩, normalizeVersion "1.0.0"⟩
        ⟨"linux", "amd64"⟩ PlainLibraries.plainMetadata = .ok () ∧
      ¬ @PassesChecks PlainLibraries.plainSemver
        ⟨"registry.terraform.io", "my.org", "null", PlainLibraries.plainMetadata.filename⟩
        PlainLibraries.plainMetadata := by
  refine ⟨by decide +kernel, by decide +kernel, by decide +kernel, fun h => ?_⟩
  exact absurd h.1 (by decide +kernel)

end Plain

end OpenTfMirror.ArchivePaths
