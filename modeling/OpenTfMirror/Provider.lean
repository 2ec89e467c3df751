import OpenTfMirror.TextOps

/-!
# Archive file names

The two accepted spellings of a provider archive's file name. Semantic
versions are a parameter: which texts parse, and their precedence.
-/

namespace OpenTfMirror.Provider

open TextOps

/-- The semantic-version library. -/
class SemverCrate where
  /-- `Version::parse` succeeds. -/
  valid : String → Bool
  /-- The order of two texts that parse. -/
  compare : String → String → Ordering

structure ArchiveName where
  providerType : String
  version : String
  os : String
  arch : String
  deriving DecidableEq, Repr

/-- `u8::is_ascii_lowercase`. -/
def isAsciiLowercase (c : Char) : Bool := 'a' ≤ c && c ≤ 'z'

variable [SemverCrate]

/-- `ArchiveName::from_parts`. -/
def ArchiveName.fromParts (routeType version os arch : String) : Except String ArchiveName :=
  if !os.toList.all isAsciiLowercase ||
      !arch.toList.all fun c => isAsciiLowercase c || c.isDigit then
    .error "invalid platform"
  else
    let version := (stripPrefix "v" version).getD version
    if SemverCrate.valid version then .ok ⟨routeType, version, os, arch⟩
    else .error "invalid semantic version"

/-- The three fields before the ending, split from the right. -/
def ArchiveName.fromFields (routeType : String) : List String → Except String ArchiveName
  | arch :: os :: version :: _ => ArchiveName.fromParts routeType version os arch
  | _ => .error "invalid archive"

/-- `ArchiveName::parse`. -/
def ArchiveName.parse (routeType archive : String) : Except String ArchiveName :=
  match stripPrefix ("terraform-provider-" ++ routeType) archive with
  | none => .error "invalid type"
  | some remainder =>
    match stripSuffix ".zip" remainder with
    | none => .error "invalid archive"
    | some remainder =>
      match stripPrefix "_" remainder with
      | some remainder => ArchiveName.fromFields routeType (rsplitn3 '_' remainder)
      | none =>
        match stripPrefix "-" remainder with
        | none => .error "invalid archive"
        | some remainder =>
          match stripSuffix "-bin" remainder with
          | none => .error "invalid archive suffix"
          | some remainder => ArchiveName.fromFields routeType (rsplitn3 '-' remainder)

/-- What the parts of a parsed name satisfy. -/
structure ArchiveName.Wellformed (routeType : String) (name : ArchiveName) : Prop where
  routeType : name.providerType = routeType
  version : SemverCrate.valid name.version = true
  os : ∀ c ∈ name.os.toList, isAsciiLowercase c = true
  arch : ∀ c ∈ name.arch.toList, isAsciiLowercase c = true ∨ c.isDigit = true

theorem fromParts_wellformed {routeType version os arch : String} {name : ArchiveName}
    (h : ArchiveName.fromParts routeType version os arch = .ok name) :
    name.Wellformed routeType := by
  unfold ArchiveName.fromParts at h
  split at h
  · cases h
  · rename_i hplatform
    dsimp only at h
    split at h
    · rename_i hvalid
      cases h
      simp only [Bool.or_eq_true, Bool.not_eq_true', not_or, Bool.not_eq_false,
        List.all_eq_true] at hplatform
      exact ⟨rfl, hvalid, hplatform.1, hplatform.2⟩
    · cases h

theorem fromFields_wellformed {routeType : String} {fields : List String} {name : ArchiveName}
    (h : ArchiveName.fromFields routeType fields = .ok name) : name.Wellformed routeType := by
  unfold ArchiveName.fromFields at h
  split at h
  · exact fromParts_wellformed h
  · cases h

/-- Both spellings yield well-formed parts, and the text ends in `.zip`. -/
theorem parse_wellformed {routeType archive : String} {name : ArchiveName}
    (h : ArchiveName.parse routeType archive = .ok name) :
    name.Wellformed routeType ∧ ∃ stem, archive = stem ++ ".zip" := by
  unfold ArchiveName.parse at h
  split at h
  · cases h
  · rename_i remainder hprefix
    split at h
    · cases h
    · rename_i stem hsuffix
      have harchive : archive = "terraform-provider-" ++ routeType ++ stem ++ ".zip" := by
        rw [stripPrefix_eq_some.mp hprefix, stripSuffix_eq_some.mp hsuffix]
        simp only [String.append_assoc]
      refine ⟨?_, _, harchive⟩
      split at h
      · exact fromFields_wellformed h
      · split at h
        · cases h
        · split at h
          · cases h
          · exact fromFields_wellformed h

/-- The separator and the ending of the two spellings. -/
def spellings : List (String × String) := [("_", ".zip"), ("-", "-bin.zip")]

omit [SemverCrate] in
/-- One leading `v` may be taken off. -/
theorem strip_v (text : String) : ∃ v ∈ ["", "v"], text = v ++ (stripPrefix "v" text).getD text := by
  cases hv : stripPrefix "v" text with
  | none => exact ⟨"", by simp, by simp⟩
  | some rest => exact ⟨"v", by simp, stripPrefix_eq_some.mp hv⟩

theorem fromParts_version {routeType version os arch : String} {name : ArchiveName}
    (h : ArchiveName.fromParts routeType version os arch = .ok name) :
    name.version = (stripPrefix "v" version).getD version ∧ os = name.os ∧ arch = name.arch := by
  unfold ArchiveName.fromParts at h
  split at h
  · cases h
  · dsimp only at h
    split at h
    · cases h
      exact ⟨rfl, rfl, rfl⟩
    · cases h

/-- Three or more fields come from a split at two separators. -/
theorem fromFields_text {routeType fields : String} {sep : Char} {name : ArchiveName}
    (h : ArchiveName.fromFields routeType (rsplitn3 sep fields) = .ok name) :
    ∃ text, name.version = (stripPrefix "v" text).getD text ∧
      fields = text ++ String.singleton sep ++ name.os ++ String.singleton sep ++ name.arch := by
  unfold rsplitn3 at h
  split at h
  · cases h
  · rename_i rest arch harch
    split at h
    · cases h
    · rename_i text os hos
      obtain ⟨hversion, hos', harch'⟩ := fromParts_version h
      refine ⟨text, hversion, ?_⟩
      rw [(rsplitOnce_eq_some.mp harch).1, (rsplitOnce_eq_some.mp hos).1, hos', harch']

/-- The text of a parsed name is made of its fields. -/
theorem parse_fields {routeType archive : String} {name : ArchiveName}
    (h : ArchiveName.parse routeType archive = .ok name) :
    ∃ text, name.version = (stripPrefix "v" text).getD text ∧ ∃ spelling ∈ spellings,
      archive = "terraform-provider-" ++ routeType ++ spelling.1 ++
        (text ++ spelling.1 ++ name.os ++ spelling.1 ++ name.arch) ++ spelling.2 := by
  unfold ArchiveName.parse at h
  split at h
  · cases h
  · rename_i remainder hprefix
    split at h
    · cases h
    · rename_i stem hsuffix
      have harchive := stripPrefix_eq_some.mp hprefix
      rw [stripSuffix_eq_some.mp hsuffix] at harchive
      split at h
      · rename_i fields hfields
        obtain ⟨text, hversion, htext⟩ := fromFields_text h
        refine ⟨text, hversion, ("_", ".zip"), by simp [spellings], ?_⟩
        rw [harchive, stripPrefix_eq_some.mp hfields, htext]
        simp only [String.append_assoc]
        rfl
      · split at h
        · cases h
        · rename_i rest hrest
          split at h
          · cases h
          · rename_i fields hfields
            obtain ⟨text, hversion, htext⟩ := fromFields_text h
            refine ⟨text, hversion, ("-", "-bin.zip"), by simp [spellings], ?_⟩
            rw [harchive, stripPrefix_eq_some.mp hrest, stripSuffix_eq_some.mp hfields, htext]
            have hending : "-bin.zip" = "-bin" ++ ".zip" := by decide
            simp only [hending, String.append_assoc]
            rfl

/-- The text of a parsed name is made of its parts, and at most one `v`. -/
theorem parse_text {routeType archive : String} {name : ArchiveName}
    (h : ArchiveName.parse routeType archive = .ok name) :
    ∃ v ∈ ["", "v"], ∃ spelling ∈ spellings, archive = "terraform-provider-" ++ routeType ++
      spelling.1 ++ (v ++ name.version ++ spelling.1 ++ name.os ++ spelling.1 ++ name.arch) ++
        spelling.2 := by
  obtain ⟨text, hversion, spelling, hspelling, harchive⟩ := parse_fields h
  obtain ⟨v, hv, htext⟩ := strip_v text
  rw [← hversion] at htext
  exact ⟨v, hv, spelling, hspelling, by rw [harchive, htext]⟩

/-- The characters that file names have besides those of the provider type. -/
def archiveChar (c : Char) : Bool := c.isAlphanum || c = '.' || c = '-' || c = '_' || c = '+'

/-- What `Version::parse` accepts starts with a digit and has no other
characters than letters, digits, dots, hyphens and plus signs. -/
def SemverGrammar : Prop :=
  ∀ text, SemverCrate.valid text = true → (∃ c rest, text.toList = c :: rest ∧ c.isDigit = true) ∧
    ∀ c ∈ text.toList, c.isAlphanum = true ∨ c = '.' ∨ c = '-' ∨ c = '+'

omit [SemverCrate] in
theorem isAlphanum_of_lowercase {c : Char} (h : isAsciiLowercase c = true) : c.isAlphanum = true := by
  simp only [isAsciiLowercase, Bool.and_eq_true, decide_eq_true_eq] at h
  have hlower : c.isLower = true :=
    Bool.and_eq_true_iff.mpr ⟨decide_eq_true h.1, decide_eq_true h.2⟩
  have halpha : c.isAlpha = true := Bool.or_eq_true_iff.mpr (.inr hlower)
  exact Bool.or_eq_true_iff.mpr (.inl halpha)

/-- The characters of a file name come from the type, the version, and a small
set. -/
theorem parse_chars {routeType archive : String} {name : ArchiveName}
    (h : ArchiveName.parse routeType archive = .ok name) {c : Char} (hc : c ∈ archive.toList) :
    c ∈ routeType.toList ∨ c ∈ name.version.toList ∨ archiveChar c = true := by
  obtain ⟨v, hv, spelling, hspelling, htext⟩ := parse_text h
  have hwell := (parse_wellformed h).1
  have hconst : ∀ c ∈ "terraform-provider-".toList, archiveChar c = true :=
    List.all_eq_true.mp (by decide)
  have hv' : ∀ v ∈ ["", "v"], ∀ c ∈ v.toList, archiveChar c = true := by
    simp [archiveChar]
  have hsep : ∀ spelling ∈ spellings, (∀ c ∈ spelling.1.toList, archiveChar c = true) ∧
      ∀ c ∈ spelling.2.toList, archiveChar c = true := by simp [spellings, archiveChar]
  have hos : ∀ c ∈ name.os.toList, archiveChar c = true := by
    intro c hc
    simp only [archiveChar, isAlphanum_of_lowercase (hwell.os c hc), Bool.true_or]
  have harch : ∀ c ∈ name.arch.toList, archiveChar c = true := by
    intro c hc
    have halnum : c.isAlphanum = true := by
      rcases hwell.arch c hc with h | h
      · exact isAlphanum_of_lowercase h
      · simp only [Char.isAlphanum, h, Bool.or_true]
    simp only [archiveChar, halnum, Bool.true_or]
  rw [htext] at hc
  simp only [String.toList_append, List.mem_append] at hc
  rcases hc with (((hc | hc) | hc) | (((((hc | hc) | hc) | hc) | hc) | hc)) | hc
  · exact .inr (.inr (hconst c hc))
  · exact .inl hc
  · exact .inr (.inr ((hsep spelling hspelling).1 c hc))
  · exact .inr (.inr (hv' v hv c hc))
  · exact .inr (.inl hc)
  · exact .inr (.inr ((hsep spelling hspelling).1 c hc))
  · exact .inr (.inr (hos c hc))
  · exact .inr (.inr ((hsep spelling hspelling).1 c hc))
  · exact .inr (.inr (harch c hc))
  · exact .inr (.inr ((hsep spelling hspelling).2 c hc))

/-- A file name starts with a fixed text. -/
theorem parse_start {routeType archive : String} {name : ArchiveName}
    (h : ArchiveName.parse routeType archive = .ok name) :
    ∃ rest, archive = "terraform-provider-" ++ rest := by
  obtain ⟨v, _, spelling, _, htext⟩ := parse_text h
  refine ⟨routeType ++ (spelling.1 ++ (v ++ (name.version ++ (spelling.1 ++ (name.os ++
    (spelling.1 ++ (name.arch ++ spelling.2))))))), ?_⟩
  rw [htext]
  simp only [String.append_assoc]

end OpenTfMirror.Provider
