import OpenTfMirror.MetadataService
import Mathlib.Data.List.Induction

/-!
# Merging the packages of a version

The answers arrive in any order and are put back into the order of the listing.
A fetched package serves the first listing of its platform, the cached one every
other; so the merge is right as long as no platform that is listed twice has a
cached package.
-/

namespace OpenTfMirror.VersionMerge

open KeyedLocks Outbound Provider Metadata MetadataService

section Answers

/-- The answers belong to the listed platforms, each to one, in some order. -/
def Completed (platforms : List RegistryPlatform)
    (answers : List (ℕ × Except RegistryError PlatformMetadata)) : Prop :=
  (answers.map Prod.fst).Perm (List.range platforms.length)

/-- The answers in the order of the listing. -/
def inOrder (answers : List (ℕ × Except RegistryError PlatformMetadata)) :
    List (ℕ × Except RegistryError PlatformMetadata) :=
  answers.insertionSort fun a b => a.1 ≤ b.1

variable {platforms : List RegistryPlatform}
variable {answers answers' : List (ℕ × Except RegistryError PlatformMetadata)}

theorem pairwise_inOrder (answers : List (ℕ × Except RegistryError PlatformMetadata)) :
    (inOrder answers).Pairwise fun a b => a.1 ≤ b.1 := by
  have htotal : Std.Total fun a b : ℕ × Except RegistryError PlatformMetadata => a.1 ≤ b.1 :=
    ⟨fun a b => Nat.le_total a.1 b.1⟩
  have htrans : IsTrans (ℕ × Except RegistryError PlatformMetadata) fun a b => a.1 ≤ b.1 :=
    ⟨fun a b c => Nat.le_trans⟩
  exact List.pairwise_insertionSort _ answers

/-- Put in order, the answers are numbered from zero. -/
theorem inOrder_numbers (h : Completed platforms answers) :
    (inOrder answers).map Prod.fst = List.range platforms.length := by
  have hperm : ((inOrder answers).map Prod.fst).Perm (List.range platforms.length) :=
    ((List.perm_insertionSort _ answers).map Prod.fst).trans h
  have hsorted : ((inOrder answers).map Prod.fst).Pairwise (· ≤ ·) :=
    List.pairwise_map.mpr (pairwise_inOrder answers)
  have hrange : (List.range platforms.length).Pairwise (· ≤ ·) :=
    List.pairwise_lt_range.imp fun hlt => Nat.le_of_lt hlt
  exact List.Perm.eq_of_pairwise (fun a b _ _ => Nat.le_antisymm) hsorted hrange hperm

/-- The answer at a place is the one with its number. -/
theorem inOrder_getElem (h : Completed platforms answers) {i : ℕ}
    {answer : Except RegistryError PlatformMetadata} :
    ((inOrder answers).map Prod.snd)[i]? = some answer ↔ (i, answer) ∈ answers := by
  have hnumber : ∀ (j : ℕ) (pair : ℕ × Except RegistryError PlatformMetadata),
      (inOrder answers)[j]? = some pair → pair.1 = j := by
    intro j pair hpair
    have hfst : ((inOrder answers).map Prod.fst)[j]? = some pair.1 := by
      rw [List.getElem?_map, hpair]
      rfl
    rw [inOrder_numbers h] at hfst
    obtain ⟨hlt, heq⟩ := List.getElem?_eq_some_iff.mp hfst
    rw [List.getElem_range] at heq
    exact heq.symm
  rw [List.getElem?_map, Option.map_eq_some_iff]
  constructor
  · intro hsome
    obtain ⟨pair, hpair, hanswer⟩ := hsome
    have heq : pair = (i, answer) := Prod.ext (hnumber i pair hpair) hanswer
    have hmem : pair ∈ inOrder answers := List.mem_of_getElem? hpair
    rw [heq] at hmem
    exact (List.mem_insertionSort _).mp hmem
  · intro hmem
    obtain ⟨j, hj⟩ := List.mem_iff_getElem?.mp ((List.mem_insertionSort fun a b => a.1 ≤ b.1).mpr hmem)
    have hi : i = j := hnumber j (i, answer) hj
    rw [← hi] at hj
    exact ⟨(i, answer), hj, rfl⟩

/-- Any order of completion is put into the same order. -/
theorem inOrder_perm (h : Completed platforms answers) (hperm : answers'.Perm answers) :
    inOrder answers' = inOrder answers := by
  have hnodup : (answers.map Prod.fst).Nodup := h.nodup_iff.mpr List.nodup_range
  refine List.Perm.eq_of_pairwise ?_ (pairwise_inOrder answers') (pairwise_inOrder answers)
    (((List.perm_insertionSort _ answers').trans hperm).trans (List.perm_insertionSort _ answers).symm)
  intro a b ha hb hab hba
  have ha' : a ∈ answers := hperm.mem_iff.mp ((List.mem_insertionSort _).mp ha)
  have hb' : b ∈ answers := (List.mem_insertionSort _).mp hb
  exact List.inj_on_of_nodup_map hnodup ha' hb' (Nat.le_antisymm hab hba)

variable {U : Type} [UrlCrate U] [SemverCrate] {key : VersionKey}

/-- The result at a place is the accepted or refused answer for the platform
listed there. -/
theorem packageResults_getElem (h : Completed platforms answers) {i : ℕ}
    {result : Except MetadataError PlatformMetadata} :
    (packageResults U key platforms answers)[i]? = some result ↔
      ∃ platform answer, platforms[i]? = some platform ∧ (i, answer) ∈ answers ∧
        acceptPackage U key platform answer = result := by
  unfold packageResults
  rw [List.getElem?_zipWith_eq_some]
  constructor
  · intro hsome
    obtain ⟨platform, answer, hplatform, hanswer, hresult⟩ := hsome
    exact ⟨platform, answer, hplatform, (inOrder_getElem h).mp hanswer, hresult⟩
  · intro hsome
    obtain ⟨platform, answer, hplatform, hanswer, hresult⟩ := hsome
    exact ⟨platform, answer, hplatform, (inOrder_getElem h).mpr hanswer, hresult⟩

theorem packageResults_perm (h : Completed platforms answers) (hperm : answers'.Perm answers) :
    packageResults U key platforms answers' = packageResults U key platforms answers := by
  have horder : inOrder answers' = inOrder answers := inOrder_perm h hperm
  unfold inOrder at horder
  unfold packageResults
  rw [horder]

end Answers

section Packages

variable {U : Type} [UrlCrate U] [SemverCrate] {key : VersionKey}

/-- A validated package names the platform that was asked for. -/
theorem validatePackage_platform {key : VersionKey} {requested : RegistryPlatform}
    {package : PlatformMetadata} (h : validatePackage U key requested package = .ok ()) :
    requested = ⟨package.os, package.arch⟩ := by
  unfold validatePackage at h
  split at h
  · cases h
  · next hplatform =>
      simp only [Bool.or_eq_true, decide_eq_true_eq, not_or, not_not] at hplatform
      rw [hplatform.1, hplatform.2]

/-- A result is a package that was validated. -/
theorem packageResults_mem {key : VersionKey} {platforms : List RegistryPlatform}
    {answers : List (ℕ × Except RegistryError PlatformMetadata)} {package : PlatformMetadata}
    (h : .ok package ∈ packageResults U key platforms answers) :
    validatePackage U key ⟨package.os, package.arch⟩ package = .ok () := by
  unfold packageResults at h
  rw [← List.map_uncurry_zip_eq_zipWith] at h
  obtain ⟨⟨platform, answer⟩, -, haccept⟩ := List.mem_map.mp h
  change acceptPackage U key platform answer = .ok package at haccept
  cases answer with
  | error error => cases haccept
  | ok fetched =>
    unfold acceptPackage at haccept
    dsimp only at haccept
    cases hvalid : validatePackage U key platform fetched with
    | error error =>
      rw [hvalid] at haccept
      cases haccept
    | ok value =>
      rw [hvalid] at haccept
      cases haccept
      rw [← validatePackage_platform hvalid]
      exact hvalid

end Packages

section Merging

/-- The platform that a package is for. -/
def platformOf (package : PlatformMetadata) : RegistryPlatform := ⟨package.os, package.arch⟩

/-- The cached package of a platform. -/
def cachedFor (cached : Option VersionEntry) (platform : RegistryPlatform) :
    Option PlatformMetadata :=
  cached.bind fun entry => entry.value.platforms.find? fun item => platformOf item = platform

/-- Every package stands under its own platform. -/
def Keyed (refreshed : AList fun _ : String × String => PlatformMetadata) : Prop :=
  ∀ platform package, refreshed.lookup platform = some package →
    (package.os, package.arch) = platform

theorem refreshedPackages_concat (results : List (Except MetadataError PlatformMetadata))
    (result : Except MetadataError PlatformMetadata) :
    refreshedPackages (results ++ [result]) =
      match result with
      | .ok package => (refreshedPackages results).insert (package.os, package.arch) package
      | .error _ => refreshedPackages results := by
  unfold refreshedPackages
  rw [List.foldl_append]
  rfl

/-- Packages that a refresh uses were fetched, each for its platform. -/
theorem refreshedPackages_some {results : List (Except MetadataError PlatformMetadata)}
    {platform : String × String} {package : PlatformMetadata}
    (h : (refreshedPackages results).lookup platform = some package) :
    .ok package ∈ results ∧ (package.os, package.arch) = platform := by
  induction results using List.reverseRecOn with
  | nil => cases h
  | append_singleton results result ih =>
    rw [refreshedPackages_concat] at h
    cases result with
    | error error =>
      obtain ⟨hmem, hplatform⟩ := ih h
      exact ⟨List.mem_append_left _ hmem, hplatform⟩
    | ok package' =>
      rcases lookup_insert_cases h with ⟨hplatform, heq⟩ | ⟨-, hlookup⟩
      · rw [heq]
        exact ⟨List.mem_append_right _ List.mem_cons_self, hplatform.symm⟩
      · obtain ⟨hmem, hplatform⟩ := ih hlookup
        exact ⟨List.mem_append_left _ hmem, hplatform⟩

/-- What was fetched for a platform is not missing. -/
theorem refreshedPackages_ne_none {results : List (Except MetadataError PlatformMetadata)}
    {package : PlatformMetadata} (h : .ok package ∈ results) :
    (refreshedPackages results).lookup (package.os, package.arch) ≠ none := by
  induction results using List.reverseRecOn with
  | nil => cases h
  | append_singleton results result ih =>
    rw [refreshedPackages_concat]
    cases result with
    | error error =>
      rcases List.mem_append.mp h with hmem | hmem
      · exact ih hmem
      · cases List.mem_singleton.mp hmem
    | ok package' =>
      dsimp only
      by_cases heq : (package.os, package.arch) = (package'.os, package'.arch)
      · rw [heq, AList.lookup_insert]
        exact nofun
      · rw [AList.lookup_insert_ne heq]
        rcases List.mem_append.mp h with hmem | hmem
        · exact ih hmem
        · cases List.mem_singleton.mp hmem
          exact absurd rfl heq

theorem keyed_refreshedPackages (results : List (Except MetadataError PlatformMetadata)) :
    Keyed (refreshedPackages results) := fun _ _ h => (refreshedPackages_some h).2

theorem keyed_erase {refreshed : AList fun _ : String × String => PlatformMetadata}
    (h : Keyed refreshed) (platform : String × String) : Keyed (refreshed.erase platform) := by
  intro other package hlookup
  by_cases heq : other = platform
  · rw [heq, AList.lookup_erase] at hlookup
    cases hlookup
  · rw [AList.lookup_erase_ne heq] at hlookup
    exact h other package hlookup

variable {cached : Option VersionEntry} {valid : List (String × String)}
variable {refreshed : AList fun _ : String × String => PlatformMetadata}
variable {platforms : List RegistryPlatform} {platform : RegistryPlatform}
variable {item : PlatformMetadata}

theorem cachedPlatform_platform (h : cachedPlatform cached valid platform = some item) :
    platformOf item = platform := by
  obtain ⟨entry, -, hfind⟩ := Option.bind_eq_some_iff.mp h
  have hitem := List.find?_some hfind
  simp only [Bool.and_eq_true, decide_eq_true_eq] at hitem
  unfold platformOf
  rw [hitem.1.1, hitem.1.2]

/-- For a listed platform the check against the listing changes nothing. -/
theorem cachedPlatform_listed (h : platform ∈ platforms) :
    cachedPlatform cached (platforms.map fun platform => (platform.os, platform.arch)) platform =
      cachedFor cached platform := by
  unfold cachedPlatform cachedFor
  congr 1
  funext entry
  congr 1
  funext candidate
  have hlisted : (platform.os, platform.arch) ∈
      platforms.map fun platform => (platform.os, platform.arch) := List.mem_map_of_mem h
  rw [Bool.eq_iff_iff]
  simp only [Bool.and_eq_true, decide_eq_true_eq]
  constructor
  · rintro ⟨⟨hos, harch⟩, -⟩
    unfold platformOf
    rw [hos, harch]
  · intro heq
    rw [← heq] at hlisted ⊢
    exact ⟨⟨rfl, rfl⟩, hlisted⟩

/-- Without a cached package for a platform listed twice, the merge has the
fetched package of every platform, and the cached one where none was fetched. -/
theorem mem_mergePlatforms
    (hrepeated : ∀ platform, 1 < platforms.count platform →
      cachedPlatform cached valid platform = none) :
    item ∈ mergePlatforms cached valid refreshed platforms ↔
      ∃ platform ∈ platforms, refreshed.lookup (platform.os, platform.arch) = some item ∨
        refreshed.lookup (platform.os, platform.arch) = none ∧
          cachedPlatform cached valid platform = some item := by
  induction platforms generalizing refreshed with
  | nil => simp [mergePlatforms]
  | cons first rest ih =>
    have hrest : ∀ platform, 1 < rest.count platform →
        cachedPlatform cached valid platform = none := fun platform hcount =>
      hrepeated platform (Nat.lt_of_lt_of_le hcount List.count_le_count_cons)
    have hagain : first ∈ rest → cachedPlatform cached valid first = none := by
      intro hmem
      have hcount : 0 < rest.count first := List.count_pos_iff.mpr hmem
      refine hrepeated first ?_
      rw [List.count_cons_self]
      omega
    unfold mergePlatforms
    cases hlookup : refreshed.lookup (first.os, first.arch) with
    | none =>
      dsimp only
      rw [List.mem_append, Option.mem_toList, ih hrest, List.exists_mem_cons_iff, hlookup]
      simp
    | some package =>
      have hother : ∀ platform, platform ≠ first →
          (refreshed.erase (first.os, first.arch)).lookup (platform.os, platform.arch) =
            refreshed.lookup (platform.os, platform.arch) := by
        intro platform hne
        refine AList.lookup_erase_ne fun heq => hne ?_
        cases platform
        cases first
        simpa using heq
      dsimp only
      rw [List.mem_cons, ih hrest, List.exists_mem_cons_iff, hlookup]
      constructor
      · rintro (rfl | ⟨platform, hmem, hfound⟩)
        · exact .inl (.inl rfl)
        · by_cases heq : platform = first
          · rw [heq, AList.lookup_erase, hagain (heq ▸ hmem)] at hfound
            simp at hfound
          · rw [hother platform heq] at hfound
            exact .inr ⟨platform, hmem, hfound⟩
      · rintro ((heq | ⟨hnone, -⟩) | ⟨platform, hmem, hfound⟩)
        · exact .inl (Option.some.inj heq).symm
        · cases hnone
        · by_cases heq : platform = first
          · rw [heq, hlookup, hagain (heq ▸ hmem)] at hfound
            rcases hfound with hfound | ⟨hnone, -⟩
            · exact .inl (Option.some.inj hfound).symm
            · cases hnone
          · rw [← hother platform heq] at hfound
            exact .inr ⟨platform, hmem, hfound⟩

/-- A merged package is for a listed platform, and it is the fetched one, or the
cached one when none was fetched. -/
theorem of_mem_mergePlatforms (hkeyed : Keyed refreshed)
    (hrepeated : ∀ platform, 1 < platforms.count platform →
      cachedPlatform cached valid platform = none)
    (h : item ∈ mergePlatforms cached valid refreshed platforms) :
    platformOf item ∈ platforms ∧ (refreshed.lookup (item.os, item.arch) = some item ∨
      refreshed.lookup (item.os, item.arch) = none ∧
        cachedPlatform cached valid (platformOf item) = some item) := by
  obtain ⟨platform, hmem, hfound⟩ := (mem_mergePlatforms hrepeated).mp h
  have hplatform : platformOf item = platform := by
    rcases hfound with hlookup | ⟨-, hcached⟩
    · have hpair := hkeyed _ _ hlookup
      cases platform
      simpa [platformOf] using hpair
    · exact cachedPlatform_platform hcached
  rw [← hplatform] at hmem hfound
  exact ⟨hmem, hfound⟩

/-- No platform is merged twice. -/
theorem nodup_mergePlatforms (hkeyed : Keyed refreshed)
    (hrepeated : ∀ platform, 1 < platforms.count platform →
      cachedPlatform cached valid platform = none) :
    ((mergePlatforms cached valid refreshed platforms).map platformOf).Nodup := by
  induction platforms generalizing refreshed with
  | nil => exact List.nodup_nil
  | cons first rest ih =>
    have hrest : ∀ platform, 1 < rest.count platform →
        cachedPlatform cached valid platform = none := fun platform hcount =>
      hrepeated platform (Nat.lt_of_lt_of_le hcount List.count_le_count_cons)
    have hagain : first ∈ rest → cachedPlatform cached valid first = none := by
      intro hmem
      have hcount : 0 < rest.count first := List.count_pos_iff.mpr hmem
      refine hrepeated first ?_
      rw [List.count_cons_self]
      omega
    -- what follows in the list is not for the first platform again
    have hfresh : ∀ refreshed' : AList fun _ : String × String => PlatformMetadata,
        Keyed refreshed' → refreshed'.lookup (first.os, first.arch) = none →
        first ∉ (mergePlatforms cached valid refreshed' rest).map platformOf := by
      intro refreshed' hkeyed' hnone hmem
      obtain ⟨other, hother, hplatform⟩ := List.mem_map.mp hmem
      obtain ⟨hlisted, hfound⟩ := of_mem_mergePlatforms hkeyed' hrest hother
      rw [hplatform] at hlisted hfound
      have hpair : (other.os, other.arch) = (first.os, first.arch) := by
        rw [← hplatform]
        rfl
      rw [hpair, hnone, hagain hlisted] at hfound
      simp at hfound
    unfold mergePlatforms
    cases hlookup : refreshed.lookup (first.os, first.arch) with
    | some package =>
      have hplatform : platformOf package = first := by
        have hpair := hkeyed _ _ hlookup
        cases first
        simpa [platformOf] using hpair
      dsimp only
      rw [List.map_cons, hplatform]
      exact List.nodup_cons.mpr ⟨hfresh _ (keyed_erase hkeyed _) (AList.lookup_erase _ _),
        ih (keyed_erase hkeyed _) hrest⟩
    | none =>
      dsimp only
      cases hcached : cachedPlatform cached valid first with
      | none => exact ih hkeyed hrest
      | some kept =>
        rw [Option.toList_some, List.singleton_append, List.map_cons,
          cachedPlatform_platform hcached]
        exact List.nodup_cons.mpr ⟨hfresh _ hkeyed hlookup, ih hkeyed hrest⟩

/-- A platform with a cached package is merged as often as it is listed. -/
theorem count_mergePlatforms {kept : PlatformMetadata} (hkeyed : Keyed refreshed)
    (hcached : cachedPlatform cached valid platform = some kept) :
    ((mergePlatforms cached valid refreshed platforms).map platformOf).count platform =
      platforms.count platform := by
  induction platforms generalizing refreshed with
  | nil => rfl
  | cons first rest ih =>
    unfold mergePlatforms
    cases hlookup : refreshed.lookup (first.os, first.arch) with
    | some package =>
      have hplatform : platformOf package = first := by
        have hpair := hkeyed _ _ hlookup
        cases first
        simpa [platformOf] using hpair
      dsimp only
      rw [List.map_cons, hplatform, List.count_cons, List.count_cons, ih (keyed_erase hkeyed _)]
    | none =>
      dsimp only
      rw [List.map_append, List.count_append, ih hkeyed, List.count_cons, Nat.add_comm]
      congr 1
      by_cases heq : first = platform
      · rw [heq, hcached]
        simp [cachedPlatform_platform hcached]
      · cases hfirst : cachedPlatform cached valid first with
        | none => simp [heq]
        | some other => simp [cachedPlatform_platform hfirst, heq]

end Merging

section Members

/-- A merged platform was fetched or is the cached one. -/
theorem mergePlatforms_mem {cached : Option VersionEntry} {valid : List (String × String)}
    {refreshed : AList fun _ : String × String => PlatformMetadata}
    {platforms : List RegistryPlatform} {package : PlatformMetadata}
    (h : package ∈ mergePlatforms cached valid refreshed platforms) :
    (∃ platform, refreshed.lookup platform = some package) ∨
      ∃ entry, cached = some entry ∧ package ∈ entry.value.platforms := by
  induction platforms generalizing refreshed with
  | nil => cases h
  | cons platform rest ih =>
    unfold mergePlatforms at h
    cases hlookup : refreshed.lookup (platform.os, platform.arch) with
    | some fetched =>
      rw [hlookup] at h
      rcases List.mem_cons.mp h with heq | hrest
      · exact .inl ⟨_, heq ▸ hlookup⟩
      · rcases ih hrest with ⟨other, hother⟩ | hcached
        · refine .inl ⟨other, ?_⟩
          by_cases heq : other = (platform.os, platform.arch)
          · rw [heq, AList.lookup_erase] at hother
            cases hother
          · rwa [AList.lookup_erase_ne heq] at hother
        · exact .inr hcached
    | none =>
      rw [hlookup] at h
      rcases List.mem_append.mp h with hmem | hrest
      · obtain ⟨entry, hentry, hfind⟩ := Option.bind_eq_some_iff.mp (Option.mem_toList.mp hmem)
        exact .inr ⟨entry, hentry, List.mem_of_find?_eq_some hfind⟩
      · exact ih hrest

/-- Each listed platform yields at most one. -/
theorem mergePlatforms_length (cached : Option VersionEntry) (valid : List (String × String))
    (refreshed : AList fun _ : String × String => PlatformMetadata)
    (platforms : List RegistryPlatform) :
    (mergePlatforms cached valid refreshed platforms).length ≤ platforms.length := by
  induction platforms generalizing refreshed with
  | nil => exact Nat.le_refl _
  | cons platform rest ih =>
    unfold mergePlatforms
    split
    · have hrest := ih (refreshed.erase (platform.os, platform.arch))
      simp only [List.length_cons]
      omega
    · have hrest := ih refreshed
      have hone : (cachedPlatform cached valid platform).toList.length ≤ 1 := by
        cases cachedPlatform cached valid platform with
        | none => exact Nat.zero_le _
        | some package => exact Nat.le_refl _
      simp only [List.length_append, List.length_cons]
      omega

/-- Without a fetched package nothing is merged just when no listed platform has a
cached one. -/
theorem mergePlatforms_eq_nil {cached : Option VersionEntry} {valid : List (String × String)}
    {refreshed : AList fun _ : String × String => PlatformMetadata}
    {platforms : List RegistryPlatform} (h : ∀ platform, refreshed.lookup platform = none) :
    mergePlatforms cached valid refreshed platforms = [] ↔
      ∀ platform ∈ platforms, cachedPlatform cached valid platform = none := by
  induction platforms with
  | nil => simp [mergePlatforms]
  | cons first rest ih =>
    unfold mergePlatforms
    rw [h]
    dsimp only
    rw [List.append_eq_nil_iff, Option.toList_eq_nil_iff, ih, List.forall_mem_cons]

end Members

section Results

variable {results : List (Except MetadataError PlatformMetadata)}

theorem firstError_mem {error : MetadataError} (h : firstError results = some error) :
    .error error ∈ results := by
  induction results with
  | nil => cases h
  | cons result rest ih =>
    cases result with
    | ok package => exact List.mem_cons_of_mem _ (ih h)
    | error error' =>
      cases h
      exact List.mem_cons_self

theorem firstError_eq_none :
    firstError results = none ↔ ∀ result ∈ results, ∃ package, result = .ok package := by
  induction results with
  | nil => simp [firstError]
  | cons result rest ih =>
    cases result with
    | ok package => simp [firstError, ih]
    | error error => simp [firstError]

/-- The merged entry has the merged platforms, and is complete without an error. -/
theorem mergeVersion_ok {key : VersionKey} {cached : Option VersionEntry}
    {platforms : List RegistryPlatform} {complete : Bool} {value : VersionMetadata}
    (h : mergeVersion key cached platforms results = .ok (complete, value)) :
    complete = (firstError results).isNone ∧
      value.platforms = mergePlatforms cached
        (platforms.map fun platform => (platform.os, platform.arch)) (refreshedPackages results)
        platforms := by
  unfold mergeVersion at h
  dsimp only at h
  split at h
  · cases h
  · cases h
    exact ⟨rfl, rfl⟩

end Results

section Merged

variable (U : Type) [UrlCrate U] [SemverCrate] (key : VersionKey) (cached : Option VersionEntry)
variable (listed : List RegistryPlatform)
variable (answers : List (ℕ × Except RegistryError PlatformMetadata))

/-- The package was fetched for a listed platform, and accepted. -/
def Fetched (package : PlatformMetadata) : Prop :=
  ∃ i platform answer, listed[i]? = some platform ∧ (i, answer) ∈ answers ∧
    acceptPackage U key platform answer = .ok package

/-- No fetch failed. -/
def AllFetched : Prop :=
  ∀ i platform answer, listed[i]? = some platform → (i, answer) ∈ answers →
    ∃ package, acceptPackage U key platform answer = .ok package

/-- What the merged entry should contain: listed platforms, each at most once, a
fetched package where there is one, and else the cached one if there is one. -/
structure Merged (complete : Bool) (platforms : List PlatformMetadata) : Prop where
  offered : ∀ item ∈ platforms, platformOf item ∈ listed
  once : (platforms.map platformOf).Nodup
  fresh : ∀ package, Fetched U key listed answers package →
    (∃ item ∈ platforms, platformOf item = platformOf package) ∧
      ∀ item ∈ platforms, platformOf item = platformOf package → Fetched U key listed answers item
  kept : ∀ platform ∈ listed,
    (∀ package, Fetched U key listed answers package → platformOf package ≠ platform) →
      ∀ item, item ∈ platforms ∧ platformOf item = platform ↔ cachedFor cached platform = some item
  flag : complete = true ↔ AllFetched U key listed answers

/-- No platform that is listed more than once has a cached package. -/
def NoneRepeated (cached : Option VersionEntry) (listed : List RegistryPlatform) : Prop :=
  ∀ platform, 1 < listed.count platform → cachedFor cached platform = none

variable {U key cached listed answers}

/-- A package is accepted when it was answered and is valid for its platform. -/
theorem acceptPackage_ok {platform : RegistryPlatform}
    {answer : Except RegistryError PlatformMetadata} {package : PlatformMetadata}
    (h : acceptPackage U key platform answer = .ok package) : platformOf package = platform := by
  unfold acceptPackage at h
  cases answer with
  | error error => cases h
  | ok fetched =>
    dsimp only at h
    cases hvalid : validatePackage U key platform fetched with
    | error error =>
      rw [hvalid] at h
      cases h
    | ok value =>
      rw [hvalid] at h
      cases h
      exact (validatePackage_platform hvalid).symm

theorem mem_packageResults (h : Completed listed answers) {package : PlatformMetadata} :
    .ok package ∈ packageResults U key listed answers ↔ Fetched U key listed answers package := by
  rw [List.mem_iff_getElem?]
  simp only [packageResults_getElem h]
  rfl

theorem fetched_listed {package : PlatformMetadata} (h : Fetched U key listed answers package) :
    platformOf package ∈ listed := by
  obtain ⟨i, platform, answer, hplatform, -, haccept⟩ := h
  rw [acceptPackage_ok haccept]
  exact List.mem_of_getElem? hplatform

/-- No error among the results means that no fetch failed. -/
theorem allFetched_iff (h : Completed listed answers) :
    firstError (packageResults U key listed answers) = none ↔ AllFetched U key listed answers := by
  rw [firstError_eq_none]
  constructor
  · intro hall i platform answer hplatform hanswer
    have hresult : (packageResults U key listed answers)[i]? =
        some (acceptPackage U key platform answer) :=
      (packageResults_getElem h).mpr ⟨platform, answer, hplatform, hanswer, rfl⟩
    exact hall _ (List.mem_of_getElem? hresult)
  · intro hall result hresult
    obtain ⟨i, hi⟩ := List.mem_iff_getElem?.mp hresult
    obtain ⟨platform, answer, hplatform, hanswer, haccept⟩ := (packageResults_getElem h).mp hi
    rw [← haccept]
    exact hall i platform answer hplatform hanswer

/-- The merged entry is right just when no platform that is listed more than once
has a cached package. -/
theorem merged_iff {complete : Bool} {value : VersionMetadata} (h : Completed listed answers)
    (hmerge : mergeVersion key cached listed (packageResults U key listed answers) =
      .ok (complete, value)) :
    Merged U key cached listed answers complete value.platforms ↔ NoneRepeated cached listed := by
  obtain ⟨hcomplete, hplatforms⟩ := mergeVersion_ok hmerge
  have hkeyed : Keyed (refreshedPackages (packageResults U key listed answers)) :=
    keyed_refreshedPackages _
  rw [hplatforms]
  constructor
  · intro hmerged platform hcount
    cases hkept : cachedFor cached platform with
    | none => rfl
    | some kept =>
      have hlisted : platform ∈ listed := List.count_pos_iff.mp (by omega)
      rw [← cachedPlatform_listed hlisted] at hkept
      have honce := List.nodup_iff_count_le_one.mp hmerged.once platform
      rw [count_mergePlatforms hkeyed hkept] at honce
      omega
  · intro hnone
    have hrepeated : ∀ platform, 1 < listed.count platform →
        cachedPlatform cached (listed.map fun platform => (platform.os, platform.arch)) platform =
          none := by
      intro platform hcount
      have hlisted : platform ∈ listed := List.count_pos_iff.mp (by omega)
      rw [cachedPlatform_listed hlisted]
      exact hnone platform hcount
    have hfetched : ∀ {item : PlatformMetadata} {platform},
        (refreshedPackages (packageResults U key listed answers)).lookup platform = some item →
          Fetched U key listed answers item := fun hlookup =>
      (mem_packageResults h).mp (refreshedPackages_some hlookup).1
    refine ⟨?_, nodup_mergePlatforms hkeyed hrepeated, ?_, ?_, ?_⟩
    · intro item hitem
      exact (of_mem_mergePlatforms hkeyed hrepeated hitem).1
    · intro package hpackage
      have hne := refreshedPackages_ne_none ((mem_packageResults h).mpr hpackage)
      constructor
      · obtain ⟨item, hlookup⟩ := Option.ne_none_iff_exists'.mp hne
        have hpair := hkeyed _ _ hlookup
        refine ⟨item, (mem_mergePlatforms hrepeated).mpr
          ⟨platformOf package, fetched_listed hpackage, .inl hlookup⟩, ?_⟩
        simpa [platformOf] using hpair
      · intro item hitem hplatform
        have hpair : (item.os, item.arch) = (package.os, package.arch) := by
          simpa [platformOf] using hplatform
        rcases (of_mem_mergePlatforms hkeyed hrepeated hitem).2 with hlookup | ⟨hmissing, -⟩
        · exact hfetched hlookup
        · rw [hpair] at hmissing
          exact absurd hmissing hne
    · intro platform hlisted hmissing item
      have hlookup : (refreshedPackages (packageResults U key listed answers)).lookup
          (platform.os, platform.arch) = none := by
        by_contra hne
        obtain ⟨package, hlookup⟩ := Option.ne_none_iff_exists'.mp hne
        refine hmissing package (hfetched hlookup) ?_
        have hpair := hkeyed _ _ hlookup
        cases platform
        simpa [platformOf] using hpair
      constructor
      · rintro ⟨hitem, rfl⟩
        rcases (of_mem_mergePlatforms hkeyed hrepeated hitem).2 with hsome | ⟨-, hcached⟩
        · exact absurd rfl (hmissing item (hfetched hsome))
        · rwa [cachedPlatform_listed hlisted] at hcached
      · intro hcached
        rw [← cachedPlatform_listed hlisted] at hcached
        exact ⟨(mem_mergePlatforms hrepeated).mpr ⟨platform, hlisted, .inr ⟨hlookup, hcached⟩⟩,
          cachedPlatform_platform hcached⟩
    · rw [hcomplete, Option.isNone_iff_eq_none]
      exact allFetched_iff h

variable (U key listed answers) in
/-- The fetch for a listed platform failed with this error. -/
def FailedWith (error : MetadataError) : Prop :=
  ∃ i platform answer, listed[i]? = some platform ∧ (i, answer) ∈ answers ∧
    acceptPackage U key platform answer = .error error

theorem failedWith_of_firstError (h : Completed listed answers) {error : MetadataError}
    (herror : firstError (packageResults U key listed answers) = some error) :
    FailedWith U key listed answers error := by
  obtain ⟨i, hi⟩ := List.mem_iff_getElem?.mp (firstError_mem herror)
  exact ⟨i, (packageResults_getElem h).mp hi⟩

/-- The errors of a fetch are those of the registry and of the checks. -/
theorem FailedWith.not_written {error : MetadataError}
    (h : FailedWith U key listed answers error) :
    (∀ e, error ≠ .io e) ∧ ∀ message, error ≠ .json message := by
  obtain ⟨i, platform, answer, -, -, haccept⟩ := h
  unfold acceptPackage at haccept
  cases answer with
  | error given =>
    cases haccept
    cases given with
    | notFound => exact ⟨nofun, nofun⟩
    | _ => exact ⟨nofun, nofun⟩
  | ok package =>
    dsimp only at haccept
    cases hvalid : validatePackage U key platform package with
    | ok value =>
      rw [hvalid] at haccept
      cases haccept
    | error error' =>
      rw [hvalid] at haccept
      obtain ⟨field, hfield⟩ := validatePackage_namesField U key platform package error' hvalid
      cases haccept
      rw [hfield]
      exact ⟨nofun, nofun⟩

/-- When nothing was fetched, the merge fails just when no listed platform has a
cached package, and then with the error of a fetch. -/
theorem mergeVersion_unfetched (h : Completed listed answers) (hlisted : listed ≠ [])
    (hnone : ∀ package, ¬ Fetched U key listed answers package) :
    ((∀ platform ∈ listed, cachedFor cached platform = none) →
      ∃ error, FailedWith U key listed answers error ∧
        mergeVersion key cached listed (packageResults U key listed answers) = .error error) ∧
    ((∃ error, mergeVersion key cached listed (packageResults U key listed answers) =
      .error error) → ∀ platform ∈ listed, cachedFor cached platform = none) := by
  have hempty : ∀ platform,
      (refreshedPackages (packageResults U key listed answers)).lookup platform = none := by
    intro platform
    cases hlookup : (refreshedPackages (packageResults U key listed answers)).lookup platform with
    | none => rfl
    | some package =>
      exact absurd ((mem_packageResults h).mp (refreshedPackages_some hlookup).1) (hnone package)
  have hmerged : mergePlatforms cached
      (listed.map fun platform => (platform.os, platform.arch))
      (refreshedPackages (packageResults U key listed answers)) listed = [] ↔
        ∀ platform ∈ listed, cachedFor cached platform = none := by
    rw [mergePlatforms_eq_nil hempty]
    exact forall₂_congr fun platform hplatform => by rw [cachedPlatform_listed hplatform]
  have hfirst : ∃ error, firstError (packageResults U key listed answers) = some error := by
    cases herror : firstError (packageResults U key listed answers) with
    | some error => exact ⟨error, rfl⟩
    | none =>
      have hpos : 0 < listed.length := List.length_pos_iff.mpr hlisted
      have hzero : 0 ∈ answers.map Prod.fst := h.mem_iff.mpr (List.mem_range.mpr hpos)
      obtain ⟨⟨i, answer⟩, hanswer, rfl⟩ := List.mem_map.mp hzero
      have hplatform : listed[0]? = some listed[0] := List.getElem?_eq_getElem hpos
      obtain ⟨package, haccept⟩ := (allFetched_iff h).mp herror 0 listed[0] answer hplatform hanswer
      exact absurd ⟨0, listed[0], answer, hplatform, hanswer, haccept⟩ (hnone package)
  constructor
  · intro hcached
    obtain ⟨error, herror⟩ := hfirst
    refine ⟨error, failedWith_of_firstError h herror, ?_⟩
    unfold mergeVersion
    dsimp only
    rw [hmerged.mpr hcached, herror]
  · rintro ⟨error, herror⟩
    refine hmerged.mp ?_
    unfold mergeVersion at herror
    dsimp only at herror
    split at herror
    · assumption
    · cases herror

end Merged

end OpenTfMirror.VersionMerge
