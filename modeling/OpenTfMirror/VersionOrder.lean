import OpenTfMirror.ComparedLists
import OpenTfMirror.MetadataService

/-!
# The list of versions

Semantic versions come first in their own order, other texts after them in
plain order. The list that clients see is determined by the set of normalized
versions, however the index and the hash set that removes repetitions are
ordered.
-/

namespace OpenTfMirror.VersionOrder

open ComparedLists Outbound Provider Metadata MetadataService

variable [SemverCrate]

/-- The versions that parse are totally ordered, and each has one text. -/
def SemverOrder : Prop := OrderOn SemverCrate.valid true SemverCrate.compare

theorem compareVersions_glue :
    compareVersions = glue SemverCrate.valid SemverCrate.compare (compare : String → String → Ordering) := by
  funext a b
  unfold compareVersions glue
  rfl

theorem transCmp_compareVersions (h : SemverOrder) : Std.TransCmp compareVersions := by
  rw [compareVersions_glue]
  exact transCmp_glue h (orderOn_of_lawful _ _)

theorem lawfulEqCmp_compareVersions (h : SemverOrder) : Std.LawfulEqCmp compareVersions := by
  rw [compareVersions_glue]
  exact lawfulEqCmp_glue h (orderOn_of_lawful _ _)

/-- What is listed stems from an item. -/
theorem mem_sortedVersions {index : List RegistryVersion} {w : String} :
    w ∈ sortedVersions index ↔ ∃ item ∈ index, normalizeVersion item.version = w := by
  unfold sortedVersions
  rw [List.mem_insertionSort, List.mem_dedup, List.mem_map]

theorem nodup_sortedVersions (index : List RegistryVersion) : (sortedVersions index).Nodup := by
  unfold sortedVersions
  have hnodup := List.nodup_dedup (index.map fun item => normalizeVersion item.version)
  exact (List.perm_insertionSort _ _).nodup_iff.mpr hnodup

/-- An order in which the hash set of the normalized versions may be iterated. -/
structure Hashed (index : List RegistryVersion) (hashed : List String) : Prop where
  nodup : hashed.Nodup
  mem : ∀ version, version ∈ hashed ↔ ∃ item ∈ index, normalizeVersion item.version = version

/-- A list that sorting by `compare_versions` may return. -/
structure SortedFrom (hashed sorted : List String) : Prop where
  perm : sorted.Perm hashed
  sorted : sorted.Pairwise fun a b => compareVersions a b ≠ .gt

section Plain

/-- A table of the versions that parse, in their order. -/
@[reducible] def tableSemver (table : List String) : SemverCrate where
  valid text := decide (text ∈ table)
  compare a b := compare (table.idxOf a) (table.idxOf b)

omit [SemverCrate] in
/-- The order of a table is total. -/
theorem tableSemver_order (table : List String) : @SemverOrder (tableSemver table) := by
  have hcompare : Std.TransCmp (compare : ℕ → ℕ → Ordering) := inferInstance
  refine @OrderOn.mk String (fun text => decide (text ∈ table)) true
    (fun a b => compare (table.idxOf a) (table.idxOf b)) ?_ ?_ ?_
  · intro a b _ _
    exact Std.OrientedCmp.eq_swap
  · intro a b c _ _ _ hab hbc
    exact hcompare.isLE_trans hab hbc
  · intro a b ha _ h
    have hmem : a ∈ table := by simpa using ha
    have hindex : table.idxOf a = table.idxOf b := Std.LawfulEqCmp.eq_of_compare h
    exact (List.idxOf_inj hmem).mp hindex

/-- Releases and a prerelease. -/
def plainTable : List String := ["1.9.0", "1.10.0-beta.1", "1.10.0"]

/-- Prefixes, repetitions and texts that are no semantic versions. -/
def plainListing : List RegistryVersion :=
  ["nightly", "v1.10.0", "1.9.0", "1.10.0", "edge", "1.10.0-beta.1"].map fun version => ⟨version, []⟩

end Plain

end OpenTfMirror.VersionOrder
