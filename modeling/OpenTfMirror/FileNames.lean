import OpenTfMirror.TextOps

/-!
# Paths and temporary file names

A path is the list of its components. Temporary files are named after a base
name, the process and a sequence number; the number can be read off the name,
and no published file has such a name.
-/

namespace OpenTfMirror.FileNames

open TextOps

/-- Components from the root down. -/
abbrev Path := List String

/-- `.{base}-{pid}-{sequence}.tmp`. -/
def tempName (base : String) (pid sequence : ℕ) : String :=
  "." ++ base ++ "-" ++ toString pid ++ "-" ++ toString sequence ++ ".tmp"

/-- Decimal digits contain no separator. -/
theorem dash_not_mem_digits (n : ℕ) : '-' ∉ (toString n).toList := by
  have hdigits : ∀ c ∈ (toString n).toList, c.isDigit = true := by
    intro c hc
    exact Nat.isDigit_of_mem_toDigits (b := 10) (n := n) (by omega) (by omega) (by simpa using hc)
  intro hmem
  have hdash := hdigits '-' hmem
  simp [Char.isDigit] at hdash

/-- Different numbers are written differently. -/
theorem digits_inj {m n : ℕ} (h : toString m = toString n) : m = n := by
  have hdigits : Nat.toDigits 10 m = Nat.toDigits 10 n := by
    have hlist := congrArg String.toList h
    simpa using hlist
  have hm := Nat.ofDigitChars_toDigits (b := 10) (n := m) (by omega) (by omega)
  rw [hdigits, Nat.ofDigitChars_toDigits (by omega) (by omega)] at hm
  exact hm.symm

/-- Equally long endings of equal strings are equal. -/
theorem eq_of_append_eq {a b x y : String} (hlen : x.toList.length = y.toList.length)
    (h : a ++ x = b ++ y) : a = b ∧ x = y := by
  have hlist : a.toList ++ x.toList = b.toList ++ y.toList := by
    rw [← String.toList_append, ← String.toList_append, h]
  obtain ⟨ha, hx⟩ := List.append_inj' hlist hlen
  exact ⟨String.toList_inj.mp ha, String.toList_inj.mp hx⟩

/-- The sequence number determines part of the name. -/
theorem tempName_sequence {base base' : String} {pid pid' n n' : ℕ}
    (h : tempName base pid n = tempName base' pid' n') : n = n' := by
  obtain ⟨hstem, -⟩ := eq_of_append_eq rfl h
  have hsplit : ∀ (b : String) (p m : ℕ),
      rsplitOnce '-' ("." ++ b ++ "-" ++ toString p ++ "-" ++ toString m) =
        some ("." ++ b ++ "-" ++ toString p, toString m) :=
    fun b p m => rsplitOnce_eq_some.mpr ⟨rfl, dash_not_mem_digits m⟩
  have hpair := (hsplit base pid n).symm.trans ((congrArg _ hstem).trans (hsplit base' pid' n'))
  simp only [Option.some.injEq, Prod.mk.injEq] at hpair
  exact digits_inj hpair.2

/-- A name with another ending is no temporary name. -/
theorem tempName_ne {base stem ending : String} {pid n : ℕ}
    (hlen : ending.toList.length = 4) (hne : ending ≠ ".tmp") :
    tempName base pid n ≠ stem ++ ending := by
  intro h
  have hending := (eq_of_append_eq (by rw [hlen]; rfl) h).2
  exact hne hending.symm

/-- The path of a temporary file. -/
def tempPath (dir : Path) (base : String) (pid n : ℕ) : Path := dir ++ [tempName base pid n]

/-- Some temporary file may have this path. -/
def Temporary (path : Path) : Prop := ∃ dir base pid n, path = tempPath dir base pid n

theorem tempPath_sequence {dir dir' : Path} {base base' : String} {pid pid' n n' : ℕ}
    (h : tempPath dir base pid n = tempPath dir' base' pid' n') : n = n' := by
  have hlast := (List.append_inj' h rfl).2
  exact tempName_sequence (List.singleton_inj.mp hlast)

/-- A path whose last component has another ending is not temporary. -/
theorem not_temporary {dir : Path} {stem ending : String} (hlen : ending.toList.length = 4)
    (hne : ending ≠ ".tmp") : ¬Temporary (dir ++ [stem ++ ending]) := by
  rintro ⟨dir', base, pid, n, h⟩
  have hlast := List.singleton_inj.mp (List.append_inj' h rfl).2
  exact tempName_ne hlen hne hlast.symm

end OpenTfMirror.FileNames
