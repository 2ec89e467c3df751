import Mathlib.Algebra.Group.Nat.Defs
import Mathlib.Data.List.Basic
import Mathlib.Tactic.Common

/-!
# String operations with exact specifications

Prefix and suffix stripping, splitting from the right, trimming, and the ASCII
classes that byte-wise checks use. Every operation is characterised by an
equation between the whole string and its parts.
-/

namespace OpenTfMirror.TextOps

/-- The rest of the string after the prefix. -/
def stripPrefix (pre s : String) : Option String :=
  if pre.toList.isPrefixOf s.toList then some (String.ofList (s.toList.drop pre.toList.length))
  else none

/-- The part of the string before the suffix. -/
def stripSuffix (suf s : String) : Option String :=
  if suf.toList.isSuffixOf s.toList then
    some (String.ofList (s.toList.take (s.toList.length - suf.toList.length)))
  else none

/-- Split a list at the last occurrence of a separator. -/
def splitLast (sep : Char) : List Char → Option (List Char × List Char)
  | [] => none
  | c :: rest =>
    match splitLast sep rest with
    | some (before, after) => some (c :: before, after)
    | none => if c = sep then some ([], rest) else none

/-- Split at the last separator: the parts before and after it. -/
def rsplitOnce (sep : Char) (s : String) : Option (String × String) :=
  (splitLast sep s.toList).map fun parts => (String.ofList parts.1, String.ofList parts.2)

/-- `rsplitn(3, sep)`: at most three fields, the last one first. -/
def rsplitn3 (sep : Char) (s : String) : List String :=
  match rsplitOnce sep s with
  | none => [s]
  | some (rest, last) =>
    match rsplitOnce sep rest with
    | none => [last, rest]
    | some (rest', middle) => [last, middle, rest']

/-- The parts between all separators. -/
def splitAll (sep : Char) (s : String) : List String :=
  (s.toList.splitOn sep).map String.ofList

/-- Unicode `White_Space`, as `char::is_whitespace` tests it. -/
def isWhitespace (c : Char) : Bool :=
  let n := c.toNat
  (9 ≤ n && n ≤ 13) || n = 0x20 || n = 0x85 || n = 0xa0 || n = 0x1680 ||
    (0x2000 ≤ n && n ≤ 0x200a) || n = 0x2028 || n = 0x2029 || n = 0x202f || n = 0x205f ||
    n = 0x3000

/-- Remove matching characters from the start. -/
def trimStart (p : Char → Bool) (s : String) : String := String.ofList (s.toList.dropWhile p)

/-- Remove matching characters from the end. -/
def trimEnd (p : Char → Bool) (s : String) : String :=
  String.ofList (s.toList.reverse.dropWhile p).reverse

/-- Remove whitespace from both ends. -/
def trim (s : String) : String := trimEnd isWhitespace (trimStart isWhitespace s)

/-- `u8::is_ascii_hexdigit`. -/
def isHexDigit (c : Char) : Bool := c.isDigit || ('a' ≤ c && c ≤ 'f') || ('A' ≤ c && c ≤ 'F')

/-- `str::to_ascii_lowercase`. -/
def toAsciiLowercase (s : String) : String := String.ofList (s.toList.map Char.toLower)

@[simp] theorem stripPrefix_eq_some {pre s r : String} :
    stripPrefix pre s = some r ↔ s = pre ++ r := by
  unfold stripPrefix
  constructor
  · intro h
    split at h
    · rename_i hpre
      obtain ⟨t, ht⟩ := List.isPrefixOf_iff_prefix.mp hpre
      cases h
      apply String.toList_inj.mp
      simp [← ht]
    · cases h
  · rintro rfl
    have hpre : pre.toList.isPrefixOf (pre ++ r).toList = true := by
      rw [List.isPrefixOf_iff_prefix, String.toList_append]
      exact List.prefix_append _ _
    rw [if_pos hpre]
    simp

@[simp] theorem stripSuffix_eq_some {suf s r : String} :
    stripSuffix suf s = some r ↔ s = r ++ suf := by
  unfold stripSuffix
  constructor
  · intro h
    split at h
    · rename_i hsuf
      obtain ⟨t, ht⟩ := List.isSuffixOf_iff_suffix.mp hsuf
      cases h
      apply String.toList_inj.mp
      simp [← ht]
    · cases h
  · rintro rfl
    have hsuf : suf.toList.isSuffixOf (r ++ suf).toList = true := by
      rw [List.isSuffixOf_iff_suffix, String.toList_append]
      exact List.suffix_append _ _
    rw [if_pos hsuf]
    simp

theorem splitLast_eq_none {sep : Char} {l : List Char} : splitLast sep l = none ↔ sep ∉ l := by
  induction l with
  | nil => simp [splitLast]
  | cons c rest ih =>
    rw [splitLast]
    cases hrest : splitLast sep rest with
    | some parts =>
      have hmem : sep ∈ rest := by
        by_contra hnot
        rw [ih.mpr hnot] at hrest
        cases hrest
      simp [hmem]
    | none =>
      have hnot := ih.mp hrest
      by_cases hc : c = sep
      · simp [hc]
      · simp [hc, hnot, Ne.symm hc]

/-- The separator found is the last one. -/
theorem splitLast_eq_some {sep : Char} {l before after : List Char} :
    splitLast sep l = some (before, after) ↔ l = before ++ sep :: after ∧ sep ∉ after := by
  induction l generalizing before after with
  | nil => simp [splitLast]
  | cons c rest ih =>
    rw [splitLast]
    cases hrest : splitLast sep rest with
    | some parts =>
      obtain ⟨b, a⟩ := parts
      have hsplit := ih.mp hrest
      constructor
      · intro h
        cases h
        exact ⟨by rw [hsplit.1]; rfl, hsplit.2⟩
      · rintro ⟨heq, hnot⟩
        cases before with
        | nil =>
          simp only [List.nil_append, List.cons.injEq] at heq
          rw [← heq.2, hsplit.1] at hnot
          exact absurd (by simp) hnot
        | cons b' before =>
          simp only [List.cons_append, List.cons.injEq] at heq
          have h := ih.mpr ⟨heq.2, hnot⟩
          rw [hrest] at h
          cases h
          rw [heq.1]
    | none =>
      have hnot := splitLast_eq_none.mp hrest
      by_cases hc : c = sep
      · simp only [hc, if_true, Option.some.injEq, Prod.mk.injEq]
        constructor
        · rintro ⟨rfl, rfl⟩
          exact ⟨rfl, hnot⟩
        · rintro ⟨heq, -⟩
          cases before with
          | nil => simpa using heq
          | cons b' before =>
            simp only [List.cons_append, List.cons.injEq] at heq
            rw [heq.2] at hnot
            simp at hnot
      · simp only [hc, if_false, reduceCtorEq, false_iff]
        rintro ⟨heq, -⟩
        cases before with
        | nil =>
          simp only [List.nil_append, List.cons.injEq] at heq
          exact hc heq.1
        | cons b' before =>
          simp only [List.cons_append, List.cons.injEq] at heq
          rw [heq.2] at hnot
          simp at hnot

@[simp] theorem rsplitOnce_eq_some {sep : Char} {s before after : String} :
    rsplitOnce sep s = some (before, after) ↔
      s = before ++ String.singleton sep ++ after ∧ sep ∉ after.toList := by
  rw [rsplitOnce, Option.map_eq_some_iff]
  constructor
  · rintro ⟨⟨b, a⟩, hsplit, heq⟩
    cases heq
    obtain ⟨hs, hnot⟩ := splitLast_eq_some.mp hsplit
    refine ⟨String.toList_inj.mp ?_, by simpa using hnot⟩
    simp [hs]
  · rintro ⟨rfl, hnot⟩
    refine ⟨(before.toList, after.toList), splitLast_eq_some.mpr ⟨?_, hnot⟩, by simp⟩
    simp

/-- Three fields are split at the last two separators. -/
theorem rsplitn3_eq_three {sep : Char} {s first middle last : String} :
    rsplitn3 sep s = [last, middle, first] ↔
      s = first ++ String.singleton sep ++ middle ++ String.singleton sep ++ last ∧
        sep ∉ middle.toList ∧ sep ∉ last.toList := by
  rw [rsplitn3]
  constructor
  · intro h
    split at h
    · simp at h
    · rename_i rest last' hlast
      split at h
      · simp at h
      · rename_i first' middle' hmiddle
        cases h
        obtain ⟨hs, hl⟩ := rsplitOnce_eq_some.mp hlast
        obtain ⟨hrest, hm⟩ := rsplitOnce_eq_some.mp hmiddle
        exact ⟨by rw [hs, hrest], hm, hl⟩
  · rintro ⟨rfl, hm, hl⟩
    have hlast := rsplitOnce_eq_some (s := first ++ String.singleton sep ++ middle ++
      String.singleton sep ++ last).mpr ⟨rfl, hl⟩
    have hmiddle := rsplitOnce_eq_some (s := first ++ String.singleton sep ++ middle).mpr ⟨rfl, hm⟩
    rw [hlast]
    simp only [hmiddle]

example : rsplitn3 '_' "3.6.2_linux_amd64" = ["amd64", "linux", "3.6.2"] := by decide

end OpenTfMirror.TextOps
