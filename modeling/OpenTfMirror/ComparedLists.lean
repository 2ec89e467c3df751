import Mathlib.Data.List.Dedup
import Mathlib.Data.List.Sort
import Mathlib.Tactic.Common

/-!
# Lists sorted by a comparator

A comparator that is a total order on each of two parts of a type, and puts one
part before the other, is a total order. What is sorted by a total order is
determined by its members.
-/

namespace OpenTfMirror.ComparedLists

section Parts

variable {α : Type} {p : α → Bool} {cmp first second : α → α → Ordering}

/-- A total order on the part of the type where the predicate has the value. -/
structure OrderOn (p : α → Bool) (value : Bool) (cmp : α → α → Ordering) : Prop where
  swap : ∀ {a b}, p a = value → p b = value → cmp a b = (cmp b a).swap
  trans : ∀ {a b c}, p a = value → p b = value → p c = value →
    (cmp a b).isLE = true → (cmp b c).isLE = true → (cmp a c).isLE = true
  eq : ∀ {a b}, p a = value → p b = value → cmp a b = .eq → a = b

/-- The part where the predicate holds, and after it the other one. -/
def glue (p : α → Bool) (first second : α → α → Ordering) (a b : α) : Ordering :=
  match p a, p b with
  | true, true => first a b
  | true, false => .lt
  | false, true => .gt
  | false, false => second a b

/-- A total order is one on each part. -/
theorem orderOn_of_lawful (p : α → Bool) (value : Bool) [Std.TransCmp cmp] [Std.LawfulEqCmp cmp] :
    OrderOn p value cmp where
  swap _ _ := Std.OrientedCmp.eq_swap
  trans _ _ _ hab hbc := Std.TransCmp.isLE_trans hab hbc
  eq _ _ h := Std.LawfulEqCmp.eq_of_compare h

/-- In a total order everything is equal to itself. -/
theorem OrderOn.self {value : Bool} (h : OrderOn p value cmp) {a : α} (ha : p a = value) :
    cmp a a = .eq := by
  have hswap : cmp a a = (cmp a a).swap := h.swap ha ha
  cases hself : cmp a a with
  | eq => rfl
  | lt =>
    rw [hself] at hswap
    cases hswap
  | gt =>
    rw [hself] at hswap
    cases hswap

theorem glue_swap (hfirst : OrderOn p true first) (hsecond : OrderOn p false second) (a b : α) :
    glue p first second a b = (glue p first second b a).swap := by
  unfold glue
  cases ha : p a with
  | true =>
    cases hb : p b with
    | true => exact hfirst.swap ha hb
    | false => rfl
  | false =>
    cases hb : p b with
    | true => rfl
    | false => exact hsecond.swap ha hb

theorem glue_trans (hfirst : OrderOn p true first) (hsecond : OrderOn p false second) {a b c : α}
    (hab : (glue p first second a b).isLE = true) (hbc : (glue p first second b c).isLE = true) :
    (glue p first second a c).isLE = true := by
  unfold glue at hab hbc ⊢
  cases ha : p a with
  | true =>
    cases hc : p c with
    | true =>
      cases hb : p b with
      | true =>
        rw [ha, hb] at hab
        rw [hb, hc] at hbc
        exact hfirst.trans ha hb hc hab hbc
      | false =>
        rw [hb, hc] at hbc
        cases hbc
    | false => rfl
  | false =>
    cases hb : p b with
    | true =>
      rw [ha, hb] at hab
      cases hab
    | false =>
      cases hc : p c with
      | true =>
        rw [hb, hc] at hbc
        cases hbc
      | false =>
        rw [ha, hb] at hab
        rw [hb, hc] at hbc
        exact hsecond.trans ha hb hc hab hbc

theorem glue_eq (hfirst : OrderOn p true first) (hsecond : OrderOn p false second) {a b : α}
    (h : glue p first second a b = .eq) : a = b := by
  unfold glue at h
  cases ha : p a with
  | true =>
    cases hb : p b with
    | true =>
      rw [ha, hb] at h
      exact hfirst.eq ha hb h
    | false =>
      rw [ha, hb] at h
      cases h
  | false =>
    cases hb : p b with
    | true =>
      rw [ha, hb] at h
      cases h
    | false =>
      rw [ha, hb] at h
      exact hsecond.eq ha hb h

theorem transCmp_glue (hfirst : OrderOn p true first) (hsecond : OrderOn p false second) :
    Std.TransCmp (glue p first second) where
  eq_swap := glue_swap hfirst hsecond _ _
  isLE_trans := glue_trans hfirst hsecond

theorem lawfulEqCmp_glue (hfirst : OrderOn p true first) (hsecond : OrderOn p false second) :
    Std.LawfulEqCmp (glue p first second) where
  compare_self := by
    intro a
    unfold glue
    cases ha : p a with
    | true => exact hfirst.self ha
    | false => exact hsecond.self ha
  eq_of_compare := glue_eq hfirst hsecond

end Parts

section Sorting

variable {α : Type} {cmp : α → α → Ordering} [Std.TransCmp cmp]

omit [Std.TransCmp cmp] in
theorem ne_gt_iff {a b : α} : cmp a b ≠ .gt ↔ (cmp a b).isLE = true := by
  cases cmp a b with
  | lt => simp
  | eq => simp
  | gt => simp

/-- Sorting by a total order sorts. -/
theorem pairwise_sorted (l : List α) :
    (l.insertionSort fun a b => cmp a b ≠ .gt).Pairwise fun a b => cmp a b ≠ .gt := by
  have htotal : Std.Total fun a b : α => cmp a b ≠ .gt := by
    refine ⟨fun a b => ?_⟩
    have hswap : cmp a b = (cmp b a).swap := Std.OrientedCmp.eq_swap
    cases hba : cmp b a with
    | lt => exact .inr (by decide)
    | eq => exact .inr (by decide)
    | gt =>
      rw [hba] at hswap
      exact .inl (by rw [hswap]; decide)
  have htrans : IsTrans α fun a b : α => cmp a b ≠ .gt := by
    refine ⟨fun a b c hab hbc => ?_⟩
    exact ne_gt_iff.mpr (Std.TransCmp.isLE_trans (ne_gt_iff.mp hab) (ne_gt_iff.mp hbc))
  exact List.pairwise_insertionSort _ l

variable [Std.LawfulEqCmp cmp]

omit [Std.TransCmp cmp] in
/-- A sorted list without repetitions increases strictly. -/
theorem strictly_increasing {l : List α} (hsorted : l.Pairwise fun a b => cmp a b ≠ .gt)
    (hnodup : l.Nodup) : l.Pairwise fun a b => cmp a b = .lt := by
  refine (hsorted.and hnodup).imp fun {a b} h => ?_
  cases hab : cmp a b with
  | lt => rfl
  | eq => exact absurd (Std.LawfulEqCmp.eq_of_compare hab) h.2
  | gt => exact absurd hab h.1

/-- Two sorted lists with the same members, each once, are the same list. -/
theorem sorted_unique {l l' : List α} (hl : l.Pairwise fun a b => cmp a b ≠ .gt)
    (hl' : l'.Pairwise fun a b => cmp a b ≠ .gt) (hperm : l.Perm l') : l = l' := by
  refine List.Perm.eq_of_pairwise ?_ hl hl' hperm
  intro a b _ _ hab hba
  have heq : cmp a b = .eq := Std.OrientedCmp.isLE_antisymm (ne_gt_iff.mp hab) (ne_gt_iff.mp hba)
  exact Std.LawfulEqCmp.eq_of_compare heq

end Sorting

end OpenTfMirror.ComparedLists
