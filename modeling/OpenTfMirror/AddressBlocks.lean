import Mathlib.Algebra.Group.Nat.Defs
import Mathlib.Data.Nat.Basic
import Mathlib.Tactic.Common

/-!
# Prefix blocks of fixed-width addresses

A block fixes the leading bits of an address. Membership compares quotients,
so that a test on single octets or on masked words can be related to a block
by linear arithmetic.
-/

namespace OpenTfMirror.AddressBlocks

/-- A block of addresses of `w` bits. -/
structure Block (w : ℕ) where
  /-- Any address of the block, usually the first. -/
  base : BitVec w
  /-- How many leading bits the block fixes. -/
  length : ℕ

/-- The address has the block's leading bits. -/
def Block.Contains {w : ℕ} (block : Block w) (address : BitVec w) : Prop :=
  address.toNat / 2 ^ (w - block.length) = block.base.toNat / 2 ^ (w - block.length)

instance {w : ℕ} (block : Block w) (address : BitVec w) : Decidable (block.Contains address) :=
  inferInstanceAs (Decidable (_ = _))

/-- A mask of leading ones keeps the quotient of a word and clears its rest. -/
theorem and_mask {n k x : ℕ} (hx : x < 2 ^ n) (hk : k ≤ n) :
    x &&& (2 ^ n - 2 ^ k) = x / 2 ^ k * 2 ^ k := by
  have hmask : 2 ^ n - 2 ^ k = (2 ^ (n - k) - 1) <<< k := by
    rw [Nat.shiftLeft_eq, Nat.sub_mul, ← Nat.pow_add, Nat.sub_add_cancel hk, Nat.one_mul]
  have hdiv : x / 2 ^ k = x >>> k := (Nat.shiftRight_eq_div_pow x k).symm
  rw [hmask, hdiv, ← Nat.shiftLeft_eq]
  apply Nat.eq_of_testBit_eq
  intro i
  rw [Nat.testBit_and, Nat.testBit_shiftLeft, Nat.testBit_shiftLeft, Nat.testBit_shiftRight]
  by_cases hi : k ≤ i
  · have hsum : k + (i - k) = i := by omega
    simp only [hi, decide_true, Bool.true_and, Nat.testBit_two_pow_sub_one, hsum]
    by_cases hin : i < n
    · have hlt : i - k < n - k := by omega
      simp [hlt]
    · have hbit : x.testBit i = false := by
        apply Nat.testBit_lt_two_pow
        exact Nat.lt_of_lt_of_le hx (Nat.pow_le_pow_right (by omega) (by omega))
      simp [hbit]
  · simp [hi]

/-- Comparing a masked word with a masked constant compares quotients. -/
theorem and_mask_eq_iff {n k x c : ℕ} (hx : x < 2 ^ n) (hk : k ≤ n) :
    x &&& (2 ^ n - 2 ^ k) = c * 2 ^ k ↔ x / 2 ^ k = c := by
  rw [and_mask hx hk]
  exact ⟨fun h => Nat.eq_of_mul_eq_mul_right (Nat.two_pow_pos k) h, fun h => by rw [h]⟩

end OpenTfMirror.AddressBlocks
