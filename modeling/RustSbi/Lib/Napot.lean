import Mathlib.Data.Nat.Bitwise
import RustSbi.Lib.Bits

/-!
Numbers that name an aligned block of a power of two: the block number, a zero and a run
of ones as long as the exponent. The run can be read back from the lowest zero, and two
numbers name the same place in a block of that size exactly when the block number agrees.
-/

namespace Napot

/-- Block `block` of `2 ^ (k + 1)`, marked by `k` trailing ones. -/
def mark (k block : Nat) : Nat := 2 ^ (k + 1) * block + (2 ^ k - 1)

variable {k block : Nat}

theorem ones_lt (k : Nat) : 2 ^ k - 1 < 2 ^ (k + 1) := by
  have := Nat.two_pow_pos k
  rw [Nat.pow_succ]
  omega

theorem testBit_mark (k block j : Nat) :
    (mark k block).testBit j = if j < k + 1 then decide (j < k) else block.testBit (j - (k + 1)) := by
  rw [mark, Nat.testBit_two_pow_mul_add _ (ones_lt k), Nat.testBit_two_pow_sub_one]

theorem mark_div : mark k block / 2 ^ (k + 1) = block := by
  rw [mark, Nat.mul_add_div (Nat.two_pow_pos _), Nat.div_eq_of_lt (ones_lt k), Nat.add_zero]

/-- The bits that an increment flips are the run, the zero and nothing else. -/
theorem mark_xor_succ : (mark k block ^^^ (mark k block + 1)) + 1 = 2 ^ (k + 1) := by
  have hsucc : mark k block + 1 = 2 ^ (k + 1) * block + 2 ^ k := by
    have := Nat.two_pow_pos k
    unfold mark
    omega
  have hflip : mark k block ^^^ (mark k block + 1) = 2 ^ (k + 1) - 1 := by
    apply Nat.eq_of_testBit_eq
    intro j
    rw [Nat.testBit_xor, testBit_mark, hsucc,
      Nat.testBit_two_pow_mul_add _ (Nat.pow_lt_pow_right Nat.one_lt_two k.lt_succ_self),
      Nat.testBit_two_pow_sub_one, Nat.testBit_two_pow]
    by_cases hj : j < k + 1
    · simp only [hj, decide_true]
      by_cases hk : j < k
      · simp [hk, hk.ne']
      · have hlast : k = j := by omega
        simp [hlast]
    · simp [hj]
  rw [hflip]
  exact Nat.sub_add_cancel (Nat.two_pow_pos _)

/-- The lowest zero of a word that holds a mark ends its run. -/
theorem ctz_not_mark {w : Nat} {x : BitVec w} (hx : x.toNat = mark k block) (hk : k < w) :
    (~~~x).ctz.toNat = k := by
  have hbit : ∀ j, j < w → (~~~x).getLsbD j = !(mark k block).testBit j := by
    intro j hj
    rw [← hx, BitVec.testBit_toNat, BitVec.getLsbD_not, decide_eq_true hj, Bool.true_and]
  have hset : (~~~x).getLsbD k = true := by
    rw [hbit k hk, testBit_mark]
    simp
  have hne : ~~~x ≠ 0#w := by
    rintro hzero
    rw [hzero, BitVec.getLsbD_zero] at hset
    exact Bool.false_ne_true hset
  have hctz := BitVec.getLsbD_true_ctz_of_ne_zero hne
  rcases Nat.lt_trichotomy (~~~x).ctz.toNat k with hlt | heq | hgt
  · rw [hbit _ (by omega), testBit_mark] at hctz
    simp [hlt, show (~~~x).ctz.toNat < k + 1 by omega] at hctz
  · exact heq
  · rw [BitVec.getLsbD_false_of_lt_ctz hgt] at hset
    exact absurd hset Bool.false_ne_true

end Napot
