import Mathlib.Tactic

/-!
Registers of twice the word size, accessed one half at a time. A counter that
never goes back is read by reading its high half before and after the low one,
again and again until the two agree; a value that is to be replaced without
dropping below the smaller of old and new gets its low half raised first.
-/

namespace SplitWord

variable {w v : Nat}

/-- The number with the given halves. -/
def join (w high low : Nat) : Nat := high * 2 ^ w + low

theorem join_div_mod (w n : Nat) : join w (n / 2 ^ w) (n % 2 ^ w) = n :=
  Nat.div_add_mod' n (2 ^ w)

theorem join_div {high low : Nat} (hlow : low < 2 ^ w) : join w high low / 2 ^ w = high := by
  rw [join, Nat.mul_comm, Nat.mul_add_div (Nat.two_pow_pos w), Nat.div_eq_of_lt hlow, Nat.add_zero]

theorem join_mod {high low : Nat} (hlow : low < 2 ^ w) : join w high low % 2 ^ w = low := by
  rw [join, Nat.add_comm, Nat.add_mul_mod_self_right, Nat.mod_eq_of_lt hlow]

/-! ## Reading a counter -/

section Read

variable {f : Nat → Nat}

/-- The first access from `k` on, within so many rounds of three, at which the high half read
before the low half is read again after it. -/
def stableRound (w : Nat) (f : Nat → Nat) : (rounds k : Nat) → Option Nat
  | 0, _ => none
  | rounds + 1, k =>
    if f k / 2 ^ w = f (k + 2) / 2 ^ w then some k else stableRound w f rounds (k + 3)

/-- A high half that did not change belongs to the low half between. -/
theorem join_eq_of_stable (hf : Monotone f) {k : Nat} (h : f k / 2 ^ w = f (k + 2) / 2 ^ w) :
    join w (f k / 2 ^ w) (f (k + 1) % 2 ^ w) = f (k + 1) := by
  have hfirst : f k / 2 ^ w ≤ f (k + 1) / 2 ^ w := Nat.div_le_div_right (hf (Nat.le_succ k))
  have hlast : f (k + 1) / 2 ^ w ≤ f (k + 2) / 2 ^ w := Nat.div_le_div_right (hf (Nat.le_succ _))
  have hhigh : f k / 2 ^ w = f (k + 1) / 2 ^ w := le_antisymm hfirst (h ▸ hlast)
  rw [hhigh, join_div_mod]

theorem stableRound_spec {rounds k j : Nat} (h : stableRound w f rounds k = some j) :
    k ≤ j ∧ j < k + 3 * rounds ∧ f j / 2 ^ w = f (j + 2) / 2 ^ w := by
  induction rounds generalizing k with
  | zero => cases h
  | succ rounds ih =>
    rw [stableRound] at h
    split at h
    · rename_i hstable
      cases h
      exact ⟨le_rfl, by omega, hstable⟩
    · obtain ⟨hle, hlt, hstable⟩ := ih h
      exact ⟨by omega, by omega, hstable⟩

/-- A round that fails saw the high half grow. -/
theorem high_ge_of_stableRound_eq_none (hf : Monotone f) {rounds k : Nat}
    (h : stableRound w f rounds k = none) :
    f k / 2 ^ w + rounds ≤ f (k + 3 * rounds) / 2 ^ w := by
  induction rounds generalizing k with
  | zero => exact le_rfl
  | succ rounds ih =>
    rw [stableRound] at h
    split at h
    · cases h
    · rename_i hchanged
      have hround : f k / 2 ^ w ≤ f (k + 2) / 2 ^ w := Nat.div_le_div_right (hf (by omega))
      have hnext : f (k + 2) / 2 ^ w ≤ f (k + 3) / 2 ^ w := Nat.div_le_div_right (hf (by omega))
      have hrest := ih h
      rw [show k + 3 + 3 * rounds = k + 3 * (rounds + 1) by ring] at hrest
      omega

/-- With a high half of `v` bits, one of `2 ^ v` rounds succeeds. -/
theorem exists_stableRound (hf : Monotone f) (hbound : ∀ k, f k < 2 ^ (w + v)) (k : Nat) :
    ∃ j, stableRound w f (2 ^ v) k = some j := by
  cases h : stableRound w f (2 ^ v) k with
  | some j => exact ⟨j, rfl⟩
  | none =>
    have hge := high_ge_of_stableRound_eq_none hf h
    have hlt : f (k + 3 * 2 ^ v) / 2 ^ w < 2 ^ v := by
      rw [Nat.div_lt_iff_lt_mul (Nat.two_pow_pos w), ← Nat.pow_add, Nat.add_comm v w]
      exact hbound _
    exact absurd hlt (Nat.not_lt.mpr ((Nat.le_add_left _ _).trans hge))

end Read

/-! ## Replacing a value -/

/-- Raising the low half keeps a value above what it was. -/
theorem le_join_max (w n : Nat) : n ≤ join w (n / 2 ^ w) (2 ^ w - 1) := by
  have hlow := Nat.mod_lt n (Nat.two_pow_pos w)
  calc n = join w (n / 2 ^ w) (n % 2 ^ w) := (join_div_mod w n).symm
    _ ≤ join w (n / 2 ^ w) (2 ^ w - 1) := Nat.add_le_add_left (by omega) _

end SplitWord
