import Mathlib.Tactic

/-!
Two numbers placed in the bits of one: a low field from one bit on, and a high
field that starts no earlier than the low one ends.
-/

namespace BitFields

variable {low high low' high' lowShift lowBits highShift : Nat}

/-- The number with the two fields. -/
def place (lowShift highShift low high : Nat) : Nat := high * 2 ^ highShift + low * 2 ^ lowShift

/-- Both fields in units of the low one. -/
theorem place_eq_mul (h : lowShift ≤ highShift) :
    place lowShift highShift low high =
      (high * 2 ^ (highShift - lowShift) + low) * 2 ^ lowShift := by
  rw [place, Nat.add_mul, Nat.mul_assoc, ← Nat.pow_add, Nat.sub_add_cancel h]

/-- Different fields are placed at least one unit of the low field apart. -/
theorem place_apart (hlow : low < 2 ^ lowBits) (hlow' : low' < 2 ^ lowBits)
    (horder : lowShift + lowBits ≤ highShift) (hne : (low, high) ≠ (low', high')) :
    place lowShift highShift low high + 2 ^ lowShift ≤ place lowShift highShift low' high' ∨
      place lowShift highShift low' high' + 2 ^ lowShift ≤ place lowShift highShift low high := by
  have hle : lowShift ≤ highShift := (Nat.le_add_right _ _).trans horder
  have hbits : 2 ^ lowBits ≤ 2 ^ (highShift - lowShift) :=
    Nat.pow_le_pow_right (by decide) (by omega)
  rw [place_eq_mul hle, place_eq_mul hle]
  obtain ⟨unit, hunit⟩ : ∃ unit, 2 ^ (highShift - lowShift) = unit := ⟨_, rfl⟩
  rw [hunit] at hbits ⊢
  have hdistinct : high * unit + low ≠ high' * unit + low' := by
    intro heq
    have hdiv : ∀ {h l : Nat}, l < unit → (h * unit + l) / unit = h ∧ (h * unit + l) % unit = l := by
      intro h l hl
      rw [Nat.mul_comm, Nat.mul_add_div (Nat.zero_lt_of_lt hl), Nat.div_eq_of_lt hl, Nat.add_zero,
        Nat.mul_add_mod, Nat.mod_eq_of_lt hl]
      exact ⟨rfl, rfl⟩
    obtain ⟨hh, hl⟩ := hdiv (h := high) (hlow.trans_le hbits)
    obtain ⟨hh', hl'⟩ := hdiv (h := high') (hlow'.trans_le hbits)
    rw [heq, hh'] at hh
    rw [heq, hl'] at hl
    exact hne (by rw [hh, hl])
  rw [← Nat.succ_mul, ← Nat.succ_mul]
  rcases Nat.lt_or_gt_of_ne hdistinct with hlt | hgt
  · exact .inl (Nat.mul_le_mul_right _ hlt)
  · exact .inr (Nat.mul_le_mul_right _ hgt)

/-- A number and its two parts, cut at a bit. -/
theorem eq_of_div_mod_eq {m n unit : Nat} (hdiv : m / unit = n / unit) (hmod : m % unit = n % unit) :
    m = n := by
  rw [← Nat.div_add_mod m unit, ← Nat.div_add_mod n unit, hdiv, hmod]

end BitFields
