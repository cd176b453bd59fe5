import Mathlib.Tactic

/-!
Registers whose fields take any value and keep a legal one: a legal value that
is written stays, and the hardware puts a legal value of its choice in place of
an illegal one.
-/

namespace Warl

variable {ι A : Type} {w : Nat}

/-- The fields of a register: masks that share no bit and leave none out, with
the legal values of each. -/
structure Register (ι : Type) (w : Nat) where
  mask : ι → BitVec w
  legal : ι → BitVec w → Prop
  disjoint : ∀ i j, i ≠ j → mask i &&& mask j = 0#w
  cover : ∀ k < w, ∃ i, (mask i).getLsbD k = true

namespace Register

/-- Every field has a legal value. -/
def Legal (reg : Register ι w) (x : BitVec w) : Prop := ∀ i, reg.legal i (x &&& reg.mask i)

/-- The word with another value in a field. -/
def insert (reg : Register ι w) (i : ι) (x value : BitVec w) : BitVec w :=
  (x &&& ~~~reg.mask i) ||| value

end Register

/-- How the hardware takes a write, given its choice `a`. -/
structure Hardware (reg : Register ι w) (A : Type) where
  write : A → (current written : BitVec w) → BitVec w
  legal_write : ∀ a current written, reg.Legal current → reg.Legal (write a current written)
  write_field : ∀ a current written i, reg.legal i (written &&& reg.mask i) →
    write a current written &&& reg.mask i = written &&& reg.mask i

namespace Register

variable (reg : Register ι w) {i j : ι} {x y value : BitVec w}

theorem not_getLsbD_mask (hij : i ≠ j) {k : Nat} (hi : (reg.mask i).getLsbD k = true) :
    (reg.mask j).getLsbD k = false := by
  have h := congrArg (BitVec.getLsbD · k) (reg.disjoint i j hij)
  simp only [BitVec.getLsbD_and, hi, Bool.true_and, BitVec.getLsbD_zero] at h
  exact h

variable {reg}

theorem getLsbD_eq_of_field (h : x &&& reg.mask i = y &&& reg.mask i) {k : Nat}
    (hk : (reg.mask i).getLsbD k = true) : x.getLsbD k = y.getLsbD k := by
  have hbit := congrArg (BitVec.getLsbD · k) h
  simpa only [BitVec.getLsbD_and, hk, Bool.and_true] using hbit

theorem ext_fields (h : ∀ i, x &&& reg.mask i = y &&& reg.mask i) : x = y := by
  apply BitVec.eq_of_getLsbD_eq
  intro k hk
  obtain ⟨i, hi⟩ := reg.cover k hk
  exact getLsbD_eq_of_field (h i) hi

theorem outside_eq (h : ∀ j, j ≠ i → x &&& reg.mask j = y &&& reg.mask j) :
    x &&& ~~~reg.mask i = y &&& ~~~reg.mask i := by
  apply BitVec.eq_of_getLsbD_eq
  intro k hk
  simp only [BitVec.getLsbD_and, BitVec.getLsbD_not, hk, decide_true, Bool.true_and]
  cases hmask : (reg.mask i).getLsbD k with
  | true => simp
  | false =>
    obtain ⟨j, hj⟩ := reg.cover k hk
    have hji : j ≠ i := by
      rintro rfl
      rw [hj] at hmask
      cases hmask
    rw [getLsbD_eq_of_field (h j hji) hj]

theorem field_of_outside_eq (hij : i ≠ j) (h : x &&& ~~~reg.mask i = y &&& ~~~reg.mask i) :
    x &&& reg.mask j = y &&& reg.mask j := by
  apply BitVec.eq_of_getLsbD_eq
  intro k hk
  rw [BitVec.getLsbD_and, BitVec.getLsbD_and]
  cases hmask : (reg.mask j).getLsbD k with
  | false => simp
  | true =>
    have hbit := congrArg (BitVec.getLsbD · k) h
    simp only [BitVec.getLsbD_and, BitVec.getLsbD_not, hk, decide_true,
      reg.not_getLsbD_mask hij.symm hmask, Bool.not_false, Bool.and_true] at hbit
    rw [hbit]

section Insert

theorem insert_field (hvalue : value &&& ~~~reg.mask i = 0#w) :
    reg.insert i x value &&& reg.mask i = value := by
  apply BitVec.eq_of_getLsbD_eq
  intro k hk
  have hbit := congrArg (BitVec.getLsbD · k) hvalue
  simp only [BitVec.getLsbD_and, BitVec.getLsbD_not, hk, decide_true, Bool.true_and,
    BitVec.getLsbD_zero] at hbit
  simp only [insert, BitVec.getLsbD_and, BitVec.getLsbD_or, BitVec.getLsbD_not, hk, decide_true,
    Bool.true_and]
  revert hbit
  cases x.getLsbD k <;> cases value.getLsbD k <;> cases (reg.mask i).getLsbD k <;> decide

theorem insert_other (hvalue : value &&& ~~~reg.mask i = 0#w) (hij : j ≠ i) :
    reg.insert i x value &&& reg.mask j = x &&& reg.mask j := by
  refine field_of_outside_eq hij.symm ?_
  apply BitVec.eq_of_getLsbD_eq
  intro k hk
  have hbit := congrArg (BitVec.getLsbD · k) hvalue
  simp only [BitVec.getLsbD_and, BitVec.getLsbD_not, hk, decide_true, Bool.true_and,
    BitVec.getLsbD_zero] at hbit
  simp only [insert, BitVec.getLsbD_and, BitVec.getLsbD_or, BitVec.getLsbD_not, hk, decide_true,
    Bool.true_and]
  revert hbit
  cases x.getLsbD k <;> cases value.getLsbD k <;> cases (reg.mask i).getLsbD k <;> decide

/-- Setting every bit of a field. -/
theorem or_mask_eq_insert : x ||| reg.mask i = reg.insert i x (reg.mask i) := by
  apply BitVec.eq_of_getLsbD_eq
  intro k hk
  simp only [insert, BitVec.getLsbD_and, BitVec.getLsbD_or, BitVec.getLsbD_not, hk, decide_true,
    Bool.true_and]
  cases x.getLsbD k <;> cases (reg.mask i).getLsbD k <;> decide

theorem or_mask_field : (x ||| reg.mask i) &&& reg.mask i = reg.mask i := by
  rw [or_mask_eq_insert]
  exact insert_field (by rw [BitVec.and_not_self]; rfl)

/-- Clearing a field. -/
theorem and_not_mask_eq_insert : x &&& ~~~reg.mask i = reg.insert i x 0#w :=
  BitVec.or_zero.symm

theorem insert_self : reg.insert i x (x &&& reg.mask i) = x := by
  apply BitVec.eq_of_getLsbD_eq
  intro k hk
  simp only [insert, BitVec.getLsbD_and, BitVec.getLsbD_or, BitVec.getLsbD_not, hk, decide_true,
    Bool.true_and]
  cases x.getLsbD k <;> cases (reg.mask i).getLsbD k <;> decide

/-- A word that differs from a legal one in one field, with a legal value there, is legal. -/
theorem legal_insert (hx : reg.Legal x) {value : BitVec w} (hvalue : value &&& ~~~reg.mask i = 0#w)
    (hlegal : reg.legal i value) : reg.Legal (reg.insert i x value) := by
  intro j
  by_cases hj : j = i
  · subst hj
    rw [insert_field hvalue]
    exact hlegal
  · rw [insert_other hvalue hj]
    exact hx j

end Insert

end Register

namespace Hardware

variable {reg : Register ι w} (hw : Hardware reg A) {a : A} {x y : BitVec w} {i : ι}

/-- A legal word is stored as it is. -/
theorem write_of_legal (hy : reg.Legal y) : hw.write a x y = y :=
  Register.ext_fields fun i => hw.write_field a x y i (hy i)

theorem write_keeps (hx : reg.Legal x) (h : y &&& reg.mask i = x &&& reg.mask i) :
    hw.write a x y &&& reg.mask i = x &&& reg.mask i := by
  rw [← h]
  exact hw.write_field a x y i (h.symm ▸ hx i)

theorem write_outside (hx : reg.Legal x) {value : BitVec w} (hvalue : value &&& ~~~reg.mask i = 0#w) :
    hw.write a x (reg.insert i x value) &&& ~~~reg.mask i = x &&& ~~~reg.mask i :=
  Register.outside_eq fun _ hj => hw.write_keeps hx (Register.insert_other hvalue hj)

end Hardware

end Warl
