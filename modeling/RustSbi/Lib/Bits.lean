import Mathlib.Tactic

/-!
The set bits of a word, in ascending order, and the two usual ways to walk
them: clearing the lowest set bit with a mask and clearing it with `x & (x - 1)`.
-/

namespace Bits

variable {w : Nat}

/-- The positions of the set bits of a word, in ascending order. -/
def setBits (x : BitVec w) : List Nat := (List.range w).filter x.getLsbD

/-- `count_ones`. -/
def countOnes (x : BitVec w) : Nat := (setBits x).length

theorem mem_setBits_iff {x : BitVec w} {i : Nat} : i ∈ setBits x ↔ x.getLsbD i = true := by
  constructor
  · intro h
    exact (List.mem_filter.mp h).2
  · intro h
    exact List.mem_filter.mpr ⟨List.mem_range.mpr (BitVec.lt_of_getLsbD h), h⟩

theorem lt_of_mem_setBits {x : BitVec w} {i : Nat} (h : i ∈ setBits x) : i < w :=
  List.mem_range.mp (List.mem_of_mem_filter h)

theorem countOnes_le (x : BitVec w) : countOnes x ≤ w := by
  calc (setBits x).length ≤ (List.range w).length := List.length_filter_le _ _
    _ = w := List.length_range

theorem setBits_zero : setBits (0#w) = [] := by
  simp [setBits, List.filter_eq_nil_iff]

/-- Of an ascending list, the members at which a predicate holds start with
the least one. -/
theorem filter_eq_cons_of_least {l : List Nat} {p : Nat → Bool} {a : Nat}
    (hsorted : l.Pairwise (· < ·)) (ha : a ∈ l) (hp : p a = true)
    (hleast : ∀ b ∈ l, b < a → p b = false) :
    l.filter p = a :: l.filter fun b => p b && decide (b ≠ a) := by
  induction l with
  | nil => cases ha
  | cons x l ih =>
    rw [List.pairwise_cons] at hsorted
    rcases List.mem_cons.mp ha with rfl | ha
    · have hrest : l.filter p = l.filter fun b => p b && decide (b ≠ a) := by
        apply List.filter_congr
        intro b hb
        have hne : b ≠ a := Nat.ne_of_gt (hsorted.1 b hb)
        simp [hne]
      simp [hp, hrest]
    · have hxa : x < a := hsorted.1 a ha
      have hpx : p x = false := hleast x List.mem_cons_self hxa
      have hrest := ih hsorted.2 ha fun b hb => hleast b (List.mem_cons_of_mem x hb)
      simp [hpx, hrest]

/-- Clearing bit `i` of a word. -/
theorem getLsbD_clearBit (x : BitVec w) (i j : Nat) :
    (x &&& ~~~(1#w <<< i)).getLsbD j = (x.getLsbD j && decide (j ≠ i)) := by
  by_cases hj : j < w
  · by_cases hji : j = i
    · subst hji
      simp [hj]
    · by_cases hlt : j < i
      · simp [hj, hlt, hji]
      · have hsub : j - i ≠ 0 := by omega
        simp [hj, hlt, hji, hsub]
  · simp [BitVec.getLsbD_of_ge x j (by omega)]

/-- Setting bit `i` of a word. -/
theorem getLsbD_setBit (x : BitVec w) {i j : Nat} (hj : j < w) :
    (x ||| 1#w <<< i).getLsbD j = (x.getLsbD j || decide (j = i)) := by
  by_cases hji : j = i
  · subst hji
    simp [hj]
  · by_cases hlt : j < i
    · simp [hj, hlt, hji]
    · have hsub : j - i ≠ 0 := by omega
      simp [hj, hlt, hji, hsub]

/-- Masking a word with bit `i` tests that bit. -/
theorem and_oneShift_ne_zero_iff {x : BitVec w} {i : Nat} (hi : i < w) :
    x &&& 1#w <<< i ≠ 0#w ↔ x.getLsbD i = true := by
  have hbit : ∀ j < w, (x &&& 1#w <<< i).getLsbD j = (x.getLsbD j && decide (j = i)) := by
    intro j hj
    have hset := getLsbD_setBit (0#w) (i := i) hj
    rw [BitVec.zero_or, BitVec.getLsbD_zero, Bool.false_or] at hset
    rw [BitVec.getLsbD_and, hset]
  constructor
  · intro hne
    rw [← Bool.not_eq_false]
    intro hclear
    apply hne
    apply BitVec.eq_of_getLsbD_eq
    intro j hj
    rw [hbit j hj, BitVec.getLsbD_zero]
    by_cases hji : j = i <;> simp [hji, hclear]
  · intro hset hzero
    have hi := hbit i hi
    rw [hzero, hset] at hi
    simp at hi

theorem setBits_eq_ctz_cons {x : BitVec w} (hx : x ≠ 0#w) :
    setBits x = x.ctz.toNat :: setBits (x &&& ~~~(1#w <<< x.ctz.toNat)) := by
  have hbit : x.getLsbD x.ctz.toNat = true := BitVec.getLsbD_true_ctz_of_ne_zero hx
  have hmem : x.ctz.toNat ∈ List.range w := List.mem_range.mpr (BitVec.lt_of_getLsbD hbit)
  have hcons := filter_eq_cons_of_least List.pairwise_lt_range hmem hbit
    fun b _ hb => BitVec.getLsbD_false_of_lt_ctz hb
  unfold setBits
  rw [hcons]
  congr 1
  apply List.filter_congr
  intro b _
  rw [getLsbD_clearBit]

/-- Subtracting one flips the lowest set bit and the bits below it. -/
theorem getLsbD_and_sub_one {x : BitVec w} (hx : x ≠ 0#w) (j : Nat) :
    (x &&& (x - 1#w)).getLsbD j = (x.getLsbD j && decide (j ≠ x.ctz.toNat)) := by
  have hset : x.toNat.testBit x.ctz.toNat = true := BitVec.getLsbD_true_ctz_of_ne_zero hx
  have hlow : ∀ i, i < x.ctz.toNat → x.toNat.testBit i = false :=
    fun i hi => BitVec.getLsbD_false_of_lt_ctz hi
  obtain ⟨k, hk⟩ : ∃ k, x.ctz.toNat = k := ⟨_, rfl⟩
  rw [hk] at hset hlow ⊢
  have hmod : x.toNat % 2 ^ k = 0 := by
    apply Nat.eq_of_testBit_eq
    intro i
    rw [Nat.testBit_mod_two_pow, Nat.zero_testBit]
    by_cases hi : i < k
    · simp [hlow i hi]
    · simp [hi]
  rw [Nat.testBit_eq_decide_div_mod_eq, decide_eq_true_eq] at hset
  have hdiv := Nat.div_add_mod x.toNat (2 ^ k)
  obtain ⟨q, hq⟩ : ∃ q, x.toNat / 2 ^ k = 2 * q + 1 := ⟨x.toNat / 2 ^ k / 2, by omega⟩
  rw [hmod, hq, Nat.add_zero] at hdiv
  have hpow := Nat.two_pow_pos k
  have hone : 1 ≤ x.toNat := by
    rw [← hdiv]
    exact Nat.mul_pos hpow (Nat.succ_pos _)
  have hsub : (x - 1#w).toNat = 2 ^ k * (2 * q) + (2 ^ k - 1) := by
    have hlt := x.isLt
    have hle : 1#w ≤ x := by
      rw [BitVec.le_def, BitVec.toNat_ofNat]
      exact (Nat.mod_le 1 (2 ^ w)).trans hone
    rw [BitVec.toNat_sub_of_le hle, BitVec.toNat_ofNat, Nat.mod_eq_of_lt (by omega), ← hdiv,
      Nat.mul_add, Nat.mul_one]
    omega
  rw [BitVec.getLsbD_and, BitVec.getLsbD, BitVec.getLsbD, hsub,
    Nat.testBit_two_pow_mul_add _ (Nat.sub_lt hpow Nat.one_pos)]
  by_cases hj : j < k
  · simp [hlow j hj]
  · rw [if_neg hj, ← hdiv, Nat.testBit_two_pow_mul]
    obtain ⟨i, rfl⟩ := Nat.exists_eq_add_of_le (Nat.le_of_not_lt hj)
    cases i with
    | zero => simp
    | succ i => simp [Nat.testBit_succ, Nat.mul_add_div]

/-- The loop over the set bits that clears the lowest one by `x & (x - 1)`. -/
theorem setBits_eq_ctz_cons_and_sub_one {x : BitVec w} (hx : x ≠ 0#w) :
    setBits x = x.ctz.toNat :: setBits (x &&& (x - 1#w)) := by
  rw [setBits_eq_ctz_cons hx, setBits, setBits]
  congr 2
  funext j
  rw [getLsbD_clearBit, getLsbD_and_sub_one hx]

theorem filter_range_of_high {p : Nat → Bool} {n m : Nat} (hnm : n ≤ m)
    (hhigh : ∀ i, n ≤ i → p i = false) : (List.range m).filter p = (List.range n).filter p := by
  obtain ⟨k, rfl⟩ := Nat.exists_eq_add_of_le hnm
  have hnone : ((List.range k).map (n + ·)).filter p = [] := by
    refine List.filter_eq_nil_iff.mpr fun i hi => ?_
    obtain ⟨j, -, rfl⟩ := List.mem_map.mp hi
    rw [hhigh _ (Nat.le_add_right n j)]
    exact Bool.false_ne_true
  rw [List.range_add, List.filter_append, hnone, List.append_nil]

theorem clz_lt {x : BitVec w} (hx : x ≠ 0#w) : x.clz.toNat < w := by
  have hlt := BitVec.lt_def.mp (BitVec.clz_lt_iff_ne_zero.mpr hx)
  exact hlt.trans_le (by simp)

/-- The highest set bit comes last, after the set bits of the word without it. -/
theorem setBits_eq_append_clz {x : BitVec w} (hx : x ≠ 0#w) :
    setBits x = setBits (x &&& ~~~(1#w <<< (w - x.clz.toNat - 1))) ++ [w - x.clz.toNat - 1] := by
  have hlt := clz_lt hx
  have hbit : x.getLsbD (w - x.clz.toNat - 1) = true := by
    rw [Nat.sub_right_comm]
    exact BitVec.getLsbD_true_clz_of_ne_zero (by omega) hx
  obtain ⟨k, hk⟩ : ∃ k, w - x.clz.toNat - 1 = k := ⟨_, rfl⟩
  have hhigh : ∀ i, k + 1 ≤ i → x.getLsbD i = false := by
    intro i hi
    have hle : x.toNat < 2 ^ i :=
      BitVec.toNat_lt_two_pow_sub_clz.trans_le (Nat.pow_le_pow_right (by decide) (by omega))
    rw [BitVec.getLsbD, Nat.testBit_lt_two_pow hle]
  rw [hk] at hbit ⊢
  have hclear : ∀ i, k ≤ i → (x &&& ~~~(1#w <<< k)).getLsbD i = false := by
    intro i hi
    rw [getLsbD_clearBit]
    rcases Nat.eq_or_lt_of_le hi with rfl | hlt
    · simp
    · rw [hhigh i hlt, Bool.false_and]
  have hlow : (List.range k).filter (x &&& ~~~(1#w <<< k)).getLsbD = (List.range k).filter x.getLsbD := by
    apply List.filter_congr
    intro i hi
    rw [getLsbD_clearBit]
    simp [(List.mem_range.mp hi).ne]
  rw [setBits, setBits, filter_range_of_high (by omega : k + 1 ≤ w) hhigh,
    filter_range_of_high (by omega : k ≤ w) hclear, hlow, List.range_succ, List.filter_append]
  simp [hbit]

/-- A test of the lowest bit after a shift is a test of that bit. -/
theorem shiftRight_and_one_eq_one_iff {x : BitVec w} {i : Nat} (hw : 0 < w) :
    (x >>> i) &&& 1#w = 1#w ↔ x.getLsbD i = true := by
  constructor
  · intro h
    have h0 : ((x >>> i) &&& 1#w).getLsbD 0 = (1#w).getLsbD 0 := by rw [h]
    simpa [hw] using h0
  · intro h
    apply BitVec.eq_of_getLsbD_eq
    intro j hj
    by_cases h0 : j = 0
    · subst h0
      simp [h, hw]
    · simp [BitVec.getLsbD_one, h0]

end Bits
