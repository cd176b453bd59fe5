import RustSbi.Lib.Napot
import RustSbi.Smm.Slots

/-!
Programming of PMP entries by the `pmpm` crate (`pmpm/src/lib.rs`) on 64-bit targets: the encoding
of a slice as an address register and back, and the entry that `set_pmp_entry` programs. Arithmetic
wraps and shifts mask their amount as in a release build.
-/

namespace RustSbi.Smm

open RustSbi.Firmware (Range Pmp PmpConfig)

/-- `PMP_SHIFT`. -/
def pmpShift : BitVec 32 := 2#32

/-- `usize::BITS`. -/
def usizeBits : BitVec 32 := 64#32

/-- `PmpSlice`. -/
structure PmpSlice where
  paLo : BitVec 64
  paHi : BitVec 64
  log2len : BitVec 32
  deriving DecidableEq, Repr

/-- `1usize << amount`. -/
def oneShiftLeft (amount : BitVec 32) : BitVec 64 := 1#64 <<< (amount.toNat % 64)

/-- `encode_pmp_addr`. -/
def encodePmpAddr (slice : PmpSlice) (range : Range) : BitVec 64 :=
  let addr := slice.paLo
  let log2len := slice.log2len &&& (usizeBits ||| (usizeBits - 1#32))
  match range with
  | .napot =>
    if log2len = usizeBits then BitVec.allOnes 64
    else
      let addrmask := oneShiftLeft (log2len - pmpShift) - 1#64
      let addr := (addr >>> 2) &&& ~~~addrmask
      addr ||| (addrmask >>> 1)
  | .na4 => addr >>> 2
  | .tor => addr >>> 2
  | .off => 0#64

/-- `decode_pmp_addr`. -/
def decodePmpAddr (pmpaddr : BitVec 64) (range : Range) : PmpSlice :=
  match range with
  | .napot =>
    if pmpaddr = BitVec.allOnes 64 then ⟨0#64, 0#64, usizeBits⟩
    else
      let log2len := BitVec.ofNat 32 (~~~pmpaddr).ctz.toNat
      let addr := (pmpaddr &&& ~~~(oneShiftLeft log2len - 1#64)) <<< 2
      ⟨addr, 0#64, log2len + pmpShift + 1#32⟩
  | .na4 => ⟨pmpaddr <<< 2, 0#64, 2#32⟩
  | .tor => ⟨pmpaddr <<< 2, 0#64, 0#32⟩
  | .off => ⟨0#64, 0#64, 0#32⟩

/-- `set_pmp_cfg`: field `idx % 8` of `pmpcfg0` or `pmpcfg2`; `none` is its panic. -/
def setPmpCfg (idx : Nat) (config : PmpConfig) (pmp : Pmp) : Option Pmp :=
  if idx ≤ 7 then some { pmp with cfg := Function.update pmp.cfg (4 * 0 + idx % 8) config }
  else if idx ≤ 15 then some { pmp with cfg := Function.update pmp.cfg (4 * 2 + idx % 8) config }
  else none

/-- `_set_pmp_addr`; `none` is its panic. -/
def setPmpAddrRegister (idx : Nat) (addr : BitVec 64) (pmp : Pmp) : Option Pmp :=
  if idx ≤ 15 then some { pmp with addr := Function.update pmp.addr idx addr.toNat } else none

/-- The `log2len` of `set_pmp_entry`; `none` is the panic of `ilog2`. -/
def sliceLog2len (len : BitVec 64) : Option (BitVec 32) :=
  if len = BitVec.allOnes 64 then some usizeBits
  else if len = 0#64 then none
  else some (BitVec.ofNat 32 len.toNat.log2)

/-- `set_pmp_entry`. -/
def setPmpEntry (idx : Nat) (addr len : BitVec 64) (config : PmpConfig) (pmp : Pmp) :
    Option Pmp := do
  let slice : PmpSlice := ⟨addr, 0#64, ← sliceLog2len len⟩
  let pmp ← setPmpAddrRegister idx (encodePmpAddr slice config.range) pmp
  setPmpCfg idx config pmp

/-! ## Encoding and decoding -/

/-- A naturally aligned slice of 8 bytes up to the whole address space. -/
structure PmpSlice.Aligned (slice : PmpSlice) : Prop where
  eight_le : 3 ≤ slice.log2len.toNat
  le_bits : slice.log2len.toNat ≤ 64
  aligned : 2 ^ slice.log2len.toNat ∣ slice.paLo.toNat

variable {slice slice' : PmpSlice}

theorem getLsbD_onesBelow (amount : BitVec 32) (hamount : amount.toNat < 64) (j : Nat) :
    (oneShiftLeft amount - 1#64).getLsbD j = decide (j < amount.toNat) := by
  have hvalue : (oneShiftLeft amount - 1#64).toNat = 2 ^ amount.toNat - 1 := by
    have hpow : 2 ^ amount.toNat < 2 ^ 64 := Nat.pow_lt_pow_right Nat.one_lt_two hamount
    have hpos := Nat.two_pow_pos amount.toNat
    have hshift : (oneShiftLeft amount).toNat = 2 ^ amount.toNat := by
      rw [oneShiftLeft, Nat.mod_eq_of_lt hamount, BitVec.toNat_shiftLeft, BitVec.toNat_ofNat,
        Nat.shiftLeft_eq, Nat.one_mod_two_pow (by decide), one_mul, Nat.mod_eq_of_lt hpow]
    rw [BitVec.toNat_sub_of_le (by rw [BitVec.le_def, hshift]; exact hpos), hshift]
    rfl
  rw [← BitVec.testBit_toNat, hvalue, Nat.testBit_two_pow_sub_one]

theorem PmpSlice.Aligned.log2len_masked (hslice : slice.Aligned) :
    slice.log2len &&& (usizeBits ||| (usizeBits - 1#32)) = slice.log2len := by
  have hmask : (usizeBits ||| (usizeBits - 1#32)).toNat = 2 ^ 7 - 1 := rfl
  have hlt : slice.log2len.toNat < 2 ^ 7 := by
    have := hslice.le_bits
    omega
  apply BitVec.eq_of_toNat_eq
  rw [BitVec.toNat_and, hmask, Nat.and_two_pow_sub_one_of_lt_two_pow hlt]

theorem PmpSlice.Aligned.log2len_lt (hslice : slice.Aligned) (hfull : slice.log2len ≠ usizeBits) :
    slice.log2len.toNat < 64 := by
  have hle := hslice.le_bits
  have hne : slice.log2len.toNat ≠ 64 := fun h => hfull (BitVec.eq_of_toNat_eq h)
  omega

/-- A slice below the whole address space is encoded as the mark of its block. -/
theorem encodePmpAddr_toNat (hslice : slice.Aligned) (hfull : slice.log2len ≠ usizeBits) :
    (encodePmpAddr slice .napot).toNat =
      Napot.mark (slice.log2len.toNat - 3) (slice.paLo.toNat / 2 ^ slice.log2len.toNat) := by
  have hmin := hslice.eight_le
  have hlt := hslice.log2len_lt hfull
  have hamount : (slice.log2len - pmpShift).toNat = slice.log2len.toNat - 2 := by
    rw [BitVec.toNat_sub_of_le (by rw [BitVec.le_def]; exact (by decide : 2 ≤ 3).trans hmin)]
    rfl
  have hmask := getLsbD_onesBelow (slice.log2len - pmpShift) (by omega)
  simp only [encodePmpAddr, hslice.log2len_masked, if_neg hfull]
  apply Nat.eq_of_testBit_eq
  intro j
  rw [Napot.testBit_mark, Nat.testBit_div_two_pow]
  simp only [BitVec.testBit_toNat, BitVec.getLsbD_or, BitVec.getLsbD_and, BitVec.getLsbD_not,
    BitVec.getLsbD_ushiftRight, hmask, hamount]
  by_cases hword : j < 64
  · by_cases hrun : j < slice.log2len.toNat - 3 + 1
    · simp [hword, hrun, show j < slice.log2len.toNat - 2 by omega]
      omega
    · have hbit : j - (slice.log2len.toNat - 3 + 1) + slice.log2len.toNat = 2 + j := by omega
      simp [hword, hrun, show ¬ j < slice.log2len.toNat - 2 by omega,
        show ¬ 1 + j < slice.log2len.toNat - 2 by omega, hbit]
  · have hbit : j - (slice.log2len.toNat - 3 + 1) + slice.log2len.toNat = 2 + j := by omega
    have hhigh : slice.paLo.getLsbD (2 + j) = false := BitVec.getLsbD_of_ge _ _ (by omega)
    simp [hbit, hhigh, show ¬ j < slice.log2len.toNat - 3 + 1 by omega,
      show ¬ 1 + j < slice.log2len.toNat - 2 by omega]

theorem encodePmpAddr_full (hslice : slice.Aligned) (hfull : slice.log2len = usizeBits) :
    encodePmpAddr slice .napot = BitVec.allOnes 64 := by
  simp only [encodePmpAddr, hslice.log2len_masked, if_pos hfull]

theorem encodePmpAddr_ne_allOnes (hslice : slice.Aligned) (hfull : slice.log2len ≠ usizeBits) :
    encodePmpAddr slice .napot ≠ BitVec.allOnes 64 := by
  have hlt := hslice.log2len_lt hfull
  intro hall
  have hzero := Napot.testBit_mark (slice.log2len.toNat - 3)
    (slice.paLo.toNat / 2 ^ slice.log2len.toNat) (slice.log2len.toNat - 3)
  rw [← encodePmpAddr_toNat hslice hfull, hall, BitVec.testBit_toNat, BitVec.getLsbD_allOnes,
    decide_eq_true (show slice.log2len.toNat - 3 < 64 by omega)] at hzero
  simp at hzero

theorem PmpSlice.Aligned.getLsbD_low (hslice : slice.Aligned) {j : Nat}
    (hj : j < slice.log2len.toNat) : slice.paLo.getLsbD j = false := by
  obtain ⟨block, hblock⟩ := hslice.aligned
  rw [← BitVec.testBit_toNat, hblock, Nat.testBit_two_pow_mul]
  simp [hj]

/-- Decoding gives back the slice that was encoded; nothing is kept in `pa_hi`. -/
theorem decodePmpAddr_encodePmpAddr (hslice : slice.Aligned) :
    decodePmpAddr (encodePmpAddr slice .napot) .napot = { slice with paHi := 0#64 } := by
  by_cases hfull : slice.log2len = usizeBits
  · have hlo : slice.paLo = 0#64 := by
      apply BitVec.eq_of_toNat_eq
      have hdvd := hslice.aligned
      rw [hfull] at hdvd
      exact Nat.eq_zero_of_dvd_of_lt hdvd slice.paLo.isLt
    rw [encodePmpAddr_full hslice hfull]
    simp only [decodePmpAddr, if_true, hlo, hfull]
  · have hmin := hslice.eight_le
    have hlt := hslice.log2len_lt hfull
    have hmark := encodePmpAddr_toNat hslice hfull
    have hctz := Napot.ctz_not_mark hmark (by omega)
    have hamount : (BitVec.ofNat 32 (slice.log2len.toNat - 3)).toNat = slice.log2len.toNat - 3 :=
      (BitVec.toNat_ofNat _ _).trans (Nat.mod_eq_of_lt (by omega))
    have hones := getLsbD_onesBelow (BitVec.ofNat 32 (slice.log2len.toNat - 3)) (by omega)
    have hlog : BitVec.ofNat 32 (slice.log2len.toNat - 3) + pmpShift + 1#32 = slice.log2len := by
      apply BitVec.eq_of_toNat_eq
      simp only [BitVec.toNat_add, hamount, pmpShift, BitVec.toNat_ofNat]
      omega
    simp only [decodePmpAddr, if_neg (encodePmpAddr_ne_allOnes hslice hfull), hctz, hlog,
      PmpSlice.mk.injEq, and_true]
    apply BitVec.eq_of_getLsbD_eq
    intro j hj
    have hbit := Napot.testBit_mark (slice.log2len.toNat - 3)
      (slice.paLo.toNat / 2 ^ slice.log2len.toNat) (j - 2)
    rw [← hmark, BitVec.testBit_toNat, Nat.testBit_div_two_pow] at hbit
    rw [BitVec.getLsbD_shiftLeft, BitVec.getLsbD_and, BitVec.getLsbD_not, hones, hamount, hbit,
      BitVec.testBit_toNat]
    by_cases hlow : j < slice.log2len.toNat
    · rw [hslice.getLsbD_low hlow]
      by_cases hshift : j < 2
      · simp [hshift]
      · simp [show j - 2 < slice.log2len.toNat - 3 + 1 by omega]
        omega
    · have hindex : j - 2 - (slice.log2len.toNat - 3 + 1) + slice.log2len.toNat = j := by omega
      rw [hindex]
      simp [hj, show ¬ j < 2 by omega, show ¬ j - 2 < slice.log2len.toNat - 3 + 1 by omega,
        show ¬ j - 2 < slice.log2len.toNat - 3 by omega]
      omega

/-! ## The programmed entry -/

variable {idx : Nat} {addr len : BitVec 64} {config : PmpConfig} {pmp pmp' : Pmp}

theorem setPmpEntry_eq (hidx : idx ≤ 15) {log2len : BitVec 32}
    (hlog2len : sliceLog2len len = some log2len) :
    setPmpEntry idx addr len config pmp = some
      { cfg := Function.update pmp.cfg idx config
        addr := Function.update pmp.addr idx
          (encodePmpAddr ⟨addr, 0#64, log2len⟩ config.range).toNat } := by
  have hcfg : ∀ pmp, setPmpCfg idx config pmp =
      some { pmp with cfg := Function.update pmp.cfg idx config } := by
    intro pmp
    unfold setPmpCfg
    split
    next hlow => rw [show 4 * 0 + idx % 8 = idx by omega]
    next hhigh => simp only [show 4 * 2 + idx % 8 = idx by omega]
  simp only [setPmpEntry, hlog2len, setPmpAddrRegister, if_pos hidx, hcfg, Option.bind_eq_bind,
    Option.bind_some]

/-- The panics of `set_pmp_entry`: no such entry, or an empty area. -/
theorem setPmpEntry_eq_none_iff :
    setPmpEntry idx addr len config pmp = none ↔ 15 < idx ∨ len = 0#64 := by
  by_cases hlen : len = 0#64
  · subst hlen
    exact iff_of_true rfl (.inr rfl)
  obtain ⟨log2len, hlog2len⟩ : ∃ log2len, sliceLog2len len = some log2len := by
    unfold sliceLog2len
    rw [if_neg hlen]
    split
    next => exact ⟨_, rfl⟩
    next => exact ⟨_, rfl⟩
  by_cases hidx : idx ≤ 15
  · rw [setPmpEntry_eq hidx hlog2len]
    simp [hlen, hidx]
  · simp [setPmpEntry, hlog2len, setPmpAddrRegister, hidx, hlen, not_le.mp hidx]

theorem matches_mark_iff (k block : Nat) {i a : Nat} (hrange : (pmp.cfg i).range = .napot)
    (haddr : pmp.addr i = Napot.mark k block) :
    pmp.Matches i a ↔ a / 2 ^ (k + 3) = block := by
  unfold Pmp.Matches
  rw [hrange]
  simp only [haddr, Napot.mark_xor_succ, Napot.mark_div]
  rw [Nat.div_div_eq_div_mul, show 4 * 2 ^ (k + 1) = 2 ^ (k + 3) by ring]

theorem sliceLog2len_two_pow {k : Nat} (hk : 3 ≤ k) (hlen : len.toNat = 2 ^ k) :
    k < 64 ∧ sliceLog2len len = some (BitVec.ofNat 32 k) := by
  have hlt : k < 64 := (Nat.pow_lt_pow_iff_right Nat.one_lt_two).mp (hlen ▸ len.isLt)
  have hodd : len ≠ BitVec.allOnes 64 := by
    rintro rfl
    have hdvd : 2 ∣ (BitVec.allOnes 64).toNat := hlen ▸ dvd_pow_self 2 (by omega)
    revert hdvd
    decide
  have hzero : len ≠ 0#64 := by
    rintro rfl
    have := Nat.two_pow_pos k
    rw [← hlen] at this
    exact absurd this (by decide)
  refine ⟨hlt, ?_⟩
  rw [sliceLog2len, if_neg hodd, if_neg hzero, hlen, Nat.log2_two_pow]

theorem setPmpEntry_matches (hidx : idx ≤ 15)
    (hrange : config.range = .na4 ∨ config.range = .napot)
    (harea : checkPmpAreaAvailable addr.toNat len.toNat config.range = true) :
    ∃ pmp', setPmpEntry idx addr len config pmp = some pmp' ∧
      ∀ a, pmp'.Matches idx a ↔ addr.toNat ≤ a ∧ a < addr.toNat + len.toNat := by
  rcases hrange with hrange | hrange
  · rw [hrange] at harea
    simp only [checkPmpAreaAvailable, Bool.and_eq_true, beq_iff_eq] at harea
    obtain ⟨halign, hfour⟩ := harea
    obtain rfl : len = 4#64 := BitVec.eq_of_toNat_eq hfour
    have hmod : addr.toNat % 4 = 0 := by
      rw [← halign]
      exact (Nat.and_two_pow_sub_one_eq_mod addr.toNat 2).symm
    refine ⟨_, setPmpEntry_eq hidx rfl, fun a => ?_⟩
    simp only [Pmp.Matches, Function.update_self, hrange, encodePmpAddr, BitVec.toNat_ushiftRight,
      Nat.shiftRight_eq_div_pow, hfour]
    omega
  · rw [hrange] at harea
    obtain ⟨⟨k, hk, hlen⟩, haligned⟩ := checkPmpAreaAvailable_napot_iff.mp harea
    obtain ⟨hlt, hlog2len⟩ := sliceLog2len_two_pow hk hlen
    have hsize : (BitVec.ofNat 32 k).toNat = k :=
      (BitVec.toNat_ofNat _ _).trans (Nat.mod_eq_of_lt (by omega))
    have hslice : (PmpSlice.mk addr 0#64 (BitVec.ofNat 32 k)).Aligned := by
      refine ⟨by simp only [hsize]; exact hk, by simp only [hsize]; omega, ?_⟩
      simp only [hsize]
      exact hlen ▸ haligned
    have hfull : BitVec.ofNat 32 k ≠ usizeBits := by
      intro h
      rw [h] at hsize
      exact absurd hsize.symm hlt.ne
    have hmark := encodePmpAddr_toNat hslice hfull
    simp only [hsize] at hmark
    refine ⟨_, setPmpEntry_eq hidx hlog2len, fun a => ?_⟩
    rw [matches_mark_iff (k - 3) (addr.toNat / 2 ^ k) (by simp [hrange])
      (by simp [hrange, hmark]), Nat.sub_add_cancel hk]
    obtain ⟨block, hblock⟩ := haligned
    rw [hlen] at hblock ⊢
    have hpos := Nat.two_pow_pos k
    rw [hblock, Nat.mul_div_cancel_left _ hpos, Nat.div_eq_iff hpos, Nat.mul_comm block]
    generalize 2 ^ k * block = lo
    omega

theorem encodePmpAddr_injective (hslice : slice.Aligned) (hslice' : slice'.Aligned)
    (hencode : encodePmpAddr slice .napot = encodePmpAddr slice' .napot) :
    slice.paLo = slice'.paLo ∧ slice.log2len = slice'.log2len := by
  have hdecode := decodePmpAddr_encodePmpAddr hslice
  rw [hencode, decodePmpAddr_encodePmpAddr hslice', PmpSlice.mk.injEq] at hdecode
  exact ⟨hdecode.1.symm, hdecode.2.2.symm⟩

/-- NAPOT programming covers exactly the request: aligned slices from 8 bytes to the whole address
space are decoded from their encodings and have different ones, and the entry that is programmed for
an accepted area matches its bytes and no others. -/
theorem napot_exact :
    (∀ slice : PmpSlice, slice.Aligned →
      decodePmpAddr (encodePmpAddr slice .napot) .napot = { slice with paHi := 0#64 }) ∧
    (∀ slice slice' : PmpSlice, slice.Aligned → slice'.Aligned →
      encodePmpAddr slice .napot = encodePmpAddr slice' .napot →
      slice.paLo = slice'.paLo ∧ slice.log2len = slice'.log2len) ∧
    ∀ (idx : Nat) (addr len : BitVec 64) (config : PmpConfig) (pmp : Pmp), idx ≤ 15 →
      config.range = .na4 ∨ config.range = .napot →
      checkPmpAreaAvailable addr.toNat len.toNat config.range = true →
      ∃ pmp', setPmpEntry idx addr len config pmp = some pmp' ∧
        ∀ a, pmp'.Matches idx a ↔ addr.toNat ≤ a ∧ a < addr.toNat + len.toNat :=
  ⟨fun _ => decodePmpAddr_encodePmpAddr, fun _ _ => encodePmpAddr_injective,
    fun _ _ _ _ _ => setPmpEntry_matches⟩

/-- The 64 KiB region of the tests of the crate, its encoding and the entry for it. -/
theorem napot_exact_64_kib :
    encodePmpAddr ⟨0x10000#64, 0#64, 16#32⟩ .napot = 0x5fff#64 ∧
    decodePmpAddr 0x5fff#64 .napot = ⟨0x10000#64, 0#64, 16#32⟩ ∧
    ∃ pmp', setPmpEntry 3 0x10000#64 0x10000#64 ⟨.napot, .rwx, false⟩ .reset = some pmp' ∧
      ∀ a, pmp'.Matches 3 a ↔ 0x10000 ≤ a ∧ a < 0x20000 := by
  have hencode : encodePmpAddr ⟨0x10000#64, 0#64, 16#32⟩ .napot = 0x5fff#64 := by decide
  refine ⟨hencode, ?_, ?_⟩
  · rw [← hencode]
    exact napot_exact.1 _ ⟨by decide, by decide, ⟨1, rfl⟩⟩
  · exact napot_exact.2.2 3 0x10000#64 0x10000#64 ⟨.napot, .rwx, false⟩ .reset (by decide)
      (.inr rfl) (by decide)

end RustSbi.Smm
