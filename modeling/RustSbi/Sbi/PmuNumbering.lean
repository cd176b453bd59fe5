import RustSbi.Sbi.PmuSafety

/-!
The two numberings of the hardware counters: `get_mhpm_csr_offset` counts the
implemented offsets from 0 up, `counter_get_info` clears the lowest bit of the
mask once a counter. Both are positions in the list of the mask's set bits.
-/

namespace RustSbi.Pmu

open Bits Checked

variable {xlen : Xlen} {features : HartFeatures} {hart : Hart xlen}

namespace CounterInfo

/-- Bits 11..0: the CSR number of a hardware counter. -/
def csr (info : Nat) : Nat := info &&& 0xFFF

/-- The most significant bit: set for firmware counters. -/
def isFirmware (xlen : Xlen) (info : Nat) : Bool := info.testBit (xlen.bits - 1)

end CounterInfo

/-! ## The two loops -/

/-- What `counter_get_info` answers for the counter at an offset from `cycle`. -/
def infoAt (offset : Nat) : SbiRet :=
  if offset = 1 then .invalidParam
  else .success (((0xC00 + offset) &&& 0xFFF) ||| ((63 &&& 0x3F) <<< 12))

theorem counterGetInfoLoop_eq (counterIdx : Nat) (remainingMask : BitVec 32) (count : Nat)
    (h : count ≤ counterIdx) :
    counterGetInfoLoop counterIdx remainingMask count =
      ((setBits remainingMask)[counterIdx - count]?.map infoAt).getD .invalidParam := by
  induction remainingMask, count using counterGetInfoLoop.induct counterIdx with
  | case1 count => simp [counterGetInfoLoop, setBits_zero]
  | case2 mask hmask offset hone =>
    rw [counterGetInfoLoop, setBits_eq_ctz_cons_and_sub_one hmask]
    simp [hmask, infoAt, show mask.ctz.toNat = 1 from hone]
  | case3 mask hmask offset hone =>
    rw [counterGetInfoLoop, setBits_eq_ctz_cons_and_sub_one hmask]
    simp [hmask, infoAt, show mask.ctz.toNat ≠ 1 from hone]
  | case4 mask count hmask hcount ih =>
    rw [counterGetInfoLoop, dif_neg hmask, if_neg hcount, ih (by omega),
      setBits_eq_ctz_cons_and_sub_one hmask]
    obtain ⟨rest, hrest⟩ : ∃ rest, counterIdx - count = rest + 1 := ⟨counterIdx - count - 1, by omega⟩
    rw [hrest, List.getElem?_cons_succ, show counterIdx - (count + 1) = rest by omega]

/-- Both loops find the same counter. -/
theorem counterGetInfoLoop_eq_getMhpmCsrOffset (features : HartFeatures) (counterIdx : Nat) :
    counterGetInfoLoop counterIdx features.mhpmMask 0 =
      ((getMhpmCsrOffset features counterIdx).map infoAt).getD .invalidParam := by
  rw [counterGetInfoLoop_eq counterIdx _ 0 (Nat.zero_le _), getMhpmCsrOffset_eq, Nat.sub_zero]

theorem counterGetInfo_of_lt (h : WellNumbered features hart.pmu) {counterIdx offset : Nat}
    (hlt : counterIdx < hart.pmu.hwCountersNum)
    (hoffset : getMhpmCsrOffset features counterIdx = some offset) :
    (counterGetInfo features counterIdx).run hart = .ok (infoAt offset, hart) := by
  have htotal : ¬ hart.pmu.totalCountersNum ≤ counterIdx := by
    rw [h.total]
    omega
  have hloop := counterGetInfoLoop_eq_getMhpmCsrOffset features counterIdx
  rw [hoffset] at hloop
  have hrun : (counterGetInfo features counterIdx).run hart =
      .ok (counterGetInfoLoop counterIdx features.mhpmMask 0, hart) := by
    simp [counterGetInfo, numCounters, htotal, hlt]
  rw [hrun, hloop]
  rfl

/-- The information word of a hardware counter names its CSR. -/
theorem csr_infoAt (xlen : Xlen) {offset : Nat} (hoffset : offset < 32) (hone : offset ≠ 1) :
    ∃ info, infoAt offset = .success info ∧ CounterInfo.csr info = 0xC00 + offset ∧
      CounterInfo.isFirmware xlen info = false := by
  refine ⟨_, if_neg hone, ?_, ?_⟩
  · rw [CounterInfo.csr]
    revert offset
    decide
  · cases xlen
    · revert offset
      decide
    · revert offset
      decide

/-! ## Positions in the mask -/

theorem pairwise_setBits {w : Nat} (x : BitVec w) : (setBits x).Pairwise (· < ·) :=
  List.pairwise_lt_range.filter _

theorem getMhpmCsrOffset_lt {i j a b : Nat} (hij : i < j)
    (ha : getMhpmCsrOffset features i = some a) (hb : getMhpmCsrOffset features j = some b) :
    a < b := by
  rw [getMhpmCsrOffset_eq] at ha hb
  obtain ⟨hi, rfl⟩ := List.getElem?_eq_some_iff.mp ha
  obtain ⟨hj, rfl⟩ := List.getElem?_eq_some_iff.mp hb
  exact List.pairwise_iff_getElem.mp (pairwise_setBits features.mhpmMask) i j hi hj hij

theorem exists_getMhpmCsrOffset_iff {offset : Nat} :
    (∃ i, getMhpmCsrOffset features i = some offset) ↔
      features.mhpmMask.getLsbD offset = true := by
  simp only [getMhpmCsrOffset_eq]
  rw [← List.mem_iff_getElem?, mem_setBits_iff]

theorem getMhpmCsrOffset_eq_none_iff {i : Nat} :
    getMhpmCsrOffset features i = none ↔ countOnes features.mhpmMask ≤ i := by
  rw [getMhpmCsrOffset_eq, List.getElem?_eq_none_iff, countOnes]

/-! ## One numbering -/

/-- Hardware counter indices number the set bits of the mask in increasing
order, and `counter_get_info` reports the CSR at the offset that
`get_mhpm_csr_offset` returns; the time counter, which the extension does not
offer, is reported as an invalid parameter. -/
theorem counter_numbering (h : WellNumbered features hart.pmu) :
    (∀ counterIdx < hart.pmu.hwCountersNum, ∃ offset,
      getMhpmCsrOffset features counterIdx = some offset ∧
      (offset = 1 → (counterGetInfo features counterIdx).run hart = .ok (.invalidParam, hart)) ∧
      (offset ≠ 1 → ∃ info,
        (counterGetInfo features counterIdx).run hart = .ok (.success info, hart) ∧
        CounterInfo.csr info = 0xC00 + offset ∧ CounterInfo.isFirmware xlen info = false)) ∧
    (∀ i j a b, i < j → getMhpmCsrOffset features i = some a →
      getMhpmCsrOffset features j = some b → a < b) ∧
    (∀ offset, (∃ counterIdx, getMhpmCsrOffset features counterIdx = some offset) ↔
      features.mhpmMask.getLsbD offset = true) ∧
    (∀ counterIdx, hart.pmu.hwCountersNum ≤ counterIdx →
      getMhpmCsrOffset features counterIdx = none) := by
  refine ⟨fun counterIdx hlt => ?_, fun i j a b hij ha hb => getMhpmCsrOffset_lt hij ha hb,
    fun offset => exists_getMhpmCsrOffset_iff, fun counterIdx hge => ?_⟩
  · have hcount : counterIdx < countOnes features.mhpmMask := h.hardware ▸ hlt
    obtain ⟨offset, hoffset, hget⟩ := getMhpmCsrOffset_of_lt hcount
    have hrun := counterGetInfo_of_lt h hlt hget
    refine ⟨offset, hget, fun hone => ?_, fun hone => ?_⟩
    · rw [hrun, infoAt, if_pos hone]
    · obtain ⟨info, hinfo, hcsr, hfirmware⟩ := csr_infoAt xlen hoffset hone
      exact ⟨info, by rw [hrun, hinfo], hcsr, hfirmware⟩
  · exact getMhpmCsrOffset_eq_none_iff.mpr (h.hardware ▸ hge)

/-- A hart with the fixed counters and counters 4 and 31. -/
def sparseFeatures : HartFeatures := ⟨.version1_12, 0x80000017#32⟩

def sparseHart : Hart .rv64 := ⟨.new .rv64 sparseFeatures.mhpmMask, ⟨0, fun _ => 0, fun _ => 0⟩⟩

theorem counter_numbering_sparse :
    ∃ info, (counterGetInfo sparseFeatures 4).run sparseHart = .ok (.success info, sparseHart) ∧
      CounterInfo.csr info = 0xC1F ∧ CounterInfo.isFirmware .rv64 info = false := by
  have hnew : WellNumbered sparseFeatures sparseHart.pmu := .new .rv64 sparseFeatures
  obtain ⟨offset, hoffset, -, hreport⟩ := (counter_numbering hnew).1 4 (by decide)
  have hlast : getMhpmCsrOffset sparseFeatures 4 = some 31 := by decide
  obtain rfl : 31 = offset := Option.some.inj (hlast.symm.trans hoffset)
  exact hreport (by decide)

/-- Index 1 is the time counter: its offset is known, but no CSR is reported. -/
theorem time_counter_not_reported :
    WellNumbered sparseFeatures sparseHart.pmu ∧ 1 < sparseHart.pmu.hwCountersNum ∧
    getMhpmCsrOffset sparseFeatures 1 = some 1 ∧
    ¬ ∃ info, (counterGetInfo sparseFeatures 1).run sparseHart = .ok (.success info, sparseHart) ∧
      CounterInfo.csr info = 0xC00 + 1 := by
  have hnew : WellNumbered sparseFeatures sparseHart.pmu := .new .rv64 sparseFeatures
  have hlt : 1 < sparseHart.pmu.hwCountersNum := by decide
  have hoffset : getMhpmCsrOffset sparseFeatures 1 = some 1 := by decide
  refine ⟨hnew, hlt, hoffset, ?_⟩
  rintro ⟨info, hrun, -⟩
  rw [counterGetInfo_of_lt hnew hlt hoffset] at hrun
  simp [infoAt] at hrun

end RustSbi.Pmu
