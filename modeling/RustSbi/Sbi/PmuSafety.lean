import RustSbi.Sbi.Pmu

/-!
Which PMU calls return. Every reachable state numbers its counters in the same
way: the implemented hardware counters first, then sixteen firmware counters.
Under that numbering the only calls that panic are configurations with
`SKIP_MATCH` that reuse a counter for an event of the other kind.
-/

namespace RustSbi.Pmu

open Bits Checked

variable {xlen : Xlen} {features : HartFeatures} {sbiPmu : SbiPmu} {hart : Hart xlen}

/-! ## Counter numbering -/

theorem mhpmCsrOffsetLoop_eq (mhpmMask : BitVec 32) (counterIdx : Nat) (offsets : List Nat)
    (count : Nat) (h : count ≤ counterIdx) :
    mhpmCsrOffsetLoop mhpmMask counterIdx offsets count =
      (offsets.filter mhpmMask.getLsbD)[counterIdx - count]? := by
  induction offsets generalizing count with
  | nil => simp [mhpmCsrOffsetLoop]
  | cons offset rest ih =>
    have hbit := shiftRight_and_one_eq_one_iff (x := mhpmMask) (i := offset) (by decide)
    unfold mhpmCsrOffsetLoop
    by_cases hset : mhpmMask.getLsbD offset = true
    · rw [if_pos (hbit.mpr hset), List.filter_cons_of_pos hset]
      by_cases hcount : count = counterIdx
      · subst hcount
        simp
      · have hnext : counterIdx - count = (counterIdx - (count + 1)) + 1 := by omega
        rw [if_neg hcount, ih (count + 1) (by omega), hnext, List.getElem?_cons_succ]
    · rw [if_neg (fun hone => hset (hbit.mp hone)), List.filter_cons_of_neg hset, ih count h]

/-- Hardware counter `i` is the `i`-th implemented one. -/
theorem getMhpmCsrOffset_eq (features : HartFeatures) (counterIdx : Nat) :
    getMhpmCsrOffset features counterIdx = (setBits features.mhpmMask)[counterIdx]? :=
  mhpmCsrOffsetLoop_eq features.mhpmMask counterIdx (List.range 32) 0 (Nat.zero_le _)

theorem getMhpmCsrOffset_of_lt {counterIdx : Nat} (h : counterIdx < countOnes features.mhpmMask) :
    ∃ offset < 32, getMhpmCsrOffset features counterIdx = some offset := by
  rw [getMhpmCsrOffset_eq, List.getElem?_eq_getElem h]
  exact ⟨_, lt_of_mem_setBits (List.getElem_mem h), rfl⟩

theorem getMhpmCsrOffset_of_ge {counterIdx : Nat} (h : countOnes features.mhpmMask ≤ counterIdx) :
    getMhpmCsrOffset features counterIdx = none := by
  rw [getMhpmCsrOffset_eq]
  exact List.getElem?_eq_none h

namespace CounterMask

theorem collect_eq (fuel : Nat) (counters : CounterMask xlen)
    (h : countOnes counters.counterIdxMask ≤ fuel) :
    counters.collect fuel =
      (setBits counters.counterIdxMask).map (· + counters.counterIdxBase) := by
  induction fuel generalizing counters with
  | zero =>
    have hnil : setBits counters.counterIdxMask = [] :=
      List.length_eq_zero_iff.mp (Nat.le_zero.mp h)
    simp [collect, hnil]
  | succ fuel ih =>
    by_cases hzero : counters.counterIdxMask = 0#(xlen.bits)
    · simp [collect, next, hzero, setBits_zero]
    · have hcons := setBits_eq_ctz_cons hzero
      have hrest := ih { counters with counterIdxMask := counters.counterIdxMask &&&
        ~~~(1#(xlen.bits) <<< counters.counterIdxMask.ctz.toNat) } (by
          rw [countOnes, hcons, List.length_cons] at h
          exact Nat.le_of_succ_le_succ h)
      simp only [collect, next, hzero, if_false, hrest]
      rw [hcons, List.map_cons]

/-- The iterator visits the set bits of the mask from the base on, in order. -/
theorem toList_eq (counters : CounterMask xlen) :
    counters.toList = (setBits counters.counterIdxMask).map (· + counters.counterIdxBase) :=
  collect_eq xlen.bits counters (countOnes_le _)

theorem mem_toList_iff {counters : CounterMask xlen} {counterIdx : Nat} :
    counterIdx ∈ counters.toList ↔
      ∃ i, counters.counterIdxMask.getLsbD i = true ∧ i + counters.counterIdxBase = counterIdx := by
  rw [toList_eq, List.mem_map]
  simp only [mem_setBits_iff]

end CounterMask

/-- What a multi-counter call requires of the set it is given. -/
def CounterSetValid (pmu : PmuState xlen) (counterIdxBase : Nat)
    (counterIdxMask : BitVec xlen.bits) : Prop :=
  counterIdxBase < pmu.totalCountersNum ∧ counterIdxMask ≠ 0#(xlen.bits) ∧
    ∀ i, counterIdxMask.getLsbD i = true → i + counterIdxBase < pmu.totalCountersNum

/-- The invariant of the counter numbering. -/
structure WellNumbered (features : HartFeatures) (pmu : PmuState xlen) : Prop where
  hardware : pmu.hwCountersNum = countOnes features.mhpmMask
  total : pmu.totalCountersNum = pmu.hwCountersNum + firmwareCounterMax

namespace WellNumbered

theorem new (xlen : Xlen) (features : HartFeatures) :
    WellNumbered features (PmuState.new xlen features.mhpmMask) := ⟨rfl, rfl⟩

theorem total_le {pmu : PmuState xlen} (h : WellNumbered features pmu) :
    pmu.totalCountersNum ≤ hardwareCounterMax + firmwareCounterMax := by
  rw [h.total, h.hardware]
  exact Nat.add_le_add_right (countOnes_le _) _

theorem of_eq {pmu pmu' : PmuState xlen} (h : WellNumbered features pmu) (heq : pmu' = pmu) :
    WellNumbered features pmu' := by
  rw [heq]
  exact h

end WellNumbered

/-- A mask shifted by `n` is zero when it has no bit from `n` on. -/
theorem shiftRight_eq_zero_iff {w : Nat} {x : BitVec w} {n : Nat} :
    x >>> n = 0#w ↔ ∀ i, x.getLsbD i = true → i < n := by
  constructor
  · intro h i hi
    by_contra hn
    have hbit : (x >>> n).getLsbD (i - n) = true := by
      rw [BitVec.getLsbD_ushiftRight, Nat.add_sub_cancel' (by omega)]
      exact hi
    rw [h] at hbit
    simp at hbit
  · intro h
    apply BitVec.eq_of_getLsbD_eq
    intro i _
    by_contra hne
    have hbit : x.getLsbD (n + i) = true := by
      simpa using hne
    have := h (n + i) hbit
    omega

theorem counterSetValid_iff {pmu : PmuState xlen} {base : Nat} {mask : BitVec xlen.bits}
    (hbase : base < pmu.totalCountersNum) (hmask : mask ≠ 0#(xlen.bits)) :
    CounterSetValid pmu base mask ↔
      (if pmu.totalCountersNum - base < xlen.bits then mask >>> (pmu.totalCountersNum - base)
        else 0#(xlen.bits)) = 0#(xlen.bits) := by
  constructor
  · intro h
    split
    · rw [shiftRight_eq_zero_iff]
      intro i hi
      have := h.2.2 i hi
      omega
    · rfl
  · intro h
    refine ⟨hbase, hmask, fun i hi => ?_⟩
    by_cases hlt : pmu.totalCountersNum - base < xlen.bits
    · rw [if_pos hlt, shiftRight_eq_zero_iff] at h
      have := h i hi
      omega
    · have := BitVec.lt_of_getLsbD hi
      omega

theorem counterSetInvalid_of_inside {pmu : PmuState xlen} (hpmu : WellNumbered features pmu)
    {base : Nat} {mask : BitVec xlen.bits} (hbase : base < pmu.totalCountersNum)
    (hmask : mask ≠ 0#(xlen.bits)) :
    counterSetInvalid pmu base mask = pure (decide
      ((if pmu.totalCountersNum - base < xlen.bits then mask >>> (pmu.totalCountersNum - base)
        else 0#(xlen.bits)) ≠ 0#(xlen.bits))) := by
  have hle := hpmu.total_le
  have hmax : hardwareCounterMax + firmwareCounterMax = 48 := rfl
  have hshift : (pmu.totalCountersNum - base) % 2 ^ 32 = pmu.totalCountersNum - base :=
    Nat.mod_eq_of_lt (by omega)
  simp only [counterSetInvalid, if_neg (Nat.not_le.mpr hbase), if_neg hmask, checkedSub,
    if_pos (Nat.le_of_lt hbase), pure_bind, hshift]

/-- The set check finds exactly the invalid sets, and never panics. -/
theorem counterSetInvalid_of_valid {pmu : PmuState xlen} (hpmu : WellNumbered features pmu)
    {base : Nat} {mask : BitVec xlen.bits} (hset : CounterSetValid pmu base mask) :
    counterSetInvalid pmu base mask = pure false := by
  have hrest := (counterSetValid_iff hset.1 hset.2.1).mp hset
  rw [counterSetInvalid_of_inside hpmu hset.1 hset.2.1, hrest]
  simp

theorem counterSetInvalid_of_not_valid {pmu : PmuState xlen} (hpmu : WellNumbered features pmu)
    {base : Nat} {mask : BitVec xlen.bits} (hset : ¬ CounterSetValid pmu base mask) :
    counterSetInvalid pmu base mask = pure true := by
  by_cases hbase : pmu.totalCountersNum ≤ base
  · rw [counterSetInvalid, if_pos hbase]
  · by_cases hmask : mask = 0#(xlen.bits)
    · rw [counterSetInvalid, if_neg hbase, if_pos hmask]
    · rw [counterSetInvalid_of_inside hpmu (Nat.not_le.mp hbase) hmask]
      rw [counterSetValid_iff (Nat.not_le.mp hbase) hmask] at hset
      rw [decide_eq_true hset]

/-! ## Routines that always return -/

/-- The PMU state of the hart is as it was in `pmu`, up to events and values:
the counter numbering stays. -/
abbrev Keeps (features : HartFeatures) {α : Type} : α → Hart xlen → Prop :=
  fun _ hart' => WellNumbered features hart'.pmu

theorem bits_ge (xlen : Xlen) : 32 ≤ xlen.bits := by
  cases xlen <;> decide

section AlwaysReturns

variable {Q : PUnit → Hart xlen → Prop}

/-- Register writes leave the PMU state alone. -/
theorem returns_writeMhpmcounter (offset : Nat) (value : BitVec 64)
    (hQ : ∀ hart', hart'.pmu = hart.pmu → Q ⟨⟩ hart') :
    Returns (writeMhpmcounter offset value) hart Q := by
  unfold writeMhpmcounter
  split
  · rw [returns_modify]
    exact hQ _ rfl
  · rw [returns_pure]
    exact hQ _ rfl

theorem returns_writeMhpmevent (offset : Nat) (value : BitVec 64)
    (hQ : ∀ hart', hart'.pmu = hart.pmu → Q ⟨⟩ hart') :
    Returns (writeMhpmevent offset value) hart Q := by
  unfold writeMhpmevent
  split
  · rw [returns_modify]
    exact hQ _ rfl
  · rw [returns_pure]
    exact hQ _ rfl

theorem returns_inhibitMask {offset : Nat} {counter : HardwareCounter}
    (h : HardwareCounter.tryFromOffset offset = some counter)
    {T : BitVec xlen.bits → Hart xlen → Prop} (hT : ∀ mask, T mask hart) :
    Returns counter.inhibitMask hart T := by
  have hbits := bits_ge xlen
  cases counter with
  | cycle => exact returns_shiftLeft.mpr ⟨by omega, hT _⟩
  | instret => exact returns_shiftLeft.mpr ⟨by omega, hT _⟩
  | hpm off =>
    unfold HardwareCounter.tryFromOffset at h
    split_ifs at h <;> cases h
    exact returns_shiftLeft.mpr ⟨by omega, hT _⟩

theorem returns_startHardwareCounter (offset : Nat) (value : BitVec 64) (isUpdate : Bool) :
    Returns (startHardwareCounter features offset value isUpdate) hart
      fun _ hart' => hart'.pmu = hart.pmu := by
  unfold startHardwareCounter
  cases hcounter : HardwareCounter.tryFromOffset offset with
  | none => simp
  | some counter =>
    cases hversion : features.privilegedVersion.hasCountinhibit with
    | false =>
      cases isUpdate with
      | false => simp
      | true => simpa using returns_writeMhpmcounter offset value fun _ h => h
    | true =>
      simp only [Bool.true_eq_false, if_false, returns_bind, returns_get]
      apply returns_inhibitMask hcounter
      intro mask
      by_cases hrunning : hart.csrs.mcountinhibit &&& mask = 0#(xlen.bits)
      · rw [if_pos hrunning]
        simp
      · rw [if_neg hrunning]
        cases isUpdate with
        | false => simp [writeMcountinhibit]
        | true =>
          simp only [if_true, returns_bind]
          apply returns_writeMhpmcounter
          intro hart' h
          simpa [writeMcountinhibit] using h

theorem returns_stopHardwareCounter (offset : Nat) (isReset : Bool) :
    Returns (stopHardwareCounter features offset isReset) hart
      fun _ hart' => hart'.pmu = hart.pmu := by
  unfold stopHardwareCounter
  cases hcounter : HardwareCounter.tryFromOffset offset with
  | none => simp
  | some counter =>
    rw [returns_bind]
    apply Returns.mono (Q := fun _ hart₁ => hart₁.pmu = hart.pmu)
    · rw [returns_ite]
      split_ifs
      · exact returns_writeMhpmevent offset 0 fun _ h => h
      · exact returns_pure.mpr rfl
    · intro _ hart₁ h
      cases hversion : features.privilegedVersion.hasCountinhibit with
      | false => simpa using h
      | true =>
        simp only [Bool.true_eq_false, if_false, returns_bind, returns_get]
        apply returns_inhibitMask hcounter
        intro mask
        rw [returns_ite]
        split_ifs
        · simpa using h
        · simpa [writeMcountinhibit] using h

theorem returns_startFwCounter (hpmu : WellNumbered features hart.pmu) (counterIdx : Nat)
    (value : BitVec 64) (isUpdate : Bool) :
    Returns (startFwCounter counterIdx value isUpdate) hart (Keeps features) := by
  have htotal := hpmu.total
  have hbits := bits_ge xlen
  have hmax : firmwareCounterMax = 16 := rfl
  simp only [startFwCounter, setPmu, returns_ite, returns_bind, returns_pure, returns_get,
    returns_checkedSub, returns_shiftLeft, returns_writeAt, returns_modify]
  by_cases hrange : counterIdx < hart.pmu.hwCountersNum ∨ hart.pmu.totalCountersNum ≤ counterIdx
  · rw [if_pos hrange]
    exact hpmu
  · rw [if_neg hrange]
    refine ⟨by omega, by omega, ?_⟩
    split_ifs
    · exact hpmu
    · exact ⟨by omega, hpmu.hardware, hpmu.total⟩
    · exact ⟨hpmu.hardware, hpmu.total⟩

theorem returns_stopFwCounter (hpmu : WellNumbered features hart.pmu) (counterIdx : Nat)
    (isReset : Bool) :
    Returns (stopFwCounter counterIdx isReset) hart (Keeps features) := by
  have htotal := hpmu.total
  have hle := hpmu.total_le
  have hbits := bits_ge xlen
  have hmax : firmwareCounterMax = 16 := rfl
  simp only [stopFwCounter, setPmu, returns_ite, returns_bind, returns_pure, returns_get,
    returns_checkedSub, returns_shiftLeft, returns_writeAt, returns_modify]
  by_cases hrange : counterIdx < hart.pmu.hwCountersNum ∨ hart.pmu.totalCountersNum ≤ counterIdx
  · rw [if_pos hrange]
    exact hpmu
  · rw [if_neg hrange]
    refine ⟨by omega, by omega, ?_⟩
    split_ifs
    · exact hpmu
    · exact ⟨by omega, hpmu.hardware, hpmu.total⟩
    · exact ⟨hpmu.hardware, hpmu.total⟩

end AlwaysReturns

/-! ## Matching -/

theorem returns_findFirmwareCounterLoop (hpmu : WellNumbered features hart.pmu)
    (counters : List Nat) :
    Returns (findFirmwareCounterLoop hart.pmu counters) hart fun result hart' =>
      hart' = hart ∧ ∀ counterIdx, result = .ok counterIdx →
        hart.pmu.hwCountersNum ≤ counterIdx ∧ counterIdx < hart.pmu.totalCountersNum := by
  have hle := hpmu.total_le
  induction counters with
  | nil => simp [findFirmwareCounterLoop]
  | cons counterIdx rest ih =>
    simp only [findFirmwareCounterLoop, returns_ite, returns_bind, returns_readAt, returns_pure]
    split_ifs with hrange
    · exact ih
    · refine ⟨by omega, ?_⟩
      split_ifs
      · exact ih
      · refine ⟨trivial, fun found hfound => ?_⟩
        cases hfound
        omega

theorem returns_findFirmwareCounter (hpmu : WellNumbered features hart.pmu)
    (counters : CounterMask xlen) (eventIdx : Nat) :
    Returns (findFirmwareCounter hart.pmu counters eventIdx) hart fun result hart' =>
      hart'.pmu = hart.pmu ∧ ∀ counterIdx, result = .ok counterIdx →
        hart.pmu.hwCountersNum ≤ counterIdx ∧ counterIdx < hart.pmu.totalCountersNum := by
  unfold findFirmwareCounter
  split
  · simp
  · refine (returns_findFirmwareCounterLoop hpmu counters.toList).mono fun result hart' h => ?_
    exact ⟨by rw [h.1], h.2⟩

theorem returns_pmuUpdateHardwareMhpmevent (offset eventIdx : Nat) (eventData : BitVec 64) :
    Returns (pmuUpdateHardwareMhpmevent sbiPmu offset eventIdx eventData) hart
      fun _ hart' => hart'.pmu = hart.pmu := by
  unfold pmuUpdateHardwareMhpmevent
  simp only [returns_ite]
  split_ifs
  · simp
  · simp
  · cases mhpmeventVal sbiPmu eventIdx eventData with
    | error e => simp
    | ok value =>
      rw [returns_bind]
      exact returns_writeMhpmevent _ _ fun hart' h => returns_pure.mpr h

theorem returns_counterOccupied (hpmu : WellNumbered features hart.pmu) {mask : BitVec 32}
    {counterIdx offset : Nat} (hidx : counterIdx < hart.pmu.hwCountersNum) (hoffset : offset < 32)
    {pmu : PmuState xlen} {T : Bool → Hart xlen → Prop} (hT : ∀ b, T b hart) :
    Returns (counterOccupied pmu mask counterIdx offset) hart T := by
  have hle := hpmu.total_le
  have htotal := hpmu.total
  simp only [counterOccupied, returns_bind, returns_shiftRight, returns_ite, returns_pure,
    returns_readAt]
  refine ⟨hoffset, ?_⟩
  split_ifs
  · exact hT _
  · exact ⟨by omega, hT _⟩

theorem returns_counterCounting {offset : Nat} (hoffset : offset < 32)
    {T : Bool → Hart xlen → Prop} (hT : ∀ b, T b hart) :
    Returns (counterCounting features offset) hart T := by
  have hbits := bits_ge xlen
  simp only [counterCounting, returns_bind, returns_shiftLeft, returns_ite, returns_pure,
    returns_get]
  split_ifs
  · exact ⟨by omega, hT _⟩
  · exact hT _

theorem returns_findHardwareCounterLoop (hpmu : WellNumbered features hart.pmu)
    (mask : BitVec 32) (eventIdx : Nat) (eventData : BitVec 64) (fixed : Except SbiRet Nat)
    (hfixed : ∀ counterIdx, fixed = .ok counterIdx → counterIdx < hart.pmu.hwCountersNum)
    (counters : List Nat) :
    Returns (findHardwareCounterLoop features sbiPmu hart.pmu mask eventIdx eventData fixed counters)
      hart fun result hart' => hart'.pmu = hart.pmu ∧
        ∀ counterIdx, result = .ok counterIdx → counterIdx < hart.pmu.hwCountersNum := by
  induction counters with
  | nil => simpa [findHardwareCounterLoop] using hfixed
  | cons counterIdx rest ih =>
    rw [findHardwareCounterLoop, returns_ite]
    by_cases hrange : hart.pmu.hwCountersNum ≤ counterIdx
    · rw [if_pos hrange]
      exact ih
    · rw [if_neg hrange]
      have hidx : counterIdx < hart.pmu.hwCountersNum := by omega
      obtain ⟨offset, hoffset, hcsr⟩ := getMhpmCsrOffset_of_lt (hpmu.hardware ▸ hidx)
      rw [returns_bind, returns_unwrap]
      refine ⟨offset, hcsr, ?_⟩
      rw [returns_bind]
      apply returns_counterOccupied hpmu hidx hoffset
      intro occupied
      simp only [returns_ite]
      split_ifs
      · exact ih
      · exact ih
      · rw [returns_bind]
        apply returns_counterCounting hoffset
        intro counting
        rw [returns_ite]
        split_ifs
        · exact ih
        · rw [returns_bind]
          refine (returns_pmuUpdateHardwareMhpmevent offset eventIdx eventData).mono ?_
          intro result hart' h
          cases result with
          | error e => simpa using h
          | ok _ =>
            rw [returns_pure]
            refine ⟨h, fun found hfound => ?_⟩
            cases hfound
            exact hidx

theorem fixedCounter_lt (hpmu : WellNumbered features hart.pmu) {counters : CounterMask xlen}
    {eventIdx counterIdx : Nat} (h : fixedCounter features counters eventIdx = some counterIdx) :
    counterIdx < hart.pmu.hwCountersNum := by
  have hfound := List.find?_some h
  rw [hpmu.hardware]
  by_contra hge
  rw [getMhpmCsrOffset_of_ge (by omega)] at hfound
  simp at hfound

theorem returns_findHardwareCounter (hpmu : WellNumbered features hart.pmu)
    (counters : CounterMask xlen) (eventIdx : Nat) (eventData : BitVec 64) :
    Returns (findHardwareCounter features sbiPmu hart.pmu counters eventIdx eventData) hart
      fun result hart' => hart'.pmu = hart.pmu ∧
        ∀ counterIdx, result = .ok counterIdx → counterIdx < hart.pmu.hwCountersNum := by
  have hfixed : ∀ counterIdx, okOrNotSupported (fixedCounter features counters eventIdx) =
      .ok counterIdx → counterIdx < hart.pmu.hwCountersNum := by
    intro counterIdx h
    cases hf : fixedCounter features counters eventIdx with
    | none => rw [hf] at h; cases h
    | some found =>
      rw [hf] at h
      cases h
      exact fixedCounter_lt hpmu hf
  unfold findHardwareCounter
  by_cases hraw : EventIdx.isRawEvent ⟨eventIdx⟩ = true
  · simp only [if_pos hraw]
    cases sbiPmu.rawEventToMhpmcounter with
    | none => simp
    | some rows => exact returns_findHardwareCounterLoop hpmu _ _ _ _ hfixed _
  · simp only [if_neg hraw]
    cases sbiPmu.eventToMhpmcounter with
    | none => exact returns_pure.mpr ⟨rfl, hfixed⟩
    | some rows => exact returns_findHardwareCounterLoop hpmu _ _ _ _ hfixed _

/-! ## Configuring -/

/-- Whether the event counts on the kind of counter that the index names. -/
def KindMatches (pmu : PmuState xlen) (event : EventIdx) (counterIdx : Nat) : Prop :=
  event.isFirmwareEvent = true ↔ pmu.hwCountersNum ≤ counterIdx

theorem returns_configureCounter (hpmu : WellNumbered features hart.pmu) {counterIdx : Nat}
    {event : EventIdx} (flags : ConfigFlags)
    (hkind : KindMatches hart.pmu event counterIdx) :
    Returns (configureCounter features counterIdx event flags) hart (Keeps features) := by
  have htotal := hpmu.total
  have hbits := bits_ge xlen
  have hmax : firmwareCounterMax = 16 := rfl
  cases hevent : event.isFirmwareEvent with
  | true =>
    have hfw : hart.pmu.hwCountersNum ≤ counterIdx := hkind.mp hevent
    simp only [configureCounter, hevent, if_true, setPmu, returns_ite, returns_bind, returns_pure,
      returns_get, returns_checkedSub, returns_shiftLeft, returns_writeAt, returns_modify,
      returns_map]
    refine ⟨hfw, ?_⟩
    split_ifs
    · exact hpmu
    · exact ⟨by omega, by omega, hpmu.hardware, hpmu.total⟩
    · exact ⟨by omega, hpmu.hardware, hpmu.total⟩
    · exact ⟨by omega, hpmu.hardware, hpmu.total⟩
    · exact ⟨hpmu.hardware, hpmu.total⟩
  | false =>
    have hhw : counterIdx < hart.pmu.hwCountersNum := by
      by_contra hge
      rw [hkind.mpr (by omega)] at hevent
      cases hevent
    obtain ⟨offset, -, hcsr⟩ := getMhpmCsrOffset_of_lt (hpmu.hardware ▸ hhw)
    simp only [configureCounter, hevent, Bool.false_eq_true, if_false, returns_bind,
      returns_unwrap]
    refine ⟨offset, hcsr, ?_⟩
    apply Returns.mono (Q := fun _ hart₁ => hart₁.pmu = hart.pmu)
    · rw [returns_ite]
      split_ifs
      · exact returns_writeMhpmcounter offset 0 fun _ h => h
      · exact returns_pure.mpr rfl
    · intro _ hart₁ h
      rw [returns_ite]
      split_ifs
      · rw [returns_bind]
        refine (returns_startHardwareCounter offset 0 false).mono fun result hart₂ h₂ => ?_
        cases result <;> rw [returns_pure] <;> exact hpmu.of_eq (h₂.trans h)
      · rw [returns_pure]
        exact hpmu.of_eq h

theorem not_returns_configureCounter (hpmu : WellNumbered features hart.pmu) {counterIdx : Nat}
    {event : EventIdx} (flags : ConfigFlags) (hkind : ¬ KindMatches hart.pmu event counterIdx)
    {Q : Except SbiRet PUnit → Hart xlen → Prop} :
    ¬ Returns (configureCounter features counterIdx event flags) hart Q := by
  cases hevent : event.isFirmwareEvent with
  | true =>
    simp only [configureCounter, hevent, if_true, returns_bind, returns_get, returns_checkedSub]
    intro h
    exact hkind ⟨fun _ => h.1, fun _ => hevent⟩
  | false =>
    have hfw : hart.pmu.hwCountersNum ≤ counterIdx := by
      by_contra hlt
      exact hkind ⟨fun h => (Bool.eq_false_iff.mp hevent h).elim, fun h => absurd h hlt⟩
    simp only [configureCounter, hevent, Bool.false_eq_true, if_false, returns_bind,
      returns_unwrap, getMhpmCsrOffset_of_ge (hpmu.hardware ▸ hfw)]
    simp

/-- A configuration that reuses a counter for an event of the other kind: it
is accepted, asks for `SKIP_MATCH`, and the first counter it selects has an
active event but is a firmware counter for a hardware event, or a hardware
counter for a firmware event. -/
def ReusesOtherKind (pmu : PmuState xlen) : Call xlen → Prop
  | .counterConfigMatching base mask flags eventIdx _ =>
    (flags.toNat < 2 ^ 8 ∧ flags.toNat.testBit 0 = true) ∧
    CounterSetValid pmu base.toNat mask ∧
    (EventIdx.checkEventType ⟨eventIdx.toNat⟩ = true ∧
      (EventIdx.isFirmwareEvent ⟨eventIdx.toNat⟩ = true →
        EventIdx.firmwareEventValid ⟨eventIdx.toNat⟩ = true)) ∧
    pmu.activeEvent[mask.ctz.toNat + base.toNat]? ≠ some (eventIdxInvalid xlen) ∧
    ¬ KindMatches pmu ⟨eventIdx.toNat⟩ (mask.ctz.toNat + base.toNat)
  | _ => False

/-- Without `SKIP_MATCH` the matched counter has the kind of the event. -/
theorem returns_matchCounter (hpmu : WellNumbered features hart.pmu) (counters : CounterMask xlen)
    (eventIdx : Nat) (eventData : BitVec 64) :
    Returns (matchCounter features sbiPmu counters false eventIdx eventData) hart
      fun result hart' => WellNumbered features hart'.pmu ∧ ∀ counterIdx, result = .ok counterIdx →
        KindMatches hart'.pmu ⟨eventIdx⟩ counterIdx := by
  have htotal := hpmu.total
  have hle := hpmu.total_le
  simp only [matchCounter, returns_bind, returns_get, Bool.false_eq_true, if_false]
  apply Returns.mono (Q := fun result hart' => hart'.pmu = hart.pmu ∧
    ∀ counterIdx, result = .ok counterIdx →
      counterIdx < hart.pmu.totalCountersNum ∧ KindMatches hart.pmu ⟨eventIdx⟩ counterIdx)
  · rw [returns_ite]
    split_ifs with hevent
    · refine (returns_findFirmwareCounter hpmu counters eventIdx).mono fun result hart' h => ?_
      refine ⟨h.1, fun counterIdx hresult => ?_⟩
      obtain ⟨hfw, hlt⟩ := h.2 counterIdx hresult
      exact ⟨hlt, fun _ => hfw, fun _ => hevent⟩
    · refine (returns_findHardwareCounter hpmu counters eventIdx eventData).mono
        fun result hart' h => ?_
      refine ⟨h.1, fun counterIdx hresult => ?_⟩
      have hlt := h.2 counterIdx hresult
      exact ⟨by omega, fun h => absurd h hevent, fun h => absurd h (by omega)⟩
  · intro result hart' h
    cases result with
    | error e =>
      rw [returns_pure]
      exact ⟨hpmu.of_eq h.1, by rintro _ ⟨⟩⟩
    | ok counterIdx =>
      obtain ⟨hlt, hkind⟩ := h.2 counterIdx rfl
      simp only [setPmu, returns_bind, returns_writeAt, returns_modify, returns_pure]
      refine ⟨by omega, ⟨hpmu.hardware, hpmu.total⟩, fun found hfound => ?_⟩
      cases hfound
      exact hkind

theorem next_eq_some {base : Nat} {mask : BitVec xlen.bits} (h : mask ≠ 0#(xlen.bits)) :
    ∃ rest, CounterMask.next ⟨base, mask⟩ = some (mask.ctz.toNat + base, rest) := by
  simp [CounterMask.next, h]

/-- Under `SKIP_MATCH` the first selected counter is taken, whatever its kind. -/
theorem returns_matchCounter_skip (hpmu : WellNumbered features hart.pmu) {base : Nat}
    {mask : BitVec xlen.bits} (hset : CounterSetValid hart.pmu base mask) (eventIdx : Nat)
    (eventData : BitVec 64) {Q : Except SbiRet Nat → Hart xlen → Prop} :
    Returns (matchCounter features sbiPmu ⟨base, mask⟩ true eventIdx eventData) hart Q ↔
      if hart.pmu.activeEvent[mask.ctz.toNat + base]? = some (eventIdxInvalid xlen) then
        Q (.error .invalidParam) hart
      else Q (.ok (mask.ctz.toNat + base)) hart := by
  have hle := hpmu.total_le
  have hfirst := hset.2.2 _ (BitVec.getLsbD_true_ctz_of_ne_zero hset.2.1)
  have hlt : mask.ctz.toNat + base < hardwareCounterMax + firmwareCounterMax := by omega
  obtain ⟨rest, hnext⟩ := @next_eq_some xlen base mask hset.2.1
  simp only [matchCounter, returns_bind, returns_get, if_true, hnext, returns_readAt, hlt,
    exists_true_left, returns_ite, returns_pure, Vector.getElem?_eq_getElem, Option.some.injEq]

section Iff

variable {Q : SbiRet → Hart xlen → Prop}
  (hQ : ∀ ret hart', WellNumbered features hart'.pmu → Q ret hart')

include hQ

/-- What is left of a configuration once the counter is known. -/
theorem returns_configureCounter_iff (hpmu : WellNumbered features hart.pmu) {counterIdx : Nat}
    {event : EventIdx} (flags : ConfigFlags) :
    Returns (do
      match ← configureCounter features counterIdx event flags with
      | .error e => return e
      | .ok _ => return SbiRet.success counterIdx) hart Q ↔
      KindMatches hart.pmu event counterIdx := by
  rw [returns_bind]
  constructor
  · intro h
    by_contra hkind
    exact not_returns_configureCounter hpmu flags hkind h
  · intro hkind
    refine (returns_configureCounter hpmu flags hkind).mono fun result hart' h => ?_
    cases result <;> exact returns_pure.mpr (hQ _ _ h)

theorem returns_counterConfigMatching_iff (hpmu : WellNumbered features hart.pmu)
    (base mask flags eventIdx : BitVec xlen.bits) (eventData : BitVec 64) :
    Returns (counterConfigMatching features sbiPmu base.toNat mask flags.toNat eventIdx.toNat
        eventData) hart Q ↔
      ¬ ReusesOtherKind hart.pmu (.counterConfigMatching base mask flags eventIdx eventData) := by
  by_cases hflags : flags.toNat < 2 ^ 8
  · simp only [counterConfigMatching, ConfigFlags.fromBits, if_pos hflags]
    rw [returns_bind, returns_get]
    by_cases hset : CounterSetValid hart.pmu base.toNat mask
    · rw [counterSetInvalid_of_valid hpmu hset]
      simp only [pure_bind, Bool.false_eq_true, if_false]
      by_cases hcheck : EventIdx.checkEventType ⟨eventIdx.toNat⟩ = false ∨
          (EventIdx.isFirmwareEvent ⟨eventIdx.toNat⟩ = true ∧
            EventIdx.firmwareEventValid ⟨eventIdx.toNat⟩ = false)
      · rw [if_pos hcheck, returns_pure]
        refine ⟨fun _ h => ?_, fun _ => hQ _ _ hpmu⟩
        obtain ⟨htype, hvalid⟩ := h.2.2.1
        rcases hcheck with h | ⟨hfw, h⟩
        · rw [htype] at h; cases h
        · rw [hvalid hfw] at h; cases h
      · rw [if_neg hcheck, returns_bind]
        cases hskip : flags.toNat.testBit 0 with
        | false =>
          refine ⟨fun _ h => Bool.eq_false_iff.mp hskip h.1.2, fun _ => ?_⟩
          refine (returns_matchCounter hpmu _ _ _).mono fun result hart' h => ?_
          cases result with
          | error e => exact returns_pure.mpr (hQ _ _ h.1)
          | ok counterIdx => exact (returns_configureCounter_iff hQ h.1 _).mpr (h.2 counterIdx rfl)
        | true =>
          rw [returns_matchCounter_skip hpmu hset]
          by_cases hactive : hart.pmu.activeEvent[mask.ctz.toNat + base.toNat]? =
              some (eventIdxInvalid xlen)
          · rw [if_pos hactive, returns_pure]
            exact ⟨fun _ h => h.2.2.2.1 hactive, fun _ => hQ _ _ hpmu⟩
          · rw [if_neg hactive]
            refine (returns_configureCounter_iff hQ hpmu _).trans
              ⟨fun hkind h => h.2.2.2.2 hkind, fun h => ?_⟩
            by_contra hkind
            simp only [not_or, Bool.not_eq_false, not_and] at hcheck
            exact h ⟨⟨hflags, hskip⟩, hset, hcheck, hactive, hkind⟩
    · rw [counterSetInvalid_of_not_valid hpmu hset]
      simp only [pure_bind, if_true, returns_pure]
      exact ⟨fun _ h => hset h.2.1, fun _ => hQ _ _ hpmu⟩
  · simp only [counterConfigMatching, ConfigFlags.fromBits, if_neg hflags, returns_pure]
    exact ⟨fun _ h => hflags h.1.1, fun _ => hQ _ _ hpmu⟩

end Iff

/-! ## The other calls -/

theorem returns_counterStartLoop (hpmu : WellNumbered features hart.pmu) (value : BitVec 64)
    (isUpdate : Bool) (counters : List Nat) :
    Returns (counterStartLoop features value isUpdate counters) hart (Keeps features) := by
  induction counters generalizing hart with
  | nil => simpa [counterStartLoop] using hpmu
  | cons counterIdx rest ih =>
    rw [counterStartLoop, returns_bind, returns_get, returns_ite]
    by_cases htotal : hart.pmu.totalCountersNum ≤ counterIdx
    · rw [if_pos htotal]
      simpa using hpmu
    · rw [if_neg htotal, returns_bind]
      apply Returns.mono (Q := Keeps features)
      · rw [returns_ite]
        split_ifs with hfw
        · exact returns_startFwCounter hpmu counterIdx value isUpdate
        · obtain ⟨offset, -, hcsr⟩ := getMhpmCsrOffset_of_lt
            (hpmu.hardware ▸ Nat.lt_of_not_le hfw)
          rw [returns_bind, returns_unwrap]
          refine ⟨offset, hcsr, ?_⟩
          exact (returns_startHardwareCounter offset value isUpdate).mono fun _ _ => hpmu.of_eq
      · intro result hart' h
        match result with
        | .ok _ => exact ih h
        | .error .alreadyStart => exact returns_pure.mpr h
        | .error .offsetInvalid => exact returns_pure.mpr h

theorem returns_counterStart (hpmu : WellNumbered features hart.pmu) (base : Nat)
    (mask : BitVec xlen.bits) (flags : Nat) (value : BitVec 64) :
    Returns (counterStart features base mask flags value) hart (Keeps features) := by
  unfold counterStart
  cases StartFlags.fromBits flags with
  | none => simpa using hpmu
  | some flags =>
    rw [returns_bind, returns_get]
    by_cases hset : CounterSetValid hart.pmu base mask
    · rw [counterSetInvalid_of_valid hpmu hset]
      simp only [pure_bind, Bool.false_eq_true, if_false, returns_ite, returns_pure]
      split_ifs
      · exact hpmu
      · exact returns_counterStartLoop hpmu value _ _
    · rw [counterSetInvalid_of_not_valid hpmu hset]
      simpa using hpmu

theorem returns_counterStopLoop (hpmu : WellNumbered features hart.pmu) (isReset : Bool)
    (counters : List Nat) (result : SbiRet) :
    Returns (counterStopLoop features isReset counters result) hart (Keeps features) := by
  induction counters generalizing hart result with
  | nil => simpa [counterStopLoop] using hpmu
  | cons counterIdx rest ih =>
    have hle := hpmu.total_le
    rw [counterStopLoop, returns_bind, returns_get, returns_ite]
    by_cases htotal : hart.pmu.totalCountersNum ≤ counterIdx
    · rw [if_pos htotal]
      simpa using hpmu
    · rw [if_neg htotal, returns_ite]
      by_cases hfw : hart.pmu.hwCountersNum ≤ counterIdx
      · rw [if_pos hfw, returns_bind]
        refine (returns_stopFwCounter hpmu counterIdx isReset).mono fun stopResult hart' h => ?_
        cases stopResult with
        | ok _ => exact ih h _
        | error e => cases e <;> exact returns_pure.mpr h
      · obtain ⟨offset, -, hcsr⟩ := getMhpmCsrOffset_of_lt
          (hpmu.hardware ▸ Nat.lt_of_not_le hfw)
        rw [if_neg hfw, returns_bind, returns_unwrap]
        refine ⟨offset, hcsr, ?_⟩
        rw [returns_ite]
        by_cases htime : offset = 1
        · rw [if_pos htime]
          exact ih hpmu _
        · rw [if_neg htime, returns_bind]
          apply Returns.mono (Q := Keeps features)
          · simp only [setPmu, returns_ite, returns_bind, returns_writeAt, returns_modify,
              returns_pure]
            split_ifs
            · exact ⟨by omega, hpmu.hardware, hpmu.total⟩
            · exact hpmu
          · intro _ hart₁ h₁
            rw [returns_bind]
            refine (returns_stopHardwareCounter offset isReset).mono fun stopResult hart₂ h₂ => ?_
            cases stopResult with
            | ok _ => exact ih (h₁.of_eq h₂) _
            | error e => cases e <;> exact returns_pure.mpr (h₁.of_eq h₂)

theorem returns_counterStop (hpmu : WellNumbered features hart.pmu) (base : Nat)
    (mask : BitVec xlen.bits) (flags : Nat) :
    Returns (counterStop features base mask flags) hart (Keeps features) := by
  unfold counterStop
  cases StopFlags.fromBits flags with
  | none => simpa using hpmu
  | some flags =>
    rw [returns_bind, returns_get]
    by_cases hset : CounterSetValid hart.pmu base mask
    · rw [counterSetInvalid_of_valid hpmu hset]
      simp only [pure_bind, Bool.false_eq_true, if_false, returns_ite, returns_pure]
      split_ifs
      · exact hpmu
      · exact returns_counterStopLoop hpmu _ _ _
    · rw [counterSetInvalid_of_not_valid hpmu hset]
      simpa using hpmu

theorem returns_getFwCounter {pmu : PmuState xlen} (hpmu : WellNumbered features pmu)
    (counterIdx : Nat) {T : Option (BitVec 64) → Hart xlen → Prop} (hT : ∀ value, T value hart) :
    Returns (getFwCounter pmu counterIdx) hart T := by
  have htotal := hpmu.total
  simp only [getFwCounter, returns_ite, returns_bind, returns_pure, returns_checkedSub,
    returns_readAt]
  split_ifs
  · exact hT _
  · exact ⟨by omega, by omega, hT _⟩

theorem returns_counterFwRead (hpmu : WellNumbered features hart.pmu) (counterIdx : Nat) :
    Returns (counterFwRead counterIdx) hart fun _ hart' => hart' = hart := by
  have hle := hpmu.total_le
  simp only [counterFwRead, getEventIdx, returns_bind, returns_get, returns_ite, returns_pure,
    returns_readAt]
  by_cases htotal : hart.pmu.totalCountersNum ≤ counterIdx
  · rw [if_pos htotal]
    trivial
  · by_cases hhw : True ∧ counterIdx < hart.pmu.hwCountersNum
    · rw [if_neg htotal, if_pos hhw]
      trivial
    · rw [if_neg htotal, if_neg hhw]
      refine ⟨by omega, ?_⟩
      split
      · split
        · trivial
        · apply returns_getFwCounter hpmu
          intro value
          cases value <;> simp
      · trivial

theorem returns_counterFwReadHi (hpmu : WellNumbered features hart.pmu) (counterIdx : Nat) :
    Returns (counterFwReadHi counterIdx) hart fun _ hart' => hart' = hart := by
  cases xlen with
  | rv64 => simp [counterFwReadHi]
  | rv32 =>
    rw [counterFwReadHi, returns_bind]
    refine (returns_counterFwRead hpmu counterIdx).mono fun ret hart' h => ?_
    subst h
    cases ret with
    | success _ =>
      simp only [returns_bind, returns_get]
      apply returns_getFwCounter hpmu
      intro value
      cases value <;> simp
    | _ => simp

theorem returns_counterGetInfo (counterIdx : Nat) :
    Returns (counterGetInfo features counterIdx) hart fun _ hart' => hart' = hart := by
  simp only [counterGetInfo, numCounters, returns_bind, returns_get, returns_ite, returns_pure]
  split_ifs

/-- A PMU call returns exactly when it does not reuse a counter for an event of
the other kind. -/
theorem returns_handle_iff (hpmu : WellNumbered features hart.pmu) (call : Call xlen)
    {Q : SbiRet → Hart xlen → Prop}
    (hQ : ∀ ret hart', WellNumbered features hart'.pmu → Q ret hart') :
    Returns (call.handle features sbiPmu) hart Q ↔ ¬ ReusesOtherKind hart.pmu call := by
  have hkeeps : ∀ {p : PmuM xlen SbiRet}, Returns p hart (Keeps features) → Returns p hart Q :=
    fun h => h.mono hQ
  cases call with
  | counterConfigMatching base mask flags eventIdx eventData =>
    exact returns_counterConfigMatching_iff hQ hpmu base mask flags eventIdx eventData
  | numCounters =>
    refine iff_of_true ?_ not_false
    simpa [Call.handle, numCounters] using hQ _ _ hpmu
  | counterGetInfo counterIdx =>
    refine iff_of_true ?_ not_false
    exact (returns_counterGetInfo _).mono fun ret hart' h => hQ ret hart' (h ▸ hpmu)
  | counterStart base mask flags value =>
    exact iff_of_true (hkeeps (returns_counterStart hpmu _ _ _ _)) not_false
  | counterStop base mask flags =>
    exact iff_of_true (hkeeps (returns_counterStop hpmu _ _ _)) not_false
  | counterFwRead counterIdx =>
    refine iff_of_true ?_ not_false
    exact (returns_counterFwRead hpmu _).mono fun ret hart' h => hQ ret hart' (h ▸ hpmu)
  | counterFwReadHi counterIdx =>
    refine iff_of_true ?_ not_false
    exact (returns_counterFwReadHi hpmu _).mono fun ret hart' h => hQ ret hart' (h ▸ hpmu)
  | snapshotSetShmem lo hi flags =>
    exact iff_of_true (returns_pure.mpr (hQ _ _ hpmu)) not_false

/-! ## Firmware events -/

theorem returns_isFirmwareEventStart {pmu : PmuState xlen} (hpmu : WellNumbered features pmu)
    (counterIdx : Nat) {T : Bool → Hart xlen → Prop} (hT : ∀ b, T b hart) :
    Returns (isFirmwareEventStart pmu counterIdx) hart T := by
  have htotal := hpmu.total
  have hbits := bits_ge xlen
  have hmax : firmwareCounterMax = 16 := rfl
  simp only [isFirmwareEventStart, returns_ite, returns_bind, returns_pure, returns_checkedSub,
    returns_shiftLeft]
  split_ifs
  · exact hT _
  · exact ⟨by omega, by omega, hT _⟩

theorem returns_firmwareCounterIncrementLoop (hpmu : WellNumbered features hart.pmu)
    (firmwareEvent : Nat) (counters : List Nat)
    (hcounters : ∀ counterIdx ∈ counters, countOnes features.mhpmMask ≤ counterIdx ∧
      counterIdx < countOnes features.mhpmMask + firmwareCounterMax) :
    Returns (firmwareCounterIncrementLoop firmwareEvent (countOnes features.mhpmMask) counters)
      hart (Keeps features) := by
  induction counters generalizing hart with
  | nil => simpa [firmwareCounterIncrementLoop] using hpmu
  | cons counterIdx rest ih =>
    have hle := hpmu.total_le
    have htotal := hpmu.total
    have hhardware := hpmu.hardware
    obtain ⟨hlow, hhigh⟩ := hcounters counterIdx List.mem_cons_self
    have hrest := fun idx h => hcounters idx (List.mem_cons_of_mem counterIdx h)
    simp only [firmwareCounterIncrementLoop, returns_bind, returns_get, returns_checkedSub,
      returns_readAt]
    refine ⟨hlow, by omega, ?_⟩
    apply Returns.mono (Q := fun _ hart' => hart' = hart)
    · rw [returns_ite]
      split_ifs
      · exact returns_isFirmwareEventStart hpmu counterIdx fun _ => rfl
      · exact returns_pure.mpr rfl
    · intro counts hart' h
      subst h
      simp only [setPmu, returns_ite, returns_bind, returns_readAt, returns_writeAt,
        returns_modify, returns_pure]
      split_ifs
      · exact ⟨by omega, by omega, ih ⟨hpmu.hardware, hpmu.total⟩ hrest⟩
      · exact ih hpmu hrest

theorem returns_pmuFirmwareCounterIncrement (hpmu : WellNumbered features hart.pmu)
    (firmwareEvent : Nat) :
    Returns (pmuFirmwareCounterIncrement firmwareEvent) hart (Keeps features) := by
  simp only [pmuFirmwareCounterIncrement, returns_bind, returns_get, returns_ite, returns_pure]
  split_ifs
  · exact hpmu
  · rw [hpmu.hardware]
    apply returns_firmwareCounterIncrementLoop hpmu
    intro counterIdx hmem
    obtain ⟨fwIdx, hfwIdx, rfl⟩ := List.mem_map.mp hmem
    rw [List.mem_range] at hfwIdx
    omega

/-! ## Runs -/

/-- Every call of the run meets the condition in the state it is made in. -/
def NeverReusesOtherKind (features : HartFeatures) (sbiPmu : SbiPmu) :
    List (Step xlen) → Hart xlen → Prop
  | [], _ => True
  | step :: rest, hart =>
    (∀ call, step = .call call → ¬ ReusesOtherKind hart.pmu call) ∧
      ∀ ret hart', step.run features sbiPmu hart = .ok (ret, hart') →
        NeverReusesOtherKind features sbiPmu rest hart'

theorem returns_step (hpmu : WellNumbered features hart.pmu) (step : Step xlen)
    (hstep : ∀ call, step = .call call → ¬ ReusesOtherKind hart.pmu call) :
    Returns (step.run features sbiPmu) hart (Keeps features) := by
  cases step with
  | call call =>
    rw [Step.run, returns_map]
    exact (returns_handle_iff hpmu call fun _ _ h => h).mpr (hstep call rfl)
  | event firmwareEvent =>
    rw [Step.run, returns_bind]
    refine (returns_pmuFirmwareCounterIncrement hpmu firmwareEvent).mono fun _ hart' h => ?_
    exact returns_pure.mpr h
  | hardware csrs => simpa [Step.run] using hpmu

theorem not_reusesOtherKind_of_step (hpmu : WellNumbered features hart.pmu) {step : Step xlen}
    {ret : Option SbiRet} {hart' : Hart xlen}
    (hrun : step.run features sbiPmu hart = .ok (ret, hart')) (call : Call xlen)
    (hcall : step = .call call) : ¬ ReusesOtherKind hart.pmu call := by
  subst hcall
  have hreturned : Returns (Step.run features sbiPmu (.call call)) hart fun _ _ => True :=
    ⟨ret, hart', hrun, trivial⟩
  rw [Step.run, returns_map] at hreturned
  exact (returns_handle_iff hpmu call fun _ _ _ => trivial).mp hreturned

/-- Every step that returns keeps the counter numbering, and so does a run. -/
theorem step_wellNumbered (hpmu : WellNumbered features hart.pmu) {step : Step xlen}
    {ret : Option SbiRet} {hart' : Hart xlen}
    (hrun : step.run features sbiPmu hart = .ok (ret, hart')) : WellNumbered features hart'.pmu := by
  obtain ⟨_, _, hrun', hkeeps⟩ :=
    returns_step hpmu step (not_reusesOtherKind_of_step hpmu hrun)
  rw [hrun] at hrun'
  cases hrun'
  exact hkeeps

theorem runSteps_wellNumbered (hpmu : WellNumbered features hart.pmu) (steps : List (Step xlen)) :
    ∀ {rets hart'}, runSteps features sbiPmu steps hart = .ok (rets, hart') →
      WellNumbered features hart'.pmu := by
  induction steps generalizing hart with
  | nil =>
    intro rets hart' hrun
    cases hrun
    exact hpmu
  | cons step rest ih =>
    intro rets hart' hrun
    have hreturned : Returns (runSteps features sbiPmu (step :: rest)) hart
        fun _ final => final = hart' := ⟨rets, hart', hrun, rfl⟩
    rw [runSteps, returns_bind] at hreturned
    obtain ⟨ret, hart₁, hstep, hreturned⟩ := hreturned
    simp only [returns_bind, returns_pure] at hreturned
    obtain ⟨rets', hart₂, hrest, rfl⟩ := hreturned
    exact ih (step_wellNumbered hpmu hstep) hrest

theorem Reachable.wellNumbered (h : Reachable features sbiPmu hart) :
    WellNumbered features hart.pmu := by
  obtain ⟨csrs, steps, rets, hrun⟩ := h
  exact runSteps_wellNumbered (WellNumbered.new xlen features) steps hrun

theorem returns_runSteps (hpmu : WellNumbered features hart.pmu) (steps : List (Step xlen))
    (hsteps : NeverReusesOtherKind features sbiPmu steps hart) :
    Returns (runSteps features sbiPmu steps) hart (Keeps features) := by
  induction steps generalizing hart with
  | nil => exact returns_pure.mpr hpmu
  | cons step rest ih =>
    obtain ⟨ret, hart', hrun, hkeeps⟩ := returns_step hpmu step hsteps.1
    rw [runSteps, returns_bind]
    refine ⟨ret, hart', hrun, returns_bind.mpr ?_⟩
    refine (ih hkeeps (hsteps.2 ret hart' hrun)).mono fun rets hart'' h => ?_
    exact returns_pure.mpr h

/-- From every reachable PMU state a call returns if and only if it does not
reuse a counter for an event of the other kind, and a run from boot in which no
call does so returns from every step. -/
theorem pmu_call_returns_iff (xlen : Xlen) (features : HartFeatures) (sbiPmu : SbiPmu) :
    (∀ hart : Hart xlen, Reachable features sbiPmu hart → ∀ call : Call xlen,
      (∃ ret hart', call.handle features sbiPmu hart = .ok (ret, hart')) ↔
        ¬ ReusesOtherKind hart.pmu call) ∧
    (∀ (csrs : Csrs xlen) (steps : List (Step xlen)),
      NeverReusesOtherKind features sbiPmu steps (boot features csrs) →
      ∃ rets hart', runSteps features sbiPmu steps (boot features csrs) = .ok (rets, hart')) := by
  constructor
  · intro hart hreach call
    have hiff := @returns_handle_iff xlen features sbiPmu hart hreach.wellNumbered call
      (fun _ _ => True) fun _ _ _ => trivial
    simpa only [Returns, and_true] using hiff
  · intro csrs steps hsteps
    obtain ⟨rets, hart', hrun, -⟩ := returns_runSteps (WellNumbered.new xlen features) steps hsteps
    exact ⟨rets, hart', hrun⟩

set_option maxRecDepth 8000 in
theorem pmu_call_returns_three_counters :
    let features : HartFeatures := ⟨.version1_12, 7⟩
    let sbiPmu : SbiPmu := ⟨none, none, none⟩
    let hart : Hart .rv64 := boot features ⟨0, fun _ => 0, fun _ => 0⟩
    (∃ ret hart', (Call.counterConfigMatching 0 1 1 1 0).handle features sbiPmu hart =
      .ok (ret, hart')) ∧
    (¬ ∃ ret hart', (Call.counterConfigMatching 0 1 1 0xf0000 0).handle features sbiPmu hart =
      .ok (ret, hart')) ∧
    ∃ rets hart', runSteps features sbiPmu
      [.call (.counterConfigMatching 3 1 0 0xf0000 0), .event 0, .call (.counterFwRead 3)] hart =
        .ok (rets, hart') := by
  intro features sbiPmu hart
  have hboot : Reachable features sbiPmu hart := ⟨⟨0, fun _ => 0, fun _ => 0⟩, [], [], rfl⟩
  obtain ⟨hcall, hruns⟩ := pmu_call_returns_iff .rv64 features sbiPmu
  refine ⟨?_, ?_, ?_⟩
  · rw [hcall hart hboot]
    rintro ⟨-, -, -, -, hkind⟩
    exact hkind (by unfold KindMatches; decide)
  · rw [hcall hart hboot]
    intro h
    refine h ⟨by decide, ⟨by decide, by decide, fun i hi => ?_⟩, by decide, by decide,
      by unfold KindMatches; decide⟩
    have hzero : i = 0 := by
      have hone := BitVec.getLsbD_one.symm.trans hi
      exact of_decide_eq_true (Bool.and_eq_true_iff.mp hone).2
    subst hzero
    decide
  · apply hruns
    refine ⟨?_, fun _ _ _ => ⟨?_, fun _ _ _ => ⟨?_, fun _ _ _ => trivial⟩⟩⟩
    · rintro request hrequest h
      cases hrequest
      exact Bool.noConfusion h.1.2
    · rintro request hrequest
      cases hrequest
    · rintro request hrequest h
      cases hrequest
      exact h

set_option maxRecDepth 8000 in
/-- A firmware counter that is reused for the cycle event has no register, and
the unwrap of its offset panics. -/
theorem skip_match_panics :
    let features : HartFeatures := ⟨.version1_12, 7⟩
    let sbiPmu : SbiPmu := ⟨none, none, none⟩
    ∃ hart : Hart .rv64, Reachable features sbiPmu hart ∧
      (Call.counterConfigMatching 3 1 1 1 0).handle features sbiPmu hart = .error .unwrapNone := by
  refine ⟨_, ⟨⟨0, fun _ => 0, fun _ => 0⟩,
    [.call (.counterConfigMatching 3 1 0 0xf0000 0)], _, rfl⟩, ?_⟩
  rfl

end RustSbi.Pmu
