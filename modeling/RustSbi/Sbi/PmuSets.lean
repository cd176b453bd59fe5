import RustSbi.Lib.Sweep
import RustSbi.Sbi.PmuAllocation

/-!
What a start or a stop of several counters does to each of them. Both calls are passes
over the selected counters that end at the first one which reports an error, so the
counters after it keep their running state and their events.
-/

namespace RustSbi.Pmu

open Bits Checked Sweep

variable {xlen : Xlen} {features : HartFeatures} {sbiPmu : SbiPmu} {hart : Hart xlen}

/-! ## The two passes -/

/-- The counter is the time counter, which the extension neither starts nor stops. -/
def IsTime (features : HartFeatures) (counterIdx : Nat) : Prop :=
  getMhpmCsrOffset features counterIdx = some 1

instance (features : HartFeatures) (counterIdx : Nat) : Decidable (IsTime features counterIdx) :=
  inferInstanceAs (Decidable (_ = _))

/-- Whether the hart can tell if the counter is running: a hardware counter needs `mcountinhibit`. -/
def hasRunState (features : HartFeatures) (counterIdx : Nat) : Bool :=
  features.privilegedVersion.hasCountinhibit || (getMhpmCsrOffset features counterIdx).isNone

/-- The visits of `counter_start`. -/
def startVisit (features : HartFeatures) (initialValue : BitVec 64) (isUpdateValue : Bool) :
    Visit Nat (Counter xlen) SbiRet where
  refuses counterIdx counter :=
    if IsTime features counterIdx then some .invalidParam
    else if hasRunState features counterIdx = true ∧ counter.running = true then some .alreadyStarted
    else none
  passed counterIdx counter :=
    { counter with
      value := if isUpdateValue then some initialValue else counter.value
      running := if hasRunState features counterIdx then true else counter.running }
  ended _ counter := counter

/-- A counter without its event, and its selector with it where it has one. -/
def Counter.reset (features : HartFeatures) (counterIdx : Nat) (counter : Counter xlen) :
    Counter xlen :=
  { counter with
    event := some (eventIdxInvalid xlen)
    selector := match getMhpmCsrOffset features counterIdx with
      | some offset => if 3 ≤ offset then some 0 else counter.selector
      | none => counter.selector }

/-- The visits of `counter_stop`. A hardware counter is reset before its running state is looked
at, and a firmware counter after. -/
def stopVisit (features : HartFeatures) (isReset : Bool) : Visit Nat (Counter xlen) SbiRet where
  refuses counterIdx counter :=
    if ¬ IsTime features counterIdx ∧ hasRunState features counterIdx = true ∧
      counter.running = false then some .alreadyStopped
    else none
  passed counterIdx counter :=
    if IsTime features counterIdx then counter
    else
      { if isReset then counter.reset features counterIdx else counter with
        running := if hasRunState features counterIdx then false else counter.running }
  ended counterIdx counter :=
    if isReset = true ∧ (getMhpmCsrOffset features counterIdx).isSome then
      counter.reset features counterIdx
    else counter

/-! ## The routines of one counter -/

/-- A routine on one counter makes of the hart what a visit makes of its counters. -/
def Visits (features : HartFeatures) (visit : Visit Nat (Counter xlen) SbiRet) (counterIdx : Nat)
    (hart : Hart xlen) (error : Option SbiRet) (hart' : Hart xlen) : Prop :=
  visit.step counterIdx (hart.counter features) = (error, hart'.counter features)

/-- A routine that leaves the other counters alone visits its own. -/
theorem LeavesOthers.visits {visit : Visit Nat (Counter xlen) SbiRet} {counterIdx : Nat}
    {error : Option SbiRet} {hart' : Hart xlen} (h : LeavesOthers features hart counterIdx hart')
    (hrefuses : visit.refuses counterIdx (hart.counter features counterIdx) = error)
    (hleft : hart'.counter features counterIdx =
      visit.leaves counterIdx (hart.counter features counterIdx)) :
    Visits features visit counterIdx hart error hart' := by
  have hupdate : Function.update (hart.counter features) counterIdx
      (hart'.counter features counterIdx) = hart'.counter features := by
    rw [Function.update_eq_iff]
    exact ⟨rfl, fun other hne => (h.others other hne).symm⟩
  rw [Visits, Visit.step, hrefuses, ← hleft, hupdate]

/-- `startResult` as the result of a call that ends with it. -/
def startError : Except StartCounterErr PUnit → Option SbiRet
  | .ok _ => none
  | .error .alreadyStart => some .alreadyStarted
  | .error .offsetInvalid => some .invalidParam

/-- `stopResult` as the result of a call that ends with it. -/
def stopError : Except StopCounterErr PUnit → Option SbiRet
  | .ok _ => none
  | .error .alreadyStop => some .alreadyStopped
  | .error .offsetInvalid => some .invalidParam

section Hardware

variable {counterIdx offset : Nat}

theorem lt_of_getMhpmCsrOffset (h : getMhpmCsrOffset features counterIdx = some offset) :
    offset < 32 := by
  rw [getMhpmCsrOffset_eq] at h
  exact lt_of_mem_setBits (List.mem_of_getElem? h)

theorem tryFromOffset_of_ne (h : offset < 32) (htime : offset ≠ 1) :
    ∃ counter, HardwareCounter.tryFromOffset offset = some counter := by
  unfold HardwareCounter.tryFromOffset
  split_ifs with h0 h2 h3
  · exact ⟨_, rfl⟩
  · exact ⟨_, rfl⟩
  · exact ⟨_, rfl⟩
  · omega

/-- A counter of the hart has a register that can be written, unless it is the time counter. -/
theorem writeMhpmcounter_eq (h : offset < 32) (htime : offset ≠ 1) (value : BitVec 64) :
    (writeMhpmcounter offset value : PmuM xlen PUnit) = modify fun hart => { hart with
      csrs := { hart.csrs with
        mhpmcounter := Function.update hart.csrs.mhpmcounter offset value } } := by
  rw [writeMhpmcounter, if_pos (by omega)]

theorem counter_of_offset (hoffset : getMhpmCsrOffset features counterIdx = some offset)
    (hart : Hart xlen) : hart.counter features counterIdx = ⟨hart.pmu.activeEvent[counterIdx]?,
      some (hart.csrs.mhpmevent offset), some (hart.csrs.mhpmcounter offset),
      !hart.csrs.mcountinhibit.getLsbD offset⟩ := by
  rw [Hart.counter, hoffset]

theorem hasRunState_of_offset (hoffset : getMhpmCsrOffset features counterIdx = some offset) :
    hasRunState features counterIdx = features.privilegedVersion.hasCountinhibit := by
  rw [hasRunState, hoffset, Option.isNone_some, Bool.or_false]

theorem isTime_iff (hoffset : getMhpmCsrOffset features counterIdx = some offset) :
    IsTime features counterIdx ↔ offset = 1 := by
  rw [IsTime, hoffset, Option.some_inj]

theorem ensures_startHardwareCounter_visits
    (hoffset : getMhpmCsrOffset features counterIdx = some offset) (value : BitVec 64)
    (isUpdate : Bool) :
    Ensures (startHardwareCounter features offset value isUpdate) hart fun result hart' =>
      hart'.pmu = hart.pmu ∧
        Visits features (startVisit features value isUpdate) counterIdx hart (startError result)
          hart' := by
  have hlt := lt_of_getMhpmCsrOffset hoffset
  have hbits := bits_ge xlen
  have hrun := hasRunState_of_offset hoffset
  by_cases htime : offset = 1
  · subst htime
    have hrefuses : (startVisit features value isUpdate).refuses counterIdx
        (hart.counter features counterIdx) = some .invalidParam := if_pos hoffset
    refine ensures_pure.mpr ⟨rfl, (LeavesOthers.refl features hart counterIdx).visits hrefuses ?_⟩
    rw [Visit.leaves, hrefuses]
    rfl
  · have hnotTime : ¬ IsTime features counterIdx := fun h => htime ((isTime_iff hoffset).mp h)
    obtain ⟨counter, hcounter⟩ := tryFromOffset_of_ne hlt htime
    refine ((ensures_startHardwareCounter offset value isUpdate).and (R := fun result hart' =>
      (startVisit features value isUpdate).refuses counterIdx (hart.counter features counterIdx) =
          startError result ∧ hart'.counter features counterIdx =
        (startVisit features value isUpdate).leaves counterIdx (hart.counter features counterIdx))
      ?_).mono ?_
    · simp only [startHardwareCounter, hcounter, writeMhpmcounter_eq hlt htime, writeMcountinhibit,
        ensures_ite, ensures_bind, ensures_get, ensures_pure, ensures_modify, startVisit, hrun,
        hnotTime, if_false, Visit.leaves]
      cases hversion : features.privilegedVersion.hasCountinhibit with
      | false =>
        cases isUpdate <;>
          simp [startError, counter_of_offset hoffset]
      | true =>
        simp only [Bool.true_eq_false, if_false]
        refine (ensures_inhibitMask hcounter).mono ?_
        rintro mask hart₁ ⟨hsame, rfl⟩
        obtain rfl := hsame.symm
        have hbit := and_oneShift_ne_zero_iff (x := hart.csrs.mcountinhibit) (i := offset)
          (by omega)
        by_cases hinhibited : hart.csrs.mcountinhibit.getLsbD offset = true
        · have hcleared : (hart.csrs.mcountinhibit &&& ~~~(1#(xlen.bits) <<< offset)).getLsbD offset =
              false := by
            rw [getLsbD_clearBit, decide_eq_false (not_not.mpr rfl), Bool.and_false]
          rw [if_neg (hbit.mpr hinhibited)]
          generalize hart.csrs.mcountinhibit &&& ~~~(1#(xlen.bits) <<< offset) = cleared at hcleared ⊢
          cases isUpdate <;>
            simp [startError, counter_of_offset hoffset, hinhibited, hcleared]
        · rw [if_pos (not_not.mp fun h => hinhibited (hbit.mp h))]
          simp [startError, counter_of_offset hoffset, hinhibited]
    · rintro result hart' ⟨htouches, hrefuses, hleft⟩
      exact ⟨htouches.1, (htouches.leavesOthers hoffset).visits hrefuses hleft⟩

/-- The hart whose selector at the offset is cleared. -/
def Hart.clearSelector (hart : Hart xlen) (offset : Nat) : Hart xlen :=
  { hart with csrs := { hart.csrs with mhpmevent := Function.update hart.csrs.mhpmevent offset 0 } }

theorem ensures_clearSelector (hlt : offset < 32) (isReset : Bool) :
    Ensures (if isReset = true ∧ 3 ≤ offset ∧ offset ≤ 31 then writeMhpmevent offset 0 else pure ⟨⟩)
      hart fun _ hart' =>
        hart' = if isReset = true ∧ 3 ≤ offset then hart.clearSelector offset else hart := by
  by_cases h : isReset = true ∧ 3 ≤ offset
  · have hrange : 3 ≤ offset ∧ offset ≤ 31 := ⟨h.2, by omega⟩
    rw [if_pos ⟨h.1, hrange⟩, if_pos h, writeMhpmevent, if_pos hrange, ensures_modify]
    simp [Hart.clearSelector]
  · rw [if_neg fun hall => h ⟨hall.1, hall.2.1⟩, if_neg h, ensures_pure]

/-- Stopping a counter clears its selector, and sets its bit of `mcountinhibit`. -/
theorem ensures_stopHardwareCounter (offset : Nat) (isReset : Bool) :
    Ensures (stopHardwareCounter features offset isReset) hart
      fun _ => TouchesOffset offset hart := by
  have hreset : Ensures (if isReset = true ∧ 3 ≤ offset ∧ offset ≤ 31 then writeMhpmevent offset 0
      else pure ⟨⟩) hart fun _ => TouchesOffset offset hart := by
    rw [ensures_ite]
    split
    · exact ensures_writeMhpmevent offset 0
    · exact ensures_pure.mpr (.refl offset hart)
  unfold stopHardwareCounter
  generalize (if isReset = true ∧ 3 ≤ offset ∧ offset ≤ 31 then writeMhpmevent offset 0
    else pure ⟨⟩) = reset at hreset ⊢
  cases hcounter : HardwareCounter.tryFromOffset offset with
  | none => exact ensures_pure.mpr (.refl offset hart)
  | some counter =>
    simp only [ensures_ite, ensures_bind, ensures_get, ensures_pure]
    refine hreset.mono fun _ hart₁ h => ?_
    split
    · exact h
    · refine (ensures_inhibitMask hcounter).mono ?_
      rintro mask hart₂ ⟨rfl, rfl⟩
      split
      · exact h
      · rw [writeMcountinhibit, ensures_modify]
        exact h.trans ⟨rfl, fun other hne => ⟨rfl, rfl, getLsbD_setBit_of_ne _ hne⟩⟩

/-- What a stop makes of the registers of a counter, once its event is dealt with. -/
theorem ensures_stopHardwareCounter_counter
    (hoffset : getMhpmCsrOffset features counterIdx = some offset) (htime : offset ≠ 1)
    (isReset : Bool) :
    Ensures (stopHardwareCounter features offset isReset) hart fun result hart' =>
      let counter := hart.counter features counterIdx
      let selector := if isReset = true ∧ 3 ≤ offset then some 0 else counter.selector
      (stopVisit features isReset).refuses counterIdx counter = stopError result ∧
        hart'.counter features counterIdx = { counter with
          selector := selector
          running := if hasRunState features counterIdx then false else counter.running } := by
  have hlt := lt_of_getMhpmCsrOffset hoffset
  have hbits := bits_ge xlen
  have hrun := hasRunState_of_offset hoffset
  have hnotTime : ¬ IsTime features counterIdx := fun h => htime ((isTime_iff hoffset).mp h)
  obtain ⟨counter, hcounter⟩ := tryFromOffset_of_ne hlt htime
  have hbit := and_oneShift_ne_zero_iff (x := hart.csrs.mcountinhibit) (i := offset) (by omega)
  have hset : (hart.csrs.mcountinhibit ||| 1#(xlen.bits) <<< offset).getLsbD offset = true := by
    rw [getLsbD_setBit _ (by omega), decide_eq_true rfl, Bool.or_true]
  rw [stopHardwareCounter, hcounter]
  dsimp only
  rw [ensures_bind]
  refine (ensures_clearSelector hlt isReset).mono ?_
  rintro _ hart₁ rfl
  have hinhibit : (if isReset = true ∧ 3 ≤ offset then hart.clearSelector offset
      else hart).csrs.mcountinhibit = hart.csrs.mcountinhibit := by
    split <;> rfl
  cases hversion : features.privilegedVersion.hasCountinhibit with
  | false =>
    rw [ensures_ite, if_pos rfl, ensures_pure]
    by_cases hcleared : isReset = true ∧ 3 ≤ offset <;>
      simp [hcleared, stopVisit, hrun, hversion, stopError, counter_of_offset hoffset,
        Hart.clearSelector]
  | true =>
    simp only [Bool.true_eq_false, if_false, ensures_bind, ensures_get]
    refine (ensures_inhibitMask hcounter).mono ?_
    rintro mask hart₂ ⟨rfl, rfl⟩
    rw [hinhibit, writeMcountinhibit]
    generalize hart.csrs.mcountinhibit ||| 1#(xlen.bits) <<< offset = stopped at hset ⊢
    by_cases hinhibited : hart.csrs.mcountinhibit.getLsbD offset = true
    · rw [if_pos (hbit.mpr hinhibited), ensures_pure]
      by_cases hcleared : isReset = true ∧ 3 ≤ offset <;>
        simp [hcleared, stopVisit, hrun, hnotTime, hversion, stopError, hinhibited,
          counter_of_offset hoffset, Hart.clearSelector]
    · rw [if_neg fun h => hinhibited (hbit.mp h), ensures_bind, ensures_modify, ensures_pure]
      by_cases hcleared : isReset = true ∧ 3 ≤ offset <;>
        simp [hcleared, stopVisit, hrun, hnotTime, hversion, stopError, hinhibited, hset,
          counter_of_offset hoffset, Hart.clearSelector]

/-- A stop leaves the same of a hardware counter whether or not it was running. -/
theorem stopVisit_leaves (hoffset : getMhpmCsrOffset features counterIdx = some offset)
    (htime : offset ≠ 1) (isReset : Bool) (counter : Counter xlen) :
    (stopVisit features isReset).leaves counterIdx counter =
      { event := if isReset then some (eventIdxInvalid xlen) else counter.event
        selector := if isReset = true ∧ 3 ≤ offset then some 0 else counter.selector
        value := counter.value
        running := if hasRunState features counterIdx then false else counter.running } := by
  have hnotTime : ¬ IsTime features counterIdx := fun h => htime ((isTime_iff hoffset).mp h)
  have hreset : counter.reset features counterIdx = { counter with
      event := some (eventIdxInvalid xlen)
      selector := if 3 ≤ offset then some 0 else counter.selector } := by
    rw [Counter.reset, hoffset]
  by_cases hstopped : hasRunState features counterIdx = true ∧ counter.running = false
  · have hrefuses : (stopVisit features isReset).refuses counterIdx counter = some .alreadyStopped :=
      if_pos ⟨hnotTime, hstopped⟩
    have hsame : counter = { counter with running := false } := Counter.ext rfl rfl rfl hstopped.2
    rw [Visit.leaves, hrefuses]
    cases isReset with
    | false => simpa [stopVisit, hstopped.1] using hsame
    | true => simp [stopVisit, hoffset, hreset, hstopped]
  · have hrefuses : (stopVisit features isReset).refuses counterIdx counter = none :=
      if_neg fun h => hstopped h.2
    rw [Visit.leaves, hrefuses]
    cases isReset <;> simp [stopVisit, hnotTime, hreset]

/-- The time counter is passed over. -/
theorem stopVisit_time (h : IsTime features counterIdx) (isReset : Bool) (counter : Counter xlen) :
    (stopVisit features isReset).refuses counterIdx counter = none ∧
      (stopVisit features isReset).leaves counterIdx counter = counter := by
  have haccepts : (stopVisit features isReset).refuses counterIdx counter = none :=
    if_neg fun hstop => hstop.1 h
  refine ⟨haccepts, ?_⟩
  rw [Visit.leaves, haccepts]
  exact if_pos h

/-- The loop body of `counter_stop` for a hardware counter. -/
theorem ensures_stopHardwareCounter_visits (hpmu : WellNumbered features hart.pmu)
    (hoffset : getMhpmCsrOffset features counterIdx = some offset) (htime : offset ≠ 1)
    (isReset : Bool) :
    Ensures (do
      (if isReset then do
        setPmu { hart.pmu with
          activeEvent := ← writeAt hart.pmu.activeEvent counterIdx (eventIdxInvalid xlen) }
      else pure ⟨⟩)
      stopHardwareCounter features offset isReset) hart fun result hart' =>
        WellNumbered features hart'.pmu ∧
          Visits features (stopVisit features isReset) counterIdx hart (stopError result) hart' := by
  have hevent : Ensures (if isReset then do
        setPmu { hart.pmu with
          activeEvent := ← writeAt hart.pmu.activeEvent counterIdx (eventIdxInvalid xlen) }
      else pure ⟨⟩) hart fun _ hart₁ => WellNumbered features hart₁.pmu ∧
        LeavesOthers features hart counterIdx hart₁ ∧
        hart₁.counter features counterIdx = { hart.counter features counterIdx with
          event := if isReset then some (eventIdxInvalid xlen)
            else (hart.counter features counterIdx).event } := by
    cases isReset with
    | false => exact ensures_pure.mpr ⟨hpmu, .refl features hart counterIdx, rfl⟩
    | true =>
      simp only [setPmu, if_true, ensures_bind, ensures_writeAt, ensures_modify]
      intro hwrite
      refine ⟨hpmu.setEvent hwrite _ hart.csrs, leavesOthers_setEvent _ hwrite, ?_⟩
      simp [counter_of_offset hoffset]
  rw [ensures_bind]
  refine hevent.mono ?_
  rintro _ hart₁ ⟨hpmu₁, hothers₁, hcounter₁⟩
  refine ((ensures_stopHardwareCounter offset isReset).and
    (ensures_stopHardwareCounter_counter hoffset htime isReset)).mono ?_
  rintro result hart' ⟨htouches, hrefuses, hcounter⟩
  rw [hcounter₁] at hrefuses hcounter
  refine ⟨hpmu₁.of_eq htouches.1,
    (hothers₁.trans (htouches.leavesOthers hoffset)).visits hrefuses ?_⟩
  rw [hcounter, stopVisit_leaves hoffset htime]

end Hardware

section Firmware

variable {counterIdx : Nat}

theorem counter_of_firmware (hoffset : getMhpmCsrOffset features counterIdx = none)
    (hart : Hart xlen) : hart.counter features counterIdx = ⟨hart.pmu.activeEvent[counterIdx]?, none,
      hart.pmu.fwCounter[counterIdx - hart.pmu.hwCountersNum]?,
      hart.pmu.fwCounterState.getLsbD (counterIdx - hart.pmu.hwCountersNum)⟩ := by
  rw [Hart.counter, hoffset]

theorem getMhpmCsrOffset_of_firmware (hpmu : WellNumbered features hart.pmu)
    (hge : hart.pmu.hwCountersNum ≤ counterIdx) : getMhpmCsrOffset features counterIdx = none :=
  getMhpmCsrOffset_of_ge (hpmu.hardware ▸ hge)

theorem hasRunState_of_firmware (hoffset : getMhpmCsrOffset features counterIdx = none) :
    hasRunState features counterIdx = true := by
  rw [hasRunState, hoffset, Option.isNone_none, Bool.or_true]

theorem not_isTime_of_firmware (hoffset : getMhpmCsrOffset features counterIdx = none) :
    ¬ IsTime features counterIdx := by
  rw [IsTime, hoffset]
  exact nofun

theorem ensures_startFwCounter_visits (hpmu : WellNumbered features hart.pmu)
    (hge : hart.pmu.hwCountersNum ≤ counterIdx) (hlt : counterIdx < hart.pmu.totalCountersNum)
    (value : BitVec 64) (isUpdate : Bool) :
    Ensures (startFwCounter counterIdx value isUpdate) hart fun result hart' =>
      WellNumbered features hart'.pmu ∧
        Visits features (startVisit features value isUpdate) counterIdx hart (startError result)
          hart' := by
  have hoffset := getMhpmCsrOffset_of_firmware hpmu hge
  have hrun := hasRunState_of_firmware hoffset
  have hnotTime := not_isTime_of_firmware hoffset
  have htotal := hpmu.total
  have hbits := bits_ge xlen
  have hmax : firmwareCounterMax = 16 := rfl
  have hrange : ¬ (counterIdx < hart.pmu.hwCountersNum ∨ hart.pmu.totalCountersNum ≤ counterIdx) := by
    omega
  have hfw : counterIdx - hart.pmu.hwCountersNum < firmwareCounterMax := by omega
  have hbit := and_oneShift_ne_zero_iff (x := hart.pmu.fwCounterState)
    (i := counterIdx - hart.pmu.hwCountersNum) (by omega)
  have hset : (hart.pmu.fwCounterState ||| 1#(xlen.bits) <<< (counterIdx -
      hart.pmu.hwCountersNum)).getLsbD (counterIdx - hart.pmu.hwCountersNum) = true := by
    rw [getLsbD_setBit _ (by omega), decide_eq_true rfl, Bool.or_true]
  simp only [startFwCounter, setPmu, ensures_ite, ensures_bind, ensures_pure, ensures_get,
    ensures_checkedSub, ensures_shiftLeft, ensures_writeAt, ensures_modify, if_neg hrange]
  intro _ _
  by_cases hrunning : hart.pmu.fwCounterState.getLsbD (counterIdx - hart.pmu.hwCountersNum) = true
  · rw [if_pos (hbit.mpr hrunning)]
    have hrefuses : (startVisit features value isUpdate).refuses counterIdx
        (hart.counter features counterIdx) = some .alreadyStarted := by
      simp [startVisit, hnotTime, hrun, counter_of_firmware hoffset, hrunning]
    refine ⟨hpmu, (LeavesOthers.refl features hart counterIdx).visits hrefuses ?_⟩
    rw [Visit.leaves, hrefuses]
    rfl
  · rw [if_neg fun h => hrunning (hbit.mp h)]
    have haccepts : (startVisit features value isUpdate).refuses counterIdx
        (hart.counter features counterIdx) = none := by
      simp [startVisit, hnotTime, counter_of_firmware hoffset, hrunning]
    split
    next hupdate =>
      intro hwrite
      refine ⟨⟨hpmu.hardware, hpmu.total⟩, (leavesOthers_firmware hpmu hge
        (fun k hk => by rw [getElem?_set_if hwrite, if_neg hk])
        fun k hk => getLsbD_setBit_of_ne _ hk).visits haccepts ?_⟩
      rw [Visit.leaves, haccepts]
      simp [startVisit, hrun, hupdate, counter_of_firmware hoffset, hset]
    next hupdate =>
      refine ⟨⟨hpmu.hardware, hpmu.total⟩, (leavesOthers_firmware hpmu hge (fun _ _ => rfl)
        fun k hk => getLsbD_setBit_of_ne _ hk).visits haccepts ?_⟩
      rw [Visit.leaves, haccepts]
      simp [startVisit, hrun, hupdate, counter_of_firmware hoffset, hset]

theorem ensures_stopFwCounter_visits (hpmu : WellNumbered features hart.pmu)
    (hge : hart.pmu.hwCountersNum ≤ counterIdx) (hlt : counterIdx < hart.pmu.totalCountersNum)
    (isReset : Bool) :
    Ensures (stopFwCounter counterIdx isReset) hart fun result hart' =>
      WellNumbered features hart'.pmu ∧
        Visits features (stopVisit features isReset) counterIdx hart (stopError result) hart' := by
  have hoffset := getMhpmCsrOffset_of_firmware hpmu hge
  have hrun := hasRunState_of_firmware hoffset
  have hnotTime := not_isTime_of_firmware hoffset
  have htotal := hpmu.total
  have hbits := bits_ge xlen
  have hmax : firmwareCounterMax = 16 := rfl
  have hrange : ¬ (counterIdx < hart.pmu.hwCountersNum ∨ hart.pmu.totalCountersNum ≤ counterIdx) := by
    omega
  have hbit := and_oneShift_ne_zero_iff (x := hart.pmu.fwCounterState)
    (i := counterIdx - hart.pmu.hwCountersNum) (by omega)
  have hclear : (hart.pmu.fwCounterState &&& ~~~(1#(xlen.bits) <<< (counterIdx -
      hart.pmu.hwCountersNum))).getLsbD (counterIdx - hart.pmu.hwCountersNum) = false := by
    rw [getLsbD_clearBit, decide_eq_false (not_not.mpr rfl), Bool.and_false]
  simp only [stopFwCounter, setPmu, ensures_ite, ensures_bind, ensures_pure, ensures_get,
    ensures_checkedSub, ensures_shiftLeft, ensures_writeAt, ensures_modify, if_neg hrange]
  intro _ _
  by_cases hrunning : hart.pmu.fwCounterState.getLsbD (counterIdx - hart.pmu.hwCountersNum) = true
  · rw [if_neg (hbit.mpr hrunning)]
    have haccepts : (stopVisit features isReset).refuses counterIdx
        (hart.counter features counterIdx) = none := by
      simp [stopVisit, counter_of_firmware hoffset, hrunning]
    have hcleared : ∀ k ≠ counterIdx - hart.pmu.hwCountersNum, (hart.pmu.fwCounterState &&&
        ~~~(1#(xlen.bits) <<< (counterIdx - hart.pmu.hwCountersNum))).getLsbD k =
          hart.pmu.fwCounterState.getLsbD k := by
      intro k hk
      rw [getLsbD_clearBit, decide_eq_true hk, Bool.and_true]
    split
    next hreset =>
      intro hwrite
      have hpmu₁ := hpmu.setEvent hwrite (eventIdxInvalid xlen) hart.csrs
      have hothers := (leavesOthers_setEvent (eventIdxInvalid xlen) hwrite).trans
        (leavesOthers_firmware hpmu₁ hge (fun _ _ => rfl) hcleared)
      refine ⟨⟨hpmu.hardware, hpmu.total⟩, hothers.visits haccepts ?_⟩
      rw [Visit.leaves, haccepts]
      simp [stopVisit, hrun, hreset, hnotTime, counter_of_firmware hoffset, hclear, Counter.reset,
        hoffset, PmuState.setEvent]
    next hreset =>
      refine ⟨⟨hpmu.hardware, hpmu.total⟩, (leavesOthers_firmware hpmu hge (fun _ _ => rfl)
        hcleared).visits haccepts ?_⟩
      rw [Visit.leaves, haccepts]
      simp [stopVisit, hrun, hreset, hnotTime, counter_of_firmware hoffset, hclear]
  · rw [if_pos (not_not.mp fun h => hrunning (hbit.mp h))]
    have hrefuses : (stopVisit features isReset).refuses counterIdx
        (hart.counter features counterIdx) = some .alreadyStopped := by
      simp [stopVisit, hnotTime, hrun, counter_of_firmware hoffset, hrunning]
    refine ⟨hpmu, (LeavesOthers.refl features hart counterIdx).visits hrefuses ?_⟩
    rw [Visit.leaves, hrefuses]
    simp [stopVisit, hoffset]

end Firmware

/-! ## The loops -/

theorem WellNumbered.total_eq {pmu pmu' : PmuState xlen} (h : WellNumbered features pmu)
    (h' : WellNumbered features pmu') : pmu'.totalCountersNum = pmu.totalCountersNum := by
  rw [h.total, h'.total, h.hardware, h'.hardware]

/-- The pass over the remaining counters, after a visit to the first one. -/
theorem Visits.run_cons {visit : Visit Nat (Counter xlen) SbiRet} {counterIdx : Nat}
    {error : Option SbiRet} {hart' : Hart xlen} (h : Visits features visit counterIdx hart error hart')
    (rest : List Nat) : visit.run (counterIdx :: rest) (hart.counter features) = match error with
      | some e => (some e, hart'.counter features)
      | none => visit.run rest (hart'.counter features) := by
  rw [Visits] at h
  rw [Visit.run, h]
  cases error <;> rfl

/-- The loop of `counter_start` is a pass of its visits. -/
theorem ensures_counterStartLoop_run (hpmu : WellNumbered features hart.pmu) (value : BitVec 64)
    (isUpdate : Bool) (counters : List Nat)
    (hlt : ∀ counterIdx ∈ counters, counterIdx < hart.pmu.totalCountersNum) :
    Ensures (counterStartLoop features value isUpdate counters) hart fun ret hart' =>
      ∃ error, (startVisit features value isUpdate).run counters (hart.counter features) =
        (error, hart'.counter features) ∧ ret = error.getD (.success 0) := by
  induction counters generalizing hart with
  | nil => exact ensures_pure.mpr ⟨none, rfl, rfl⟩
  | cons counterIdx rest ih =>
    obtain ⟨hfirst, hrest⟩ := List.forall_mem_cons.mp hlt
    rw [counterStartLoop, ensures_bind, ensures_get, ensures_ite, if_neg (not_le.mpr hfirst),
      ensures_bind]
    refine Ensures.mono (Q := fun result hart₁ => WellNumbered features hart₁.pmu ∧
      Visits features (startVisit features value isUpdate) counterIdx hart (startError result)
        hart₁) ?_ ?_
    · rw [ensures_ite]
      split
      next hge => exact ensures_startFwCounter_visits hpmu hge hfirst value isUpdate
      next =>
        rw [ensures_bind, ensures_unwrap]
        intro offset hoffset
        exact (ensures_startHardwareCounter_visits hoffset value isUpdate).mono
          fun _ hart₁ h => ⟨hpmu.of_eq h.1, h.2⟩
    · rintro result hart₁ ⟨hpmu₁, hvisits⟩
      rw [hvisits.run_cons]
      cases result with
      | ok _ =>
        refine ih hpmu₁ fun other hmem => ?_
        rw [hpmu.total_eq hpmu₁]
        exact hrest other hmem
      | error e => cases e <;> exact ensures_pure.mpr ⟨_, rfl, rfl⟩

/-- The loop of `counter_stop` is a pass of its visits. -/
theorem ensures_counterStopLoop_run (hpmu : WellNumbered features hart.pmu) (isReset : Bool)
    (counters : List Nat) (result : SbiRet)
    (hlt : ∀ counterIdx ∈ counters, counterIdx < hart.pmu.totalCountersNum) :
    Ensures (counterStopLoop features isReset counters result) hart fun ret hart' =>
      ∃ error, (stopVisit features isReset).run counters (hart.counter features) =
        (error, hart'.counter features) ∧
          ret = error.getD (if ∀ counterIdx ∈ counters, IsTime features counterIdx then result
            else .success 0) := by
  induction counters generalizing hart result with
  | nil => exact ensures_pure.mpr ⟨none, rfl, rfl⟩
  | cons counterIdx rest ih =>
    obtain ⟨hfirst, hrest⟩ := List.forall_mem_cons.mp hlt
    -- a counter that is stopped makes the result of the rest a success
    have hstopped : ¬ IsTime features counterIdx → ∀ stopResult hart₁,
        WellNumbered features hart₁.pmu →
        Visits features (stopVisit features isReset) counterIdx hart (stopError stopResult) hart₁ →
        Ensures (match stopResult with
          | .ok _ => counterStopLoop features isReset rest (.success 0)
          | .error .offsetInvalid => pure .invalidParam
          | .error .alreadyStop => pure .alreadyStopped) hart₁ fun ret hart' =>
            ∃ error, (stopVisit features isReset).run (counterIdx :: rest) (hart.counter features) =
              (error, hart'.counter features) ∧ ret = error.getD (if ∀ other ∈ counterIdx :: rest,
                IsTime features other then result else .success 0) := by
      intro htime stopResult hart₁ hpmu₁ hvisits
      rw [hvisits.run_cons, if_neg fun h => htime (h counterIdx List.mem_cons_self)]
      match stopResult with
      | .ok _ =>
        refine (ih hpmu₁ (.success 0) fun other hmem => ?_).mono fun ret hart' h => ?_
        · rw [hpmu.total_eq hpmu₁]
          exact hrest other hmem
        · rwa [ite_self] at h
      | .error .alreadyStop => exact ensures_pure.mpr ⟨_, rfl, rfl⟩
      | .error .offsetInvalid => exact ensures_pure.mpr ⟨_, rfl, rfl⟩
    rw [counterStopLoop, ensures_bind, ensures_get, ensures_ite, if_neg (not_le.mpr hfirst),
      ensures_ite]
    split
    next hge =>
      rw [ensures_bind]
      refine (ensures_stopFwCounter_visits hpmu hge hfirst isReset).mono ?_
      rintro stopResult hart₁ ⟨hpmu₁, hvisits⟩
      exact hstopped (not_isTime_of_firmware (getMhpmCsrOffset_of_firmware hpmu hge)) stopResult
        hart₁ hpmu₁ hvisits
    next hge =>
      rw [ensures_bind, ensures_unwrap]
      intro offset hoffset
      rw [ensures_ite]
      split
      next htime =>
        have hvisits : Visits features (stopVisit features isReset) counterIdx hart none hart :=
          (LeavesOthers.refl features hart counterIdx).visits
            (stopVisit_time ((isTime_iff hoffset).mpr htime) isReset _).1
            (stopVisit_time ((isTime_iff hoffset).mpr htime) isReset _).2.symm
        have hall : (∀ other ∈ counterIdx :: rest, IsTime features other) ↔
            ∀ other ∈ rest, IsTime features other := by
          rw [List.forall_mem_cons]
          exact and_iff_right ((isTime_iff hoffset).mpr htime)
        rw [hvisits.run_cons]
        simp only [hall]
        exact ih hpmu result hrest
      next htime =>
        have hbody := ensures_stopHardwareCounter_visits hpmu hoffset htime isReset
        rw [ensures_bind] at hbody ⊢
        refine hbody.mono fun _ hart₁ h => ?_
        rw [ensures_bind]
        refine h.mono ?_
        rintro stopResult hart₂ ⟨hpmu₂, hvisits⟩
        exact hstopped (fun h => htime ((isTime_iff hoffset).mp h)) stopResult hart₂ hpmu₂ hvisits

/-! ## The calls -/

/-- The counters that a base and a mask select. -/
def Selects (counterIdxBase : Nat) (counterIdxMask : BitVec xlen.bits) (counterIdx : Nat) : Prop :=
  ∃ i, counterIdxMask.getLsbD i = true ∧ i + counterIdxBase = counterIdx

theorem CounterMask.pairwise_toList (counters : CounterMask xlen) :
    counters.toList.Pairwise (· < ·) := by
  rw [CounterMask.toList_eq, List.pairwise_map]
  exact (List.pairwise_lt_range.filter _).imp fun h => Nat.add_lt_add_right h _

section Calls

variable {base : Nat} {mask : BitVec xlen.bits}

theorem Selects.mem {counterIdx : Nat} (h : Selects base mask counterIdx) :
    counterIdx ∈ CounterMask.toList ⟨base, mask⟩ :=
  CounterMask.mem_toList_iff.mpr h

theorem selects_of_mem {counterIdx : Nat} (h : counterIdx ∈ CounterMask.toList ⟨base, mask⟩) :
    Selects base mask counterIdx :=
  CounterMask.mem_toList_iff.mp h

theorem CounterSetValid.lt_total {pmu : PmuState xlen} (h : CounterSetValid pmu base mask) :
    ∀ counterIdx ∈ CounterMask.toList ⟨base, mask⟩, counterIdx < pmu.totalCountersNum := by
  intro counterIdx hmem
  obtain ⟨i, hbit, rfl⟩ := CounterMask.mem_toList_iff.mp hmem
  exact h.2.2 i hbit

/-- The flags and the set let `counter_start` come to its loop. -/
structure StartsLoop (pmu : PmuState xlen) (base : Nat) (mask : BitVec xlen.bits) (flags : Nat)
    (isUpdate : Bool) : Prop where
  flags : StartFlags.fromBits flags = some ⟨isUpdate, false⟩
  counters : CounterSetValid pmu base mask

/-- The flags and the set let `counter_stop` come to its loop. -/
structure StopsLoop (pmu : PmuState xlen) (base : Nat) (mask : BitVec xlen.bits) (flags : Nat)
    (isReset : Bool) : Prop where
  flags : StopFlags.fromBits flags = some ⟨isReset, false⟩
  counters : CounterSetValid pmu base mask

/-- A start is a pass over the selected counters, or it is rejected and changes nothing. -/
theorem returns_counterStart_run (hpmu : WellNumbered features hart.pmu) (flags : Nat)
    (value : BitVec 64) {isUpdate : Bool} (h : StartsLoop hart.pmu base mask flags isUpdate) :
    Returns (counterStart features base mask flags value) hart fun ret hart' =>
      ∃ error, (startVisit features value isUpdate).run (CounterMask.toList ⟨base, mask⟩)
        (hart.counter features) = (error, hart'.counter features) ∧ ret = error.getD (.success 0) := by
  refine (returns_counterStart hpmu base mask flags value).of_ensures ?_
  rw [counterStart, h.flags]
  simp only [ensures_bind, ensures_get, counterSetInvalid_of_valid hpmu h.counters, ensures_pure,
    Bool.false_eq_true, if_false]
  exact ensures_counterStartLoop_run hpmu value isUpdate _ h.counters.lt_total

theorem returns_counterStart_rejected (hpmu : WellNumbered features hart.pmu) (flags : Nat)
    (value : BitVec 64) (h : ∀ isUpdate, ¬ StartsLoop hart.pmu base mask flags isUpdate) :
    Returns (counterStart features base mask flags value) hart fun ret hart' =>
      (ret = .invalidParam ∨ ret = .noShmem) ∧ hart' = hart := by
  unfold counterStart
  cases hflags : StartFlags.fromBits flags with
  | none => exact returns_pure.mpr ⟨.inl rfl, rfl⟩
  | some startFlags =>
    obtain ⟨isUpdate, snapshot⟩ := startFlags
    rw [returns_bind, returns_get]
    by_cases hset : CounterSetValid hart.pmu base mask
    · have hsnapshot : snapshot = true := by
        by_contra hnot
        exact h isUpdate ⟨by rw [hflags, Bool.eq_false_of_not_eq_true hnot], hset⟩
      rw [counterSetInvalid_of_valid hpmu hset, hsnapshot]
      exact returns_pure.mpr ⟨.inr rfl, rfl⟩
    · rw [counterSetInvalid_of_not_valid hpmu hset]
      exact returns_pure.mpr ⟨.inl rfl, rfl⟩

/-- A stop is a pass over the selected counters, or it is rejected and changes nothing. -/
theorem returns_counterStop_run (hpmu : WellNumbered features hart.pmu) (flags : Nat)
    {isReset : Bool} (h : StopsLoop hart.pmu base mask flags isReset) :
    Returns (counterStop features base mask flags) hart fun ret hart' =>
      ∃ error, (stopVisit features isReset).run (CounterMask.toList ⟨base, mask⟩)
        (hart.counter features) = (error, hart'.counter features) ∧
          ret = error.getD (if ∀ counterIdx ∈ CounterMask.toList ⟨base, mask⟩,
            IsTime features counterIdx then .invalidParam else .success 0) := by
  refine (returns_counterStop hpmu base mask flags).of_ensures ?_
  rw [counterStop, h.flags]
  simp only [ensures_bind, ensures_get, counterSetInvalid_of_valid hpmu h.counters, ensures_pure,
    Bool.false_eq_true, if_false]
  exact ensures_counterStopLoop_run hpmu isReset _ _ h.counters.lt_total

theorem returns_counterStop_rejected (hpmu : WellNumbered features hart.pmu) (flags : Nat)
    (h : ∀ isReset, ¬ StopsLoop hart.pmu base mask flags isReset) :
    Returns (counterStop features base mask flags) hart fun ret hart' =>
      (ret = .invalidParam ∨ ret = .noShmem) ∧ hart' = hart := by
  unfold counterStop
  cases hflags : StopFlags.fromBits flags with
  | none => exact returns_pure.mpr ⟨.inl rfl, rfl⟩
  | some stopFlags =>
    obtain ⟨isReset, snapshot⟩ := stopFlags
    rw [returns_bind, returns_get]
    by_cases hset : CounterSetValid hart.pmu base mask
    · have hsnapshot : snapshot = true := by
        by_contra hnot
        exact h isReset ⟨by rw [hflags, Bool.eq_false_of_not_eq_true hnot], hset⟩
      rw [counterSetInvalid_of_valid hpmu hset, hsnapshot]
      exact returns_pure.mpr ⟨.inr rfl, rfl⟩
    · rw [counterSetInvalid_of_not_valid hpmu hset]
      exact returns_pure.mpr ⟨.inl rfl, rfl⟩

end Calls

end RustSbi.Pmu
