import RustSbi.Sbi.PmuCounting

/-!
Which counter a configuration without `SKIP_MATCH` takes. The three searches
(firmware counters, programmable counters of the event maps, the fixed counters of
the cycle and instruction events) find a selected counter that no event has, or the
fixed counter of the event itself, and nothing of another counter changes.
-/

namespace RustSbi.Pmu

open Bits Checked

variable {xlen : Xlen} {features : HartFeatures} {sbiPmu : SbiPmu} {hart : Hart xlen}

/-! ## One counter among the others -/

/-- What a supervisor can tell of a counter: the event it counts, the selector of its
register, its value and whether it is counting. -/
@[ext] structure Counter (xlen : Xlen) where
  event : Option Nat
  selector : Option (BitVec xlen.bits)
  value : Option (BitVec 64)
  running : Bool

def Hart.counter (features : HartFeatures) (hart : Hart xlen) (counterIdx : Nat) : Counter xlen :=
  match getMhpmCsrOffset features counterIdx with
  | some offset =>
    ⟨hart.pmu.activeEvent[counterIdx]?, some (hart.csrs.mhpmevent offset),
      some (hart.csrs.mhpmcounter offset), !hart.csrs.mcountinhibit.getLsbD offset⟩
  | none =>
    let fwIdx := counterIdx - hart.pmu.hwCountersNum
    ⟨hart.pmu.activeEvent[counterIdx]?, none, hart.pmu.fwCounter[fwIdx]?,
      hart.pmu.fwCounterState.getLsbD fwIdx⟩

/-- Only the counter itself may have changed. -/
structure LeavesOthers (features : HartFeatures) (hart : Hart xlen) (counterIdx : Nat)
    (hart' : Hart xlen) : Prop where
  hwCountersNum : hart'.pmu.hwCountersNum = hart.pmu.hwCountersNum
  others : ∀ other ≠ counterIdx, hart'.counter features other = hart.counter features other

theorem LeavesOthers.refl (features : HartFeatures) (hart : Hart xlen) (counterIdx : Nat) :
    LeavesOthers features hart counterIdx hart := ⟨rfl, fun _ _ => rfl⟩

theorem LeavesOthers.trans {counterIdx : Nat} {hart₁ hart₂ : Hart xlen}
    (h : LeavesOthers features hart counterIdx hart₁)
    (h' : LeavesOthers features hart₁ counterIdx hart₂) :
    LeavesOthers features hart counterIdx hart₂ :=
  ⟨h'.hwCountersNum.trans h.hwCountersNum,
    fun other hne => (h'.others other hne).trans (h.others other hne)⟩

/-- Two counters have different registers. -/
theorem getMhpmCsrOffset_inj {i j offset : Nat} (hi : getMhpmCsrOffset features i = some offset)
    (hj : getMhpmCsrOffset features j = some offset) : i = j := by
  rw [getMhpmCsrOffset_eq] at hi hj
  have hnodup : (setBits features.mhpmMask).Nodup := List.nodup_range.filter _
  have hlt : i < (setBits features.mhpmMask).length := by
    by_contra hge
    rw [List.getElem?_eq_none (not_lt.mp hge)] at hi
    cases hi
  exact (List.getElem?_inj hlt hnodup).mp (hi.trans hj.symm)

/-- Registers that agree away from one offset. -/
def Csrs.SameExcept (offset : Nat) (csrs csrs' : Csrs xlen) : Prop :=
  ∀ other ≠ offset, csrs'.mhpmevent other = csrs.mhpmevent other ∧
    csrs'.mhpmcounter other = csrs.mhpmcounter other ∧
    csrs'.mcountinhibit.getLsbD other = csrs.mcountinhibit.getLsbD other

theorem Csrs.SameExcept.trans {offset : Nat} {csrs csrs₁ csrs₂ : Csrs xlen}
    (h : csrs.SameExcept offset csrs₁) (h' : csrs₁.SameExcept offset csrs₂) :
    csrs.SameExcept offset csrs₂ := by
  intro other hne
  obtain ⟨hevent, hcounter, hinhibit⟩ := h other hne
  obtain ⟨hevent', hcounter', hinhibit'⟩ := h' other hne
  exact ⟨hevent'.trans hevent, hcounter'.trans hcounter, hinhibit'.trans hinhibit⟩

/-- What a routine does that only touches the registers of one offset. -/
def TouchesOffset (offset : Nat) (hart hart' : Hart xlen) : Prop :=
  hart'.pmu = hart.pmu ∧ hart.csrs.SameExcept offset hart'.csrs

theorem TouchesOffset.refl (offset : Nat) (hart : Hart xlen) : TouchesOffset offset hart hart :=
  ⟨rfl, fun _ _ => ⟨rfl, rfl, rfl⟩⟩

theorem TouchesOffset.trans {offset : Nat} {hart₁ hart₂ : Hart xlen}
    (h : TouchesOffset offset hart hart₁) (h' : TouchesOffset offset hart₁ hart₂) :
    TouchesOffset offset hart hart₂ :=
  ⟨h'.1.trans h.1, h.2.trans h'.2⟩

theorem TouchesOffset.leavesOthers {counterIdx offset : Nat} {hart' : Hart xlen}
    (h : TouchesOffset offset hart hart')
    (hoffset : getMhpmCsrOffset features counterIdx = some offset) :
    LeavesOthers features hart counterIdx hart' := by
  obtain ⟨hpmu, hcsrs⟩ := h
  refine ⟨by rw [hpmu], fun other hne => ?_⟩
  unfold Hart.counter
  cases hother : getMhpmCsrOffset features other with
  | none => simp only [hpmu]
  | some own =>
    have hown : own ≠ offset := by
      rintro rfl
      exact hne (getMhpmCsrOffset_inj hother hoffset)
    obtain ⟨hevent, hcounter, hinhibit⟩ := hcsrs own hown
    simp only [hpmu, hevent, hcounter, hinhibit]

theorem ensures_writeMhpmevent (offset : Nat) (value : BitVec 64) :
    Ensures (writeMhpmevent offset value) hart fun _ => TouchesOffset offset hart := by
  unfold writeMhpmevent
  split
  · rw [ensures_modify]
    refine ⟨rfl, fun other hne => ⟨Function.update_of_ne hne _ _, rfl, rfl⟩⟩
  · exact ensures_pure.mpr (.refl offset hart)

theorem ensures_writeMhpmcounter (offset : Nat) (value : BitVec 64) :
    Ensures (writeMhpmcounter offset value) hart fun _ => TouchesOffset offset hart := by
  unfold writeMhpmcounter
  split
  · rw [ensures_modify]
    refine ⟨rfl, fun other hne => ⟨rfl, Function.update_of_ne hne _ _, rfl⟩⟩
  · exact ensures_pure.mpr (.refl offset hart)

theorem ensures_inhibitMask {offset : Nat} {counter : HardwareCounter}
    (h : HardwareCounter.tryFromOffset offset = some counter) :
    Ensures counter.inhibitMask hart fun mask hart' =>
      hart' = hart ∧ mask = 1#(xlen.bits) <<< offset := by
  unfold HardwareCounter.tryFromOffset at h
  split_ifs at h <;> cases h <;>
    simp only [HardwareCounter.inhibitMask, ensures_shiftLeft] <;> intro _ <;> simp_all

/-- Starting a counter clears its bit of `mcountinhibit`. -/
theorem ensures_startHardwareCounter (offset : Nat) (value : BitVec 64) (isUpdate : Bool) :
    Ensures (startHardwareCounter features offset value isUpdate) hart
      fun _ => TouchesOffset offset hart := by
  have hupdate : Ensures (if isUpdate = true then writeMhpmcounter offset value else pure ⟨⟩) hart
      fun _ => TouchesOffset offset hart := by
    rw [ensures_ite]
    split
    · exact ensures_writeMhpmcounter offset value
    · exact ensures_pure.mpr (.refl offset hart)
  unfold startHardwareCounter
  generalize (if isUpdate = true then writeMhpmcounter offset value else pure ⟨⟩) = update at hupdate ⊢
  cases hcounter : HardwareCounter.tryFromOffset offset with
  | none => exact ensures_pure.mpr (.refl offset hart)
  | some counter =>
    simp only [ensures_ite, ensures_bind, ensures_get, ensures_pure]
    split
    · exact hupdate
    · refine (ensures_inhibitMask hcounter).mono ?_
      rintro mask hart₁ ⟨hsame, rfl⟩
      obtain rfl := hsame.symm
      split
      · exact .refl offset hart
      · refine hupdate.mono fun _ hart₁ h => ?_
        rw [writeMcountinhibit, ensures_modify]
        refine h.trans ⟨rfl, fun other hne => ⟨rfl, rfl, ?_⟩⟩
        have hbit := (h.2 other hne).2.2
        simp only [getLsbD_clearBit, hne, ne_eq, not_false_eq_true, decide_true, Bool.and_true, hbit]

theorem eq_notSupported_of_okOrNotSupported {α : Type} {o : Option α} {e : SbiRet}
    (h : okOrNotSupported o = .error e) : e = .notSupported := by
  cases o with
  | none => exact (Except.error.inj h).symm
  | some a => cases h

theorem eq_notSupported_of_mhpmeventVal {eventIdx : Nat} {eventData : BitVec 64} {e : SbiRet}
    (h : mhpmeventVal sbiPmu eventIdx eventData = .error e) : e = .notSupported := by
  unfold mhpmeventVal at h
  split at h
  · cases h
  · split at h
    · exact eq_notSupported_of_okOrNotSupported h
    · split at h <;> cases h
      rfl

theorem ensures_pmuUpdateHardwareMhpmevent (offset eventIdx : Nat) (eventData : BitVec 64) :
    Ensures (pmuUpdateHardwareMhpmevent sbiPmu offset eventIdx eventData) hart fun result hart' =>
      TouchesOffset offset hart hart' ∧ ∀ e, result = .error e → e = .notSupported := by
  unfold pmuUpdateHardwareMhpmevent
  simp only [ensures_ite, ensures_pure]
  split
  · exact ⟨.refl offset hart, by rintro _ ⟨⟩⟩
  · split
    · exact ⟨.refl offset hart, fun e h => (Except.error.inj h).symm⟩
    · cases hvalue : mhpmeventVal sbiPmu eventIdx eventData with
      | error e =>
        refine ensures_pure.mpr ⟨.refl offset hart, fun e' h => ?_⟩
        rw [← Except.error.inj h]
        exact eq_notSupported_of_mhpmeventVal hvalue
      | ok value =>
        rw [ensures_bind]
        refine (ensures_writeMhpmevent offset value).mono fun _ hart' h => ?_
        exact ensures_pure.mpr ⟨h, by rintro _ ⟨⟩⟩

/-! ## The searches -/

/-- The counter is the fixed one of the cycle or the instruction event. -/
def FixedFor (features : HartFeatures) (eventIdx counterIdx : Nat) : Prop :=
  (eventIdx = 1 ∧ getMhpmCsrOffset features counterIdx = some 0) ∨
    (eventIdx = 2 ∧ getMhpmCsrOffset features counterIdx = some 2)

/-- The counters that the event maps give to an event: those of the first row that has it. -/
def SbiPmu.countersOf (sbiPmu : SbiPmu) (eventIdx : Nat) (eventData : BitVec 64) :
    Option (BitVec 32) :=
  if EventIdx.isRawEvent ⟨eventIdx⟩ then
    (sbiPmu.rawEventToMhpmcounter.bind (·.find? (·.haveEvent eventData))).map (·.countersMask)
  else
    (sbiPmu.eventToMhpmcounter.bind (·.find? (·.haveEvent (eventIdx % 2 ^ 32)))).map (·.countersMask)

/-- The event maps permit the counter for the event. -/
def PermittedFor (features : HartFeatures) (sbiPmu : SbiPmu) (eventIdx : Nat)
    (eventData : BitVec 64) (counterIdx : Nat) : Prop :=
  ∃ offset mask, getMhpmCsrOffset features counterIdx = some offset ∧
    sbiPmu.countersOf eventIdx eventData = some mask ∧ mask.getLsbD offset = true

/-- No event is on the counter. -/
def Unconfigured (pmu : PmuState xlen) (counterIdx : Nat) : Prop :=
  pmu.activeEvent[counterIdx]? = some (eventIdxInvalid xlen)

theorem fixedFor_of_fixedCounter {counters : CounterMask xlen} {eventIdx counterIdx : Nat}
    (h : fixedCounter features counters eventIdx = some counterIdx) :
    counterIdx ∈ counters.toList ∧ FixedFor features eventIdx counterIdx := by
  have hfound := List.find?_some h
  refine ⟨List.mem_of_find?_eq_some h, ?_⟩
  split at hfound
  next hoffset => exact Or.inl ⟨rfl, hoffset⟩
  next hoffset => exact Or.inr ⟨rfl, hoffset⟩
  · cases hfound

theorem ensures_counterOccupied {pmu : PmuState xlen} {mask : BitVec 32} {counterIdx offset : Nat} :
    Ensures (counterOccupied pmu mask counterIdx offset) hart fun occupied hart' =>
      hart' = hart ∧ (occupied = false ↔ mask.getLsbD offset = true ∧ Unconfigured pmu counterIdx) := by
  simp only [counterOccupied, ensures_bind, ensures_shiftRight, ensures_ite, ensures_pure,
    ensures_readAt]
  intro hoffset
  have hbit : (mask >>> offset) &&& 1#32 ≠ 0#32 ↔ mask.getLsbD offset = true := by
    have hone := and_oneShift_ne_zero_iff (x := mask >>> offset) (i := 0) (by decide)
    simpa using hone
  split
  next hzero =>
    exact ⟨trivial, by rintro ⟨⟩, fun h => absurd hzero (hbit.mpr h.1)⟩
  next hone =>
    intro hread
    have hset := hbit.mp hone
    rw [Unconfigured, Vector.getElem?_eq_getElem hread]
    simp [hset]

theorem ensures_counterCounting {offset : Nat} :
    Ensures (counterCounting features offset) hart fun _ hart' => hart' = hart := by
  simp only [counterCounting, ensures_ite, ensures_bind, ensures_get, ensures_shiftLeft,
    ensures_pure, implies_true, ite_self]

/-- The end of the search over the counters of a mask: one of them without an event, or what is
left for the event otherwise. -/
def LoopFinds (features : HartFeatures) (hart : Hart xlen) (mask : BitVec 32)
    (fixed : Except SbiRet Nat) (counters : List Nat) : Except SbiRet Nat → Hart xlen → Prop
  | .error e, _ => fixed = .error e ∨ e = .notSupported
  | .ok counterIdx, hart' =>
    hart'.pmu = hart.pmu ∧ LeavesOthers features hart counterIdx hart' ∧
      (fixed = .ok counterIdx ∨ (counterIdx ∈ counters ∧ counterIdx < hart.pmu.hwCountersNum ∧
        Unconfigured hart.pmu counterIdx ∧ ∃ offset,
          getMhpmCsrOffset features counterIdx = some offset ∧ mask.getLsbD offset = true))

theorem LoopFinds.cons {mask : BitVec 32} {fixed result : Except SbiRet Nat} {counterIdx : Nat}
    {rest : List Nat} {hart' : Hart xlen} (h : LoopFinds features hart mask fixed rest result hart') :
    LoopFinds features hart mask fixed (counterIdx :: rest) result hart' := by
  cases result with
  | error e => exact h
  | ok found =>
    obtain ⟨hpmu, hothers, hfixed | ⟨hmem, hfree⟩⟩ := h
    · exact ⟨hpmu, hothers, Or.inl hfixed⟩
    · exact ⟨hpmu, hothers, Or.inr ⟨List.mem_cons_of_mem _ hmem, hfree⟩⟩

theorem ensures_findHardwareCounterLoop (mask : BitVec 32) (eventIdx : Nat)
    (eventData : BitVec 64) (fixed : Except SbiRet Nat) (counters : List Nat) :
    Ensures (findHardwareCounterLoop features sbiPmu hart.pmu mask eventIdx eventData fixed counters)
      hart (LoopFinds features hart mask fixed counters) := by
  induction counters with
  | nil =>
    rw [findHardwareCounterLoop, ensures_pure]
    cases fixed with
    | error e => exact Or.inl rfl
    | ok counterIdx => exact ⟨rfl, .refl features hart counterIdx, Or.inl rfl⟩
  | cons counterIdx rest ih =>
    have hskip := ih.mono fun result hart' h =>
      show LoopFinds features hart mask fixed (counterIdx :: rest) result hart' from h.cons
    rw [findHardwareCounterLoop, ensures_ite]
    split
    · exact hskip
    next hrange =>
      rw [ensures_bind, ensures_unwrap]
      intro offset hoffset
      rw [ensures_bind]
      refine ensures_counterOccupied.mono ?_
      rintro occupied hart₁ ⟨hsame, hfree⟩
      obtain rfl := hsame.symm
      rw [ensures_ite]
      split
      · exact hskip
      next hoccupied =>
        rw [ensures_ite]
        split
        · exact hskip
        · rw [ensures_bind]
          refine ensures_counterCounting.mono ?_
          rintro counting hart₁ rfl
          rw [ensures_ite]
          split
          · exact hskip
          · rw [ensures_bind]
            refine (ensures_pmuUpdateHardwareMhpmevent offset eventIdx eventData).mono ?_
            rintro result hart' ⟨htouches, herror⟩
            cases result with
            | error e => exact ensures_pure.mpr (Or.inr (herror e rfl))
            | ok _ =>
              rw [ensures_pure]
              obtain ⟨hbit, hunconfigured⟩ := hfree.mp (Bool.not_eq_true _ ▸ hoccupied)
              exact ⟨htouches.1, htouches.leavesOthers hoffset, Or.inr ⟨List.mem_cons_self,
                not_le.mp hrange, hunconfigured, offset, hoffset, hbit⟩⟩

/-- The kind of counter that an event requires. -/
def RightKind (features : HartFeatures) (sbiPmu : SbiPmu) (pmu : PmuState xlen) (eventIdx : Nat)
    (eventData : BitVec 64) (counterIdx : Nat) : Prop :=
  if EventIdx.isFirmwareEvent ⟨eventIdx⟩ = true then
    pmu.hwCountersNum ≤ counterIdx ∧ counterIdx < pmu.totalCountersNum
  else
    counterIdx < pmu.hwCountersNum ∧
      (PermittedFor features sbiPmu eventIdx eventData counterIdx ∨
        FixedFor features eventIdx counterIdx)

/-- What a search promises of the counter that it finds. -/
structure Found (features : HartFeatures) (sbiPmu : SbiPmu) (hart : Hart xlen)
    (counters : CounterMask xlen) (eventIdx : Nat) (eventData : BitVec 64) (counterIdx : Nat)
    (hart' : Hart xlen) : Prop where
  pmu : hart'.pmu = hart.pmu
  others : LeavesOthers features hart counterIdx hart'
  selected : counterIdx ∈ counters.toList
  kind : RightKind features sbiPmu hart.pmu eventIdx eventData counterIdx
  free : Unconfigured hart.pmu counterIdx ∨ FixedFor features eventIdx counterIdx

/-- A search finds such a counter, or the call is not supported. -/
def Finds (features : HartFeatures) (sbiPmu : SbiPmu) (hart : Hart xlen)
    (counters : CounterMask xlen) (eventIdx : Nat) (eventData : BitVec 64) :
    Except SbiRet Nat → Hart xlen → Prop
  | .error e, _ => e = .notSupported
  | .ok counterIdx, hart' =>
    Found features sbiPmu hart counters eventIdx eventData counterIdx hart'

section Searches

variable {counters : CounterMask xlen} {eventIdx : Nat} {eventData : BitVec 64}

theorem ensures_findFirmwareCounter (hpmu : WellNumbered features hart.pmu)
    (hevent : EventIdx.isFirmwareEvent ⟨eventIdx⟩ = true) :
    Ensures (findFirmwareCounter hart.pmu counters eventIdx) hart
      (Finds features sbiPmu hart counters eventIdx eventData) := by
  have htotal := hpmu.total
  rw [findFirmwareCounter, ensures_ite]
  split
  · exact ensures_pure.mpr rfl
  · refine (ensures_findFirmwareCounterLoop hpmu _).mono ?_
    rintro result hart' ⟨hsame, hfound⟩
    obtain rfl := hsame.symm
    cases result with
    | error e => exact hfound
    | ok counterIdx =>
      obtain ⟨hmem, j, hj, rfl, hfree⟩ := hfound
      refine ⟨rfl, .refl features hart _, hmem, ?_, Or.inl hfree⟩
      rw [RightKind, if_pos hevent]
      omega

theorem Found.of_fixed (hpmu : WellNumbered features hart.pmu)
    (hevent : EventIdx.isFirmwareEvent ⟨eventIdx⟩ = false) {counterIdx : Nat} {hart' : Hart xlen}
    (hsame : hart'.pmu = hart.pmu) (hothers : LeavesOthers features hart counterIdx hart')
    (hfixed : okOrNotSupported (fixedCounter features counters eventIdx) = .ok counterIdx) :
    Found features sbiPmu hart counters eventIdx eventData counterIdx hart' := by
  cases hcounter : fixedCounter features counters eventIdx with
  | none => rw [hcounter] at hfixed; cases hfixed
  | some found =>
    rw [hcounter] at hfixed
    cases hfixed
    obtain ⟨hmem, hfor⟩ := fixedFor_of_fixedCounter hcounter
    refine ⟨hsame, hothers, hmem, ?_, Or.inr hfor⟩
    rw [RightKind, if_neg (by simp [hevent])]
    exact ⟨fixedCounter_lt hpmu hcounter, Or.inr hfor⟩

/-- The search over the counters that the first row with the event permits. -/
theorem ensures_search {α : Type} (hpmu : WellNumbered features hart.pmu)
    (hevent : EventIdx.isFirmwareEvent ⟨eventIdx⟩ = false) {row : Option α} {f : α → BitVec 32}
    (hrow : sbiPmu.countersOf eventIdx eventData = row.map f) :
    Ensures (findHardwareCounterLoop features sbiPmu hart.pmu (row.elim 0 f &&& features.mhpmMask)
      eventIdx eventData (okOrNotSupported (fixedCounter features counters eventIdx))
      counters.toList) hart (Finds features sbiPmu hart counters eventIdx eventData) := by
  refine (ensures_findHardwareCounterLoop _ eventIdx eventData _ counters.toList).mono ?_
  intro result hart' h
  cases result with
  | error e => exact h.elim eq_notSupported_of_okOrNotSupported id
  | ok counterIdx =>
    obtain ⟨hsame, hothers, hfixed | ⟨hmem, hlt, hfree, offset, hoffset, hbit⟩⟩ := h
    · exact Found.of_fixed hpmu hevent hsame hothers hfixed
    · refine ⟨hsame, hothers, hmem, ?_, Or.inl hfree⟩
      rw [RightKind, if_neg (by simp [hevent])]
      rw [BitVec.getLsbD_and, Bool.and_eq_true] at hbit
      cases row with
      | none => simp at hbit
      | some own => exact ⟨hlt, Or.inl ⟨offset, f own, hoffset, hrow, hbit.1⟩⟩

theorem ensures_findHardwareCounter (hpmu : WellNumbered features hart.pmu)
    (hevent : EventIdx.isFirmwareEvent ⟨eventIdx⟩ = false) :
    Ensures (findHardwareCounter features sbiPmu hart.pmu counters eventIdx eventData) hart
      (Finds features sbiPmu hart counters eventIdx eventData) := by
  unfold findHardwareCounter
  by_cases hraw : EventIdx.isRawEvent ⟨eventIdx⟩ = true
  · simp only [if_pos hraw]
    cases hmap : sbiPmu.rawEventToMhpmcounter with
    | none => exact ensures_pure.mpr rfl
    | some rows =>
      have hrow : sbiPmu.countersOf eventIdx eventData =
          (rows.find? (·.haveEvent eventData)).map (·.countersMask) := by
        simp only [SbiPmu.countersOf, if_pos hraw, hmap, Option.bind_some]
      exact ensures_search hpmu hevent hrow
  · simp only [if_neg hraw]
    cases hmap : sbiPmu.eventToMhpmcounter with
    | none =>
      rw [ensures_pure]
      cases hfixed : okOrNotSupported (fixedCounter features counters eventIdx) with
      | error e => exact eq_notSupported_of_okOrNotSupported hfixed
      | ok counterIdx =>
        exact Found.of_fixed hpmu hevent rfl (.refl features hart counterIdx) hfixed
    | some rows =>
      have hrow : sbiPmu.countersOf eventIdx eventData =
          (rows.find? (·.haveEvent (eventIdx % 2 ^ 32))).map (·.countersMask) := by
        simp only [SbiPmu.countersOf, if_neg hraw, hmap, Option.bind_some]
      exact ensures_search hpmu hevent hrow

end Searches

/-! ## Configuring what was found -/

/-- The event of a counter is its own. -/
theorem leavesOthers_setEvent {counterIdx : Nat} (event : Nat)
    (h : counterIdx < hardwareCounterMax + firmwareCounterMax) :
    LeavesOthers features hart counterIdx
      { hart with pmu := hart.pmu.setEvent counterIdx event h } := by
  refine ⟨rfl, fun other hne => ?_⟩
  simp only [Hart.counter, PmuState.setEvent, getElem?_set_if, if_neg hne]

/-- A firmware counter has its own value and its own bit. -/
theorem leavesOthers_firmware (hpmu : WellNumbered features hart.pmu) {counterIdx : Nat}
    (hle : hart.pmu.hwCountersNum ≤ counterIdx) {fwCounter : Vector (BitVec 64) firmwareCounterMax}
    {fwCounterState : BitVec xlen.bits}
    (hvalue : ∀ k ≠ counterIdx - hart.pmu.hwCountersNum, fwCounter[k]? = hart.pmu.fwCounter[k]?)
    (hstate : ∀ k ≠ counterIdx - hart.pmu.hwCountersNum,
      fwCounterState.getLsbD k = hart.pmu.fwCounterState.getLsbD k) :
    LeavesOthers features hart counterIdx { hart with pmu := { hart.pmu with
      fwCounter := fwCounter, fwCounterState := fwCounterState } } := by
  refine ⟨rfl, fun other hne => ?_⟩
  unfold Hart.counter
  cases hother : getMhpmCsrOffset features other with
  | some offset => rfl
  | none =>
    have hge : hart.pmu.hwCountersNum ≤ other := by
      by_contra hlt
      obtain ⟨offset, -, hoffset⟩ := getMhpmCsrOffset_of_lt (hpmu.hardware ▸ not_le.mp hlt)
      rw [hother] at hoffset
      cases hoffset
    have hk : other - hart.pmu.hwCountersNum ≠ counterIdx - hart.pmu.hwCountersNum := by omega
    simp only [hvalue _ hk, hstate _ hk]

theorem getLsbD_setBit_of_ne {w : Nat} (x : BitVec w) {i j : Nat} (h : j ≠ i) :
    (x ||| 1#w <<< i).getLsbD j = x.getLsbD j := by
  by_cases hj : j < w
  · rw [getLsbD_setBit x hj, decide_eq_false h, Bool.or_false]
  · rw [BitVec.getLsbD_of_ge _ _ (not_lt.mp hj), BitVec.getLsbD_of_ge _ _ (not_lt.mp hj)]

theorem ensures_configureCounter_others (hpmu : WellNumbered features hart.pmu) (counterIdx : Nat)
    (event : EventIdx) (flags : ConfigFlags) :
    Ensures (configureCounter features counterIdx event flags) hart fun result hart' =>
      LeavesOthers features hart counterIdx hart' ∧
        ∀ e, result = .error e → ∀ value, e ≠ .success value := by
  cases hevent : event.isFirmwareEvent with
  | true =>
    simp only [configureCounter, hevent, if_true, setPmu, ensures_ite, ensures_bind, ensures_pure,
      ensures_get, ensures_checkedSub, ensures_shiftLeft, ensures_writeAt, ensures_modify,
      ensures_map]
    intro hle
    split
    · exact ⟨.refl features hart counterIdx, by rintro _ ⟨⟩ value ⟨⟩⟩
    · have hor : ∀ k ≠ counterIdx - hart.pmu.hwCountersNum,
          (hart.pmu.fwCounterState ||| 1#(xlen.bits) <<< (counterIdx - hart.pmu.hwCountersNum)).getLsbD k
            = hart.pmu.fwCounterState.getLsbD k := fun k hk => getLsbD_setBit_of_ne _ hk
      have hset : ∀ hwrite, ∀ k ≠ counterIdx - hart.pmu.hwCountersNum,
          (hart.pmu.fwCounter.set (counterIdx - hart.pmu.hwCountersNum) 0 hwrite)[k]? =
            hart.pmu.fwCounter[k]? := fun hwrite k hk => by rw [getElem?_set_if hwrite, if_neg hk]
      cases flags.clearValue <;> cases flags.autoStart
      · exact ⟨leavesOthers_firmware hpmu hle (fun _ _ => rfl) fun _ _ => rfl, by rintro _ ⟨⟩⟩
      · intro _
        exact ⟨leavesOthers_firmware hpmu hle (fun _ _ => rfl) hor, by rintro _ ⟨⟩⟩
      · intro hwrite
        exact ⟨leavesOthers_firmware hpmu hle (hset hwrite) fun _ _ => rfl, by rintro _ ⟨⟩⟩
      · intro hwrite _
        exact ⟨leavesOthers_firmware hpmu hle (hset hwrite) hor, by rintro _ ⟨⟩⟩
  | false =>
    simp only [configureCounter, hevent, Bool.false_eq_true, if_false, ensures_bind,
      ensures_unwrap]
    intro offset hoffset
    refine Ensures.mono (Q := fun _ hart₁ => TouchesOffset offset hart hart₁) ?_ ?_
    · rw [ensures_ite]
      split
      · exact ensures_writeMhpmcounter offset 0
      · exact ensures_pure.mpr (.refl offset hart)
    · intro _ hart₁ h
      rw [ensures_ite]
      split
      · rw [ensures_bind]
        refine (ensures_startHardwareCounter offset 0 false).mono fun result hart₂ h₂ => ?_
        cases result with
        | error e =>
          exact ensures_pure.mpr ⟨(h.trans h₂).leavesOthers hoffset, by rintro _ ⟨⟩ value ⟨⟩⟩
        | ok _ => exact ensures_pure.mpr ⟨(h.trans h₂).leavesOthers hoffset, by rintro _ ⟨⟩⟩
      · exact ensures_pure.mpr ⟨h.leavesOthers hoffset, by rintro _ ⟨⟩⟩

/-- What a configuration without `SKIP_MATCH` promises of the counter it returns. -/
structure Allocates (features : HartFeatures) (sbiPmu : SbiPmu) (hart : Hart xlen) (base : Nat)
    (mask : BitVec xlen.bits) (eventIdx : Nat) (eventData : BitVec 64) (counterIdx : Nat)
    (hart' : Hart xlen) : Prop where
  selected : ∃ i, mask.getLsbD i = true ∧ i + base = counterIdx
  kind : RightKind features sbiPmu hart.pmu eventIdx eventData counterIdx
  free : Unconfigured hart.pmu counterIdx ∨ FixedFor features eventIdx counterIdx
  others : ∀ other ≠ counterIdx, hart'.counter features other = hart.counter features other

section Matching

variable {base : Nat} {mask : BitVec xlen.bits} {eventIdx : Nat} {eventData : BitVec 64}

theorem ensures_matchCounter_found (hpmu : WellNumbered features hart.pmu) :
    Ensures (matchCounter features sbiPmu ⟨base, mask⟩ false eventIdx eventData) hart
      fun result hart' => match result with
        | .error e => e = .notSupported
        | .ok counterIdx => WellNumbered features hart'.pmu ∧
            Allocates features sbiPmu hart base mask eventIdx eventData counterIdx hart' := by
  have hfinds : Ensures
      (if EventIdx.isFirmwareEvent ⟨eventIdx⟩ then findFirmwareCounter hart.pmu ⟨base, mask⟩ eventIdx
        else findHardwareCounter features sbiPmu hart.pmu ⟨base, mask⟩ eventIdx eventData)
      hart (Finds features sbiPmu hart ⟨base, mask⟩ eventIdx eventData) := by
    rw [ensures_ite]
    split
    next hevent => exact ensures_findFirmwareCounter hpmu hevent
    next hevent => exact ensures_findHardwareCounter hpmu (Bool.not_eq_true _ ▸ hevent)
  simp only [matchCounter, ensures_bind, ensures_get, Bool.false_eq_true, if_false]
  refine hfinds.mono fun result hart₁ h => ?_
  cases result with
  | error e => exact ensures_pure.mpr h
  | ok counterIdx =>
    simp only [setPmu, ensures_bind, ensures_writeAt, ensures_modify, ensures_pure]
    intro hwrite
    have hevent : LeavesOthers features hart₁ counterIdx _ := leavesOthers_setEvent eventIdx hwrite
    refine ⟨⟨hpmu.hardware, hpmu.total⟩, CounterMask.mem_toList_iff.mp h.selected, h.kind, h.free,
      ?_⟩
    rw [← h.pmu]
    exact (h.others.trans hevent).others

end Matching

theorem ensures_counterConfigMatching_allocates (hpmu : WellNumbered features hart.pmu) (base : Nat)
    (mask : BitVec xlen.bits) {configFlags : Nat} (hskip : configFlags.testBit 0 = false)
    (eventIdx : Nat) (eventData : BitVec 64) :
    Ensures (counterConfigMatching features sbiPmu base mask configFlags eventIdx eventData) hart
      fun ret hart' => ∀ counterIdx, ret = .success counterIdx →
        Allocates features sbiPmu hart base mask eventIdx eventData counterIdx hart' := by
  unfold counterConfigMatching
  cases hflags : ConfigFlags.fromBits configFlags with
  | none => exact ensures_pure.mpr (by rintro _ ⟨⟩)
  | some flags =>
    have hmatch : flags.skipMatch = false := by
      unfold ConfigFlags.fromBits at hflags
      split at hflags <;> cases hflags
      exact hskip
    simp only [ensures_bind, ensures_get]
    by_cases hset : CounterSetValid hart.pmu base mask
    · rw [counterSetInvalid_of_valid hpmu hset]
      simp only [ensures_pure, Bool.false_eq_true, if_false, ensures_ite, ensures_bind, hmatch]
      split
      · rintro _ ⟨⟩
      · refine (ensures_matchCounter_found hpmu).mono fun result hart₁ h => ?_
        cases result with
        | error e =>
          rw [ensures_pure, h]
          rintro _ ⟨⟩
        | ok found =>
          obtain ⟨hpmu₁, hfound⟩ := h
          rw [ensures_bind]
          refine (ensures_configureCounter_others hpmu₁ found ⟨eventIdx⟩ flags).mono ?_
          rintro done hart' ⟨hothers, herror⟩
          cases done with
          | error e => exact ensures_pure.mpr fun counterIdx h => absurd h (herror e rfl counterIdx)
          | ok _ =>
            rw [ensures_pure]
            rintro counterIdx ⟨⟩
            exact ⟨hfound.selected, hfound.kind, hfound.free, fun other hne =>
              (hothers.others other hne).trans (hfound.others other hne)⟩
    · rw [counterSetInvalid_of_not_valid hpmu hset]
      simp only [ensures_pure, if_true]
      rintro _ ⟨⟩

/-- In every reachable state, a configuration without `SKIP_MATCH` that succeeds returns a selected
counter of the kind that the event requires, which had no event or is the fixed counter of the
event, and leaves every other counter as it was. -/
theorem counters_allocated_once (hreach : Reachable features sbiPmu hart)
    {base mask flags eventIdx : BitVec xlen.bits} {eventData : BitVec 64}
    (hskip : flags.toNat.testBit 0 = false) {counterIdx : Nat} {hart' : Hart xlen}
    (hcall : (Call.counterConfigMatching base mask flags eventIdx eventData).handle features sbiPmu
      hart = .ok (.success counterIdx, hart')) :
    Allocates features sbiPmu hart base.toNat mask eventIdx.toNat eventData counterIdx hart' :=
  ensures_counterConfigMatching_allocates hreach.wellNumbered base.toNat mask hskip eventIdx.toNat
    eventData _ _ hcall counterIdx rfl

/-- The event map gives event 3 the counter of `mhpmcounter3`, which has index 3. -/
theorem counters_allocated_once_hpm :
    let features : HartFeatures := ⟨.version1_12, 15⟩
    let sbiPmu : SbiPmu := ⟨none, some [⟨8, 3, 3⟩], none⟩
    let hart : Hart .rv64 := boot features ⟨0xf, fun _ => 0, fun _ => 0⟩
    ∃ hart', (Call.counterConfigMatching 0 0xf 6 3 0).handle features sbiPmu hart =
        .ok (.success 3, hart') ∧
      Allocates features sbiPmu hart 0 0xf 3 0 3 hart' := by
  intro features sbiPmu hart
  have hboot : Reachable features sbiPmu hart := ⟨⟨0xf, fun _ => 0, fun _ => 0⟩, [], [], rfl⟩
  have hret : ((Call.counterConfigMatching 0 0xf 6 3 0).handle features sbiPmu hart).map Prod.fst =
      .ok (.success 3) := by decide +kernel
  cases hcall : (Call.counterConfigMatching 0 0xf 6 3 0).handle features sbiPmu hart with
  | error e =>
    rw [hcall] at hret
    cases hret
  | ok r =>
    obtain ⟨ret, hart'⟩ := r
    rw [hcall] at hret
    obtain rfl : ret = .success 3 := Except.ok.inj hret
    exact ⟨hart', rfl, counters_allocated_once hboot (by decide) hcall⟩

end RustSbi.Pmu
