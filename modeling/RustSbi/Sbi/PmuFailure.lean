import RustSbi.Sbi.PmuReset

/-!
When a configuration that fails has changed the hart. The only error after a write is
that of the automatic start of a hardware counter which is running already: a counter
that `SKIP_MATCH` names, or a fixed counter taken because no programmable one is free.
-/

namespace RustSbi.Pmu

open Bits Checked

variable {xlen : Xlen} {features : HartFeatures} {sbiPmu : SbiPmu} {hart : Hart xlen}

/-! ## The search for a hardware counter -/

/-- The search for the event does not pass over the counter. -/
structure Available (features : HartFeatures) (sbiPmu : SbiPmu) (hart : Hart xlen) (eventIdx : Nat)
    (eventData : BitVec 64) (counterIdx : Nat) : Prop where
  free : Unconfigured hart.pmu counterIdx
  permitted : PermittedFor features sbiPmu eventIdx eventData counterIdx
  cycle : getMhpmCsrOffset features counterIdx = some 0 → eventIdx = 1
  instret : getMhpmCsrOffset features counterIdx = some 2 → eventIdx = 2
  stopped : features.privilegedVersion.hasCountinhibit = true →
    hart.running features counterIdx = false

/-- How the search ends: at an available counter, whose selector it may set, or with what is left
for the event when there is none. -/
def SearchEnds (features : HartFeatures) (sbiPmu : SbiPmu) (hart : Hart xlen) (eventIdx : Nat)
    (eventData : BitVec 64) (fixed : Except SbiRet Nat) (counters : List Nat) :
    Except SbiRet Nat → Hart xlen → Prop
  | .error _, hart' => hart' = hart ∧
    ((∃ counterIdx ∈ counters, Available features sbiPmu hart eventIdx eventData counterIdx) ∨
      ∀ counterIdx, fixed ≠ .ok counterIdx)
  | .ok counterIdx, hart' =>
    (Available features sbiPmu hart eventIdx eventData counterIdx ∧ counterIdx ∈ counters ∧
      ¬ IsTime features counterIdx ∧ hart'.pmu = hart.pmu ∧
      hart'.csrs.mcountinhibit = hart.csrs.mcountinhibit) ∨
    (fixed = .ok counterIdx ∧ hart' = hart ∧
      ∀ other ∈ counters, ¬ Available features sbiPmu hart eventIdx eventData other)

theorem SearchEnds.cons {eventIdx counterIdx : Nat} {eventData : BitVec 64}
    {fixed result : Except SbiRet Nat} {rest : List Nat} {hart' : Hart xlen}
    (hnot : ¬ Available features sbiPmu hart eventIdx eventData counterIdx)
    (h : SearchEnds features sbiPmu hart eventIdx eventData fixed rest result hart') :
    SearchEnds features sbiPmu hart eventIdx eventData fixed (counterIdx :: rest) result hart' := by
  cases result with
  | error e =>
    refine ⟨h.1, h.2.imp_left ?_⟩
    rintro ⟨other, hmem, havailable⟩
    exact ⟨other, List.mem_cons_of_mem _ hmem, havailable⟩
  | ok found =>
    refine h.imp ?_ ?_
    · rintro ⟨havailable, hmem, hsame⟩
      exact ⟨havailable, List.mem_cons_of_mem _ hmem, hsame⟩
    · rintro ⟨hfixed, hsame, hothers⟩
      exact ⟨hfixed, hsame, List.forall_mem_cons.mpr ⟨hnot, hothers⟩⟩

theorem ensures_counterCounting_iff {counterIdx offset : Nat}
    (hoffset : getMhpmCsrOffset features counterIdx = some offset) :
    Ensures (counterCounting features offset) hart fun counting hart' =>
      hart' = hart ∧ (counting = false ↔ (features.privilegedVersion.hasCountinhibit = true →
        hart.running features counterIdx = false)) := by
  rw [Hart.running, counter_of_offset hoffset]
  simp only [counterCounting, ensures_ite, ensures_bind, ensures_get, ensures_shiftLeft,
    ensures_pure]
  split
  next hinhibit =>
    intro hlt
    have hbit := and_oneShift_ne_zero_iff (x := hart.csrs.mcountinhibit) hlt
    rw [decide_eq_false_iff_not, ← ne_eq, hbit]
    simp [hinhibit]
  next hinhibit => simp [hinhibit]

/-- An update of a selector that fails has written nothing. -/
theorem ensures_pmuUpdateHardwareMhpmevent_error (offset eventIdx : Nat) (eventData : BitVec 64) :
    Ensures (pmuUpdateHardwareMhpmevent sbiPmu offset eventIdx eventData) hart fun result hart' =>
      hart'.pmu = hart.pmu ∧ hart'.csrs.mcountinhibit = hart.csrs.mcountinhibit ∧
        (∀ e, result = .error e → hart' = hart) ∧ (result = .ok ⟨⟩ → offset ≠ 1) := by
  unfold pmuUpdateHardwareMhpmevent
  simp only [ensures_ite, ensures_pure]
  split
  next hfixed => exact ⟨trivial, trivial, by rintro _ ⟨⟩, fun _ => by omega⟩
  next =>
    split
    · exact ⟨trivial, trivial, fun _ _ => trivial, by rintro ⟨⟩⟩
    next hrange =>
      cases mhpmeventVal sbiPmu eventIdx eventData with
      | error e => exact ensures_pure.mpr ⟨rfl, rfl, fun _ _ => rfl, by rintro ⟨⟩⟩
      | ok value =>
        simp only [writeMhpmevent, ensures_bind, ensures_ite, ensures_modify, ensures_pure]
        split
        · exact ⟨trivial, trivial, by rintro _ ⟨⟩, fun _ => by omega⟩
        · exact ⟨trivial, trivial, by rintro _ ⟨⟩, fun _ => by omega⟩

/-- The counters that the event's row of the event maps gives it, as the search has them. -/
theorem permittedFor_iff {row : Option (BitVec 32)} {eventIdx counterIdx offset : Nat}
    {eventData : BitVec 64} (hrow : sbiPmu.countersOf eventIdx eventData = row)
    (hoffset : getMhpmCsrOffset features counterIdx = some offset) :
    PermittedFor features sbiPmu eventIdx eventData counterIdx ↔
      (row.getD 0 &&& features.mhpmMask).getLsbD offset = true := by
  rw [BitVec.getLsbD_and, getLsbD_mhpmMask hoffset, Bool.and_true]
  constructor
  · rintro ⟨own, mask, hown, hmask, hbit⟩
    obtain rfl : own = offset := Option.some.inj (hown.symm.trans hoffset)
    rw [← hrow, hmask]
    exact hbit
  · intro hbit
    cases row with
    | none => simp at hbit
    | some mask => exact ⟨offset, mask, hoffset, hrow, hbit⟩

theorem ensures_findHardwareCounterLoop_ends (hpmu : WellNumbered features hart.pmu)
    {row : Option (BitVec 32)} {eventIdx : Nat} {eventData : BitVec 64}
    (hrow : sbiPmu.countersOf eventIdx eventData = row) (fixed : Except SbiRet Nat)
    (counters : List Nat) :
    Ensures (findHardwareCounterLoop features sbiPmu hart.pmu (row.getD 0 &&& features.mhpmMask)
      eventIdx eventData fixed counters) hart
      (SearchEnds features sbiPmu hart eventIdx eventData fixed counters) := by
  induction counters with
  | nil =>
    rw [findHardwareCounterLoop, ensures_pure]
    cases fixed with
    | error e => exact ⟨rfl, .inr (by rintro _ ⟨⟩)⟩
    | ok counterIdx => exact .inr ⟨rfl, rfl, List.forall_mem_nil _⟩
  | cons counterIdx rest ih =>
    have hskip : ¬ Available features sbiPmu hart eventIdx eventData counterIdx →
        Ensures (findHardwareCounterLoop features sbiPmu hart.pmu
          (row.getD 0 &&& features.mhpmMask) eventIdx eventData fixed rest) hart
          (SearchEnds features sbiPmu hart eventIdx eventData fixed (counterIdx :: rest)) :=
      fun hnot => ih.mono fun result hart' h => h.cons hnot
    rw [findHardwareCounterLoop, ensures_ite]
    split
    next hrange =>
      refine hskip fun h => ?_
      obtain ⟨offset, mask, hoffset, -⟩ := h.permitted
      rw [getMhpmCsrOffset_of_firmware hpmu hrange] at hoffset
      cases hoffset
    next =>
      rw [ensures_bind, ensures_unwrap]
      intro offset hoffset
      rw [ensures_bind]
      refine ensures_counterOccupied.mono ?_
      rintro occupied hart₁ ⟨rfl, hfree⟩
      rw [← permittedFor_iff hrow hoffset] at hfree
      rw [ensures_ite]
      split
      next hoccupied =>
        refine hskip fun h => ?_
        rw [hfree.mpr ⟨h.permitted, h.free⟩] at hoccupied
        cases hoccupied
      next hoccupied =>
        obtain ⟨hpermitted, hunconfigured⟩ := hfree.mp (Bool.not_eq_true _ ▸ hoccupied)
        rw [ensures_ite]
        split
        next hother =>
          refine hskip fun h => ?_
          rcases hother with ⟨rfl, hne⟩ | ⟨rfl, hne⟩
          · exact hne (h.cycle hoffset)
          · exact hne (h.instret hoffset)
        next hother =>
          rw [ensures_bind]
          refine (ensures_counterCounting_iff hoffset).mono ?_
          rintro counting hart₂ ⟨rfl, hstopped⟩
          rw [ensures_ite]
          split
          next hcounting =>
            refine hskip fun h => ?_
            rw [hstopped.mpr h.stopped] at hcounting
            cases hcounting
          next hcounting =>
            have havailable : Available features sbiPmu hart₂ eventIdx eventData counterIdx := by
              refine ⟨hunconfigured, hpermitted, fun h => ?_, fun h => ?_,
                hstopped.mp (Bool.not_eq_true _ ▸ hcounting)⟩
              · rw [hoffset, Option.some_inj] at h
                omega
              · rw [hoffset, Option.some_inj] at h
                omega
            rw [ensures_bind]
            refine (ensures_pmuUpdateHardwareMhpmevent_error offset eventIdx eventData).mono ?_
            rintro result hart' ⟨hpmu', hinhibit, herror, hnotTime⟩
            cases result with
            | error e =>
              exact ensures_pure.mpr ⟨herror e rfl, .inl ⟨counterIdx, List.mem_cons_self, havailable⟩⟩
            | ok _ =>
              refine ensures_pure.mpr (.inl ⟨havailable, List.mem_cons_self, ?_, hpmu', hinhibit⟩)
              rw [isTime_iff hoffset]
              exact hnotTime rfl

section Matching

variable {base : Nat} {mask : BitVec xlen.bits} {eventIdx : Nat} {eventData : BitVec 64}

theorem fixedCounter_eq_none_of_raw (counters : CounterMask xlen)
    (h : EventIdx.isRawEvent ⟨eventIdx⟩ = true) : fixedCounter features counters eventIdx = none := by
  rw [fixedCounter, List.find?_eq_none]
  intro counterIdx _
  split
  · exact absurd h (by decide)
  · exact absurd h (by decide)
  · exact Bool.false_ne_true

/-- The search of a hardware event, with the fixed counter of the event as what is left for it. -/
theorem ensures_findHardwareCounter_ends (hpmu : WellNumbered features hart.pmu)
    (counters : CounterMask xlen) :
    Ensures (findHardwareCounter features sbiPmu hart.pmu counters eventIdx eventData) hart
      (SearchEnds features sbiPmu hart eventIdx eventData
        (okOrNotSupported (fixedCounter features counters eventIdx)) counters.toList) := by
  have hsearch : ∀ {α : Type} (found : Option α) (f : α → BitVec 32),
      sbiPmu.countersOf eventIdx eventData = found.map f →
      Ensures (findHardwareCounterLoop features sbiPmu hart.pmu
        (found.elim 0 f &&& features.mhpmMask) eventIdx eventData
        (okOrNotSupported (fixedCounter features counters eventIdx)) counters.toList) hart
        (SearchEnds features sbiPmu hart eventIdx eventData
          (okOrNotSupported (fixedCounter features counters eventIdx)) counters.toList) := by
    intro α found f hrow
    have hmask : found.elim 0 f = (found.map f).getD 0 := by
      cases found <;> rfl
    rw [hmask]
    exact ensures_findHardwareCounterLoop_ends hpmu hrow _ _
  unfold findHardwareCounter
  by_cases hraw : EventIdx.isRawEvent ⟨eventIdx⟩ = true
  · simp only [if_pos hraw]
    cases hmap : sbiPmu.rawEventToMhpmcounter with
    | none =>
      rw [fixedCounter_eq_none_of_raw counters hraw]
      exact ensures_pure.mpr ⟨rfl, .inr (by rintro _ ⟨⟩)⟩
    | some rows =>
      exact hsearch _ _ (by simp only [SbiPmu.countersOf, if_pos hraw, hmap, Option.bind_some])
  · simp only [if_neg hraw]
    cases hmap : sbiPmu.eventToMhpmcounter with
    | none =>
      have hnone : ∀ other ∈ counters.toList,
          ¬ Available features sbiPmu hart eventIdx eventData other := by
        intro other _ h
        obtain ⟨_, _, -, hrow, -⟩ := h.permitted
        simp [SbiPmu.countersOf, hraw, hmap] at hrow
      rw [ensures_pure]
      cases okOrNotSupported (fixedCounter features counters eventIdx) with
      | error e => exact ⟨rfl, .inr (by rintro _ ⟨⟩)⟩
      | ok counterIdx => exact .inr ⟨rfl, rfl, hnone⟩
    | some rows =>
      exact hsearch _ _ (by simp only [SbiPmu.countersOf, if_neg hraw, hmap, Option.bind_some])

theorem FixedFor.unique {counterIdx other : Nat} (h : FixedFor features eventIdx counterIdx)
    (h' : FixedFor features eventIdx other) : other = counterIdx := by
  rcases h with ⟨rfl, hoffset⟩ | ⟨rfl, hoffset⟩ <;> rcases h' with ⟨hevent, hother⟩ | ⟨hevent, hother⟩
  · exact getMhpmCsrOffset_inj hother hoffset
  · cases hevent
  · cases hevent
  · exact getMhpmCsrOffset_inj hother hoffset

theorem FixedFor.fixedCounter {counters : CounterMask xlen} {counterIdx : Nat}
    (h : FixedFor features eventIdx counterIdx) (hmem : counterIdx ∈ counters.toList) :
    Pmu.fixedCounter features counters eventIdx = some counterIdx := by
  cases hfound : Pmu.fixedCounter features counters eventIdx with
  | some found => rw [h.unique (fixedFor_of_fixedCounter hfound).2]
  | none =>
    rw [Pmu.fixedCounter, List.find?_eq_none] at hfound
    refine absurd ?_ (hfound counterIdx hmem)
    rcases h with ⟨rfl, hoffset⟩ | ⟨rfl, hoffset⟩ <;> rw [hoffset] <;> rfl

end Matching

/-! ## Configuring a hardware counter -/

/-- The hart whose counter at the offset has the value. -/
def Hart.setValue (hart : Hart xlen) (offset : Nat) (value : BitVec 64) : Hart xlen :=
  { hart with csrs := { hart.csrs with
    mhpmcounter := Function.update hart.csrs.mhpmcounter offset value } }

theorem setValue_eq_self_iff {offset : Nat} {value : BitVec 64} :
    hart.setValue offset value = hart ↔ hart.csrs.mhpmcounter offset = value := by
  constructor
  · intro h
    have hvalue := congrArg (fun hart' => hart'.csrs.mhpmcounter offset) h
    simp only [Hart.setValue, Function.update_self] at hvalue
    exact hvalue.symm
  · rintro rfl
    rw [Hart.setValue, Function.update_eq_self]

section Configuring

variable {counterIdx offset : Nat}

theorem ensures_startHardwareCounter_error
    (hoffset : getMhpmCsrOffset features counterIdx = some offset) (value : BitVec 64) :
    Ensures (startHardwareCounter features offset value false) hart fun result hart' =>
      ((∃ e, result = .error e) ↔ IsTime features counterIdx ∨
        features.privilegedVersion.hasCountinhibit = true ∧
          hart.running features counterIdx = true) ∧
      ((∃ e, result = .error e) → hart' = hart) := by
  have hsame : Ensures (startHardwareCounter features offset value false) hart fun result hart' =>
      (∃ e, result = .error e) → hart' = hart := by
    unfold startHardwareCounter
    cases hcounter : HardwareCounter.tryFromOffset offset with
    | none => exact ensures_pure.mpr fun _ => rfl
    | some counter =>
      simp only [ensures_ite, ensures_bind, ensures_get, ensures_pure, Bool.false_eq_true, if_false]
      split
      · rintro ⟨_, ⟨⟩⟩
      · refine (ensures_inhibitMask hcounter).mono ?_
        rintro mask hart₁ ⟨rfl, rfl⟩
        split
        · exact fun _ => rfl
        · rw [writeMcountinhibit, ensures_modify]
          rintro ⟨_, ⟨⟩⟩
  refine ((ensures_startHardwareCounter_visits hoffset value false).and hsame).mono ?_
  rintro result hart' ⟨⟨-, hvisits⟩, hsame⟩
  refine ⟨?_, hsame⟩
  have hrefuses : (startVisit features value false).refuses counterIdx
      (hart.counter features counterIdx) = startError result := congrArg Prod.fst hvisits
  have herror : (∃ e, result = .error e) ↔ startError result ≠ none := by
    cases result with
    | ok _ => simp [startError]
    | error e => cases e <;> simp [startError]
  rw [herror, ← hrefuses]
  by_cases htime : IsTime features counterIdx <;>
    simp [startVisit, htime, hasRunState_of_offset hoffset, Hart.running]

/-- The error of a configuration comes after the value has been cleared, which is all that has
changed. -/
theorem ensures_configureCounter_error {eventIdx : Nat}
    (hevent : EventIdx.isFirmwareEvent ⟨eventIdx⟩ = false)
    (hoffset : getMhpmCsrOffset features counterIdx = some offset) (config : ConfigFlags) :
    Ensures (configureCounter features counterIdx ⟨eventIdx⟩ config) hart fun result hart' =>
      ((∃ e, result = .error e) ↔ config.autoStart = true ∧ (IsTime features counterIdx ∨
        features.privilegedVersion.hasCountinhibit = true ∧
          hart.running features counterIdx = true)) ∧
      ∀ e, result = .error e → e = .notSupported ∧ hart' =
        if config.clearValue = true ∧ ¬ IsTime features counterIdx then hart.setValue offset 0
        else hart := by
  have hlt := lt_of_getMhpmCsrOffset hoffset
  simp only [configureCounter, hevent, Bool.false_eq_true, if_false, ensures_bind, ensures_unwrap]
  intro own hown
  obtain rfl : own = offset := Option.some.inj (hown.symm.trans hoffset)
  refine Ensures.mono (Q := fun _ hart₁ => hart₁ = if config.clearValue = true ∧
    ¬ IsTime features counterIdx then hart.setValue own 0 else hart) ?_ ?_
  · rw [ensures_ite]
    by_cases htime : IsTime features counterIdx
    · obtain rfl : own = 1 := (isTime_iff hoffset).mp htime
      simp [writeMhpmcounter, htime]
    · rw [writeMhpmcounter_eq hlt fun h => htime ((isTime_iff hoffset).mpr h)]
      split
      next hclear =>
        rw [ensures_modify, if_pos ⟨hclear, htime⟩]
        rfl
      next hclear => exact ensures_pure.mpr (if_neg fun h => hclear h.1).symm
  · rintro _ hart₁ rfl
    generalize hcleared : (if config.clearValue = true ∧ ¬ IsTime features counterIdx then
      hart.setValue own 0 else hart) = hart₁
    have hrunning : hart₁.running features counterIdx = hart.running features counterIdx := by
      rw [← hcleared, Hart.running, Hart.running, counter_of_offset hoffset, counter_of_offset hoffset]
      split <;> rfl
    rw [ensures_ite]
    split
    next hstart =>
      rw [ensures_bind]
      refine (ensures_startHardwareCounter_error hoffset 0).mono ?_
      rintro result hart' ⟨herror, hsame⟩
      rw [hrunning] at herror
      cases result with
      | error e =>
        rw [ensures_pure]
        refine ⟨⟨fun _ => ⟨hstart, herror.mp ⟨e, rfl⟩⟩, fun _ => ⟨_, rfl⟩⟩, ?_⟩
        rintro _ ⟨⟩
        exact ⟨rfl, hsame ⟨e, rfl⟩⟩
      | ok _ =>
        rw [ensures_pure]
        refine ⟨⟨by rintro ⟨_, ⟨⟩⟩, fun h => ?_⟩, by rintro _ ⟨⟩⟩
        obtain ⟨e, he⟩ := herror.mpr h.2
        cases he
    next hstart =>
      exact ensures_pure.mpr ⟨⟨by rintro ⟨_, ⟨⟩⟩, fun h => absurd h.1 hstart⟩, by rintro _ ⟨⟩⟩

end Configuring

/-! ## Failing after a write -/

/-- The configuration comes to an automatic start that fails, and has written before: it names a
running hardware counter with `SKIP_MATCH`, or takes a running fixed counter as no selected counter
is available, and the value is cleared or the event is new. -/
structure Clobbers (features : HartFeatures) (sbiPmu : SbiPmu) (hart : Hart xlen) (base : Nat)
    (mask : BitVec xlen.bits) (flags eventIdx : Nat) (eventData : BitVec 64) (config : ConfigFlags)
    (counterIdx offset : Nat) : Prop where
  accepted : ConfigFlags.fromBits flags = some config
  autoStart : config.autoStart = true
  counters : CounterSetValid hart.pmu base mask
  eventType : EventIdx.checkEventType ⟨eventIdx⟩ = true
  hardware : EventIdx.isFirmwareEvent ⟨eventIdx⟩ = false
  selected : Selects base mask counterIdx
  register : getMhpmCsrOffset features counterIdx = some offset
  notTime : ¬ IsTime features counterIdx
  inhibit : features.privilegedVersion.hasCountinhibit = true
  running : hart.running features counterIdx = true
  skip : config.skipMatch = true → ¬ Unconfigured hart.pmu counterIdx ∧
    ∀ other, Selects base mask other → counterIdx ≤ other
  fixed : config.skipMatch = false → FixedFor features eventIdx counterIdx ∧
    ∀ other, Selects base mask other → ¬ Available features sbiPmu hart eventIdx eventData other
  writes : config.clearValue = true ∧ hart.csrs.mhpmcounter offset ≠ 0 ∨
    config.skipMatch = false ∧ hart.pmu.activeEvent[counterIdx]? ≠ some eventIdx

section Failing

variable {base : Nat} {mask : BitVec xlen.bits} {flags eventIdx : Nat} {eventData : BitVec 64}

/-- Some counter makes the configuration fail after a write. -/
def FailsAfterWrite (features : HartFeatures) (sbiPmu : SbiPmu) (hart : Hart xlen) (base : Nat)
    (mask : BitVec xlen.bits) (flags eventIdx : Nat) (eventData : BitVec 64) : Prop :=
  ∃ config counterIdx offset,
    Clobbers features sbiPmu hart base mask flags eventIdx eventData config counterIdx offset

/-- The call has returned an error with the hart changed. -/
def HasClobbered (hart : Hart xlen) (ret : SbiRet) (hart' : Hart xlen) : Prop :=
  (∀ value, ret ≠ .success value) ∧ hart' ≠ hart

/-- What is left of a configuration once its counter is known. -/
def configured (features : HartFeatures) (counterIdx : Nat) (event : EventIdx)
    (config : ConfigFlags) : PmuM xlen SbiRet := do
  match ← configureCounter features counterIdx event config with
  | .error e => return e
  | .ok _ => return .success counterIdx

/-- A hardware counter is configured without an error, or its start fails after what was written
before and the clearing of its value. -/
theorem ensures_configured (hart : Hart xlen) {counterIdx : Nat} {hart₁ : Hart xlen}
    {config : ConfigFlags}
    (hevent : EventIdx.isFirmwareEvent ⟨eventIdx⟩ = false) :
    Ensures (configured features counterIdx ⟨eventIdx⟩ config) hart₁ fun ret hart' =>
      (HasClobbered hart ret hart' ↔ ∃ offset, getMhpmCsrOffset features counterIdx = some offset ∧
        config.autoStart = true ∧ (IsTime features counterIdx ∨
          features.privilegedVersion.hasCountinhibit = true ∧
            hart₁.running features counterIdx = true) ∧
        (if config.clearValue = true ∧ ¬ IsTime features counterIdx then hart₁.setValue offset 0
          else hart₁) ≠ hart) := by
  rw [configured, ensures_bind]
  cases hoffset : getMhpmCsrOffset features counterIdx with
  | none =>
    simp only [configureCounter, hevent, Bool.false_eq_true, if_false, ensures_bind, ensures_unwrap,
      hoffset]
    rintro _ ⟨⟩
  | some offset =>
    refine (ensures_configureCounter_error hevent hoffset config).mono ?_
    rintro result hart' ⟨herror, hleft⟩
    cases result with
    | error e =>
      obtain ⟨rfl, rfl⟩ := hleft e rfl
      obtain ⟨hstart, hfails⟩ := herror.mp ⟨_, rfl⟩
      refine ensures_pure.mpr ⟨fun h => ⟨offset, rfl, hstart, hfails, h.2⟩, ?_⟩
      rintro ⟨_, ⟨⟩, -, -, hchanged⟩
      exact ⟨by rintro _ ⟨⟩, hchanged⟩
    | ok _ =>
      refine ensures_pure.mpr ⟨fun h => absurd rfl (h.1 counterIdx), ?_⟩
      rintro ⟨_, ⟨⟩, hstart, hfails, -⟩
      obtain ⟨e, he⟩ := herror.mpr ⟨hstart, hfails⟩
      cases he

/-- A firmware counter is configured without an error. -/
theorem ensures_configured_firmware {counterIdx : Nat} {hart₁ : Hart xlen} {config : ConfigFlags}
    (hpmu : WellNumbered features hart₁.pmu)
    (hevent : EventIdx.isFirmwareEvent ⟨eventIdx⟩ = true)
    (hlt : counterIdx < hart₁.pmu.totalCountersNum) :
    Ensures (configured features counterIdx ⟨eventIdx⟩ config) hart₁ fun ret _ =>
      ∃ value, ret = .success value := by
  have htotal := hpmu.total
  have hconfigured : Ensures (configureCounter features counterIdx ⟨eventIdx⟩ config) hart₁
      fun result _ => result = .ok ⟨⟩ := by
    simp only [configureCounter, hevent, if_true, setPmu, ensures_ite, ensures_bind, ensures_pure,
      ensures_get, ensures_checkedSub, ensures_shiftLeft, ensures_writeAt, ensures_modify,
      ensures_map, implies_true, ite_self]
    intro _
    rw [if_neg (by omega)]
    trivial
  rw [configured, ensures_bind]
  refine hconfigured.mono ?_
  rintro _ hart₂ rfl
  exact ensures_pure.mpr ⟨counterIdx, rfl⟩

theorem ensures_firmware (hpmu : WellNumbered features hart.pmu) {config : ConfigFlags}
    (hevent : EventIdx.isFirmwareEvent ⟨eventIdx⟩ = true)
    (hset : CounterSetValid hart.pmu base mask) :
    Ensures (do
      match ← matchCounter features sbiPmu ⟨base, mask⟩ config.skipMatch eventIdx eventData with
      | .error e => return e
      | .ok counterIdx => configured features counterIdx ⟨eventIdx⟩ config) hart
        fun ret hart' => ¬ HasClobbered hart ret hart' := by
  have hmatch : Ensures (matchCounter features sbiPmu ⟨base, mask⟩ config.skipMatch eventIdx
      eventData) hart fun result hart₁ => match result with
        | .error _ => hart₁ = hart
        | .ok counterIdx => WellNumbered features hart₁.pmu ∧
            counterIdx < hart₁.pmu.totalCountersNum := by
    cases config.skipMatch with
    | true =>
      refine ((returns_matchCounter_skip hpmu hset eventIdx eventData).mpr ?_).ensures
      split
      · rfl
      · exact ⟨hpmu, hset.2.2 _ (BitVec.getLsbD_true_ctz_of_ne_zero hset.2.1)⟩
    | false =>
      simp only [matchCounter, ensures_bind, ensures_get, Bool.false_eq_true, if_false, hevent,
        if_true]
      have hfinds : Ensures (findFirmwareCounter hart.pmu ⟨base, mask⟩ eventIdx) hart
          fun result hart₁ => hart₁ = hart ∧ ∀ counterIdx, result = .ok counterIdx →
            counterIdx < hart.pmu.totalCountersNum := by
        rw [findFirmwareCounter, ensures_ite]
        split
        · exact ensures_pure.mpr ⟨rfl, by rintro _ ⟨⟩⟩
        · refine (ensures_findFirmwareCounterLoop hpmu _).mono fun result hart₁ h => ⟨h.1, ?_⟩
          rintro counterIdx rfl
          obtain ⟨-, j, hj, rfl, -⟩ := h.2
          rw [hpmu.total]
          omega
      refine hfinds.mono ?_
      rintro result hart₁ ⟨rfl, hlt⟩
      cases result with
      | error e => exact ensures_pure.mpr rfl
      | ok counterIdx =>
        simp only [setPmu, ensures_bind, ensures_writeAt, ensures_modify, ensures_pure]
        intro _
        exact ⟨⟨hpmu.hardware, hpmu.total⟩, hlt counterIdx rfl⟩
  rw [ensures_bind]
  refine hmatch.mono fun result hart₁ h => ?_
  cases result with
  | error e =>
    rw [ensures_pure, h]
    exact fun hclobbered => hclobbered.2 rfl
  | ok counterIdx =>
    refine (ensures_configured_firmware h.1 hevent h.2).mono ?_
    rintro _ hart' ⟨value, rfl⟩ hclobbered
    exact hclobbered.1 value rfl

theorem selects_first (base : Nat) (hmask : mask ≠ 0#(xlen.bits)) :
    Selects base mask (mask.ctz.toNat + base) ∧
      ∀ other, Selects base mask other → mask.ctz.toNat + base ≤ other := by
  refine ⟨⟨_, BitVec.getLsbD_true_ctz_of_ne_zero hmask, rfl⟩, ?_⟩
  rintro other ⟨i, hbit, rfl⟩
  by_contra hlt
  rw [BitVec.getLsbD_false_of_lt_ctz (by omega)] at hbit
  cases hbit

/-- With `SKIP_MATCH` nothing is written before the value is cleared. -/
theorem ensures_skip (hpmu : WellNumbered features hart.pmu) {config : ConfigFlags}
    (hset : CounterSetValid hart.pmu base mask)
    (hflags : ConfigFlags.fromBits flags = some config) (hskip : config.skipMatch = true)
    (htype : EventIdx.checkEventType ⟨eventIdx⟩ = true)
    (hevent : EventIdx.isFirmwareEvent ⟨eventIdx⟩ = false) :
    Ensures (do
      match ← matchCounter features sbiPmu ⟨base, mask⟩ true eventIdx eventData with
      | .error e => return e
      | .ok counterIdx => configured features counterIdx ⟨eventIdx⟩ config) hart
        fun ret hart' => HasClobbered hart ret hart' ↔
          FailsAfterWrite features sbiPmu hart base mask flags eventIdx eventData := by
  obtain ⟨hfirst, hleast⟩ := selects_first base hset.2.1
  generalize hcounter : mask.ctz.toNat + base = counterIdx at hfirst hleast
  have honly : FailsAfterWrite features sbiPmu hart base mask flags eventIdx eventData ↔
      ¬ Unconfigured hart.pmu counterIdx ∧ ∃ offset,
        getMhpmCsrOffset features counterIdx = some offset ∧ config.autoStart = true ∧
        (IsTime features counterIdx ∨ features.privilegedVersion.hasCountinhibit = true ∧
          hart.running features counterIdx = true) ∧
        (if config.clearValue = true ∧ ¬ IsTime features counterIdx then hart.setValue offset 0
          else hart) ≠ hart := by
    constructor
    · rintro ⟨config', found, offset, h⟩
      obtain rfl : config' = config := Option.some.inj (h.accepted.symm.trans hflags)
      obtain ⟨hmapped, hfound⟩ := h.skip hskip
      obtain rfl : found = counterIdx :=
        Nat.le_antisymm (hfound counterIdx hfirst) (hleast found h.selected)
      have hclear : config'.clearValue = true ∧ hart.csrs.mhpmcounter offset ≠ 0 := by
        refine h.writes.resolve_right ?_
        rw [hskip]
        exact nofun
      refine ⟨hmapped, offset, h.register, h.autoStart, .inr ⟨h.inhibit, h.running⟩, ?_⟩
      rw [if_pos ⟨hclear.1, h.notTime⟩, ne_eq, setValue_eq_self_iff]
      exact hclear.2
    · rintro ⟨hmapped, offset, hoffset, hstart, hfails, hchanged⟩
      have hclear : config.clearValue = true ∧ ¬ IsTime features counterIdx := by
        by_contra hnot
        exact hchanged (if_neg hnot)
      rw [if_pos hclear, ne_eq, setValue_eq_self_iff] at hchanged
      obtain ⟨hinhibit, hrunning⟩ := hfails.resolve_left hclear.2
      exact ⟨config, counterIdx, offset, hflags, hstart, hset, htype, hevent, hfirst, hoffset,
        hclear.2, hinhibit, hrunning, fun _ => ⟨hmapped, hleast⟩,
        fun h => absurd (h.symm.trans hskip) Bool.false_ne_true, .inl ⟨hclear.1, hchanged⟩⟩
  have hmatch : Ensures (matchCounter features sbiPmu ⟨base, mask⟩ true eventIdx eventData) hart
      fun result hart₁ => hart₁ = hart ∧
        (Unconfigured hart.pmu counterIdx ∧ result = .error .invalidParam ∨
          ¬ Unconfigured hart.pmu counterIdx ∧ result = .ok counterIdx) := by
    refine ((returns_matchCounter_skip hpmu hset eventIdx eventData).mpr ?_).ensures
    rw [hcounter]
    split
    next hfree => exact ⟨rfl, .inl ⟨hfree, rfl⟩⟩
    next hmapped => exact ⟨rfl, .inr ⟨hmapped, rfl⟩⟩
  rw [honly, ensures_bind]
  refine hmatch.mono ?_
  rintro result hart₁ ⟨rfl, ⟨hfree, rfl⟩ | ⟨hmapped, rfl⟩⟩
  · exact ensures_pure.mpr (iff_of_false (fun h => h.2 rfl) fun h => h.1 hfree)
  · refine (ensures_configured hart₁ hevent).mono fun ret hart' h => ?_
    rw [h]
    exact (and_iff_right hmapped).symm

/-- No selected counter is available, and the counter is the fixed one of the event. -/
def TakesFixed (features : HartFeatures) (sbiPmu : SbiPmu) (hart : Hart xlen) (base : Nat)
    (mask : BitVec xlen.bits) (eventIdx : Nat) (eventData : BitVec 64) (counterIdx : Nat) : Prop :=
  Selects base mask counterIdx ∧ FixedFor features eventIdx counterIdx ∧
    ∀ other, Selects base mask other → ¬ Available features sbiPmu hart eventIdx eventData other

/-- The counter that is matched is stopped, or is the fixed counter, whose event alone is new. -/
theorem ensures_matchCounter_hardware (hpmu : WellNumbered features hart.pmu)
    (hevent : EventIdx.isFirmwareEvent ⟨eventIdx⟩ = false) :
    Ensures (matchCounter features sbiPmu ⟨base, mask⟩ false eventIdx eventData) hart
      fun result hart₁ => match result with
        | .error _ => hart₁ = hart ∧
            ∀ counterIdx, ¬ TakesFixed features sbiPmu hart base mask eventIdx eventData counterIdx
        | .ok counterIdx =>
            (Available features sbiPmu hart eventIdx eventData counterIdx ∧
              Selects base mask counterIdx ∧ ¬ IsTime features counterIdx ∧
              hart₁.csrs.mcountinhibit = hart.csrs.mcountinhibit) ∨
            (TakesFixed features sbiPmu hart base mask eventIdx eventData counterIdx ∧
              ∃ hlt, hart₁ = { hart with pmu := hart.pmu.setEvent counterIdx eventIdx hlt }) := by
  simp only [matchCounter, ensures_bind, ensures_get, Bool.false_eq_true, if_false, hevent]
  refine (ensures_findHardwareCounter_ends hpmu ⟨base, mask⟩).mono fun result hart₁ h => ?_
  cases result with
  | error e =>
    refine ensures_pure.mpr ⟨h.1, fun counterIdx htakes => ?_⟩
    obtain ⟨hmem, hfixed, hnone⟩ := htakes
    rcases h.2 with ⟨other, hother, havailable⟩ | hnot
    · exact hnone other (selects_of_mem hother) havailable
    · rw [hfixed.fixedCounter hmem.mem] at hnot
      exact hnot counterIdx rfl
  | ok counterIdx =>
    simp only [setPmu, ensures_bind, ensures_writeAt, ensures_modify, ensures_pure]
    intro hlt
    rcases h with ⟨havailable, hmem, htime, -, hinhibit⟩ | ⟨hfound, rfl, hnone⟩
    · exact .inl ⟨havailable, selects_of_mem hmem, htime, hinhibit⟩
    · have hcounter : fixedCounter features ⟨base, mask⟩ eventIdx = some counterIdx := by
        cases hfixed : fixedCounter features ⟨base, mask⟩ eventIdx with
        | none =>
          rw [hfixed] at hfound
          cases hfound
        | some found =>
          rw [hfixed] at hfound
          rw [Except.ok.inj hfound]
      obtain ⟨hmem, hfixed⟩ := fixedFor_of_fixedCounter hcounter
      exact .inr ⟨⟨selects_of_mem hmem, hfixed,
        fun other hother => hnone other hother.mem⟩, hlt, rfl⟩

theorem setEvent_eq_self_iff {pmu : PmuState xlen} {counterIdx : Nat}
    (hlt : counterIdx < hardwareCounterMax + firmwareCounterMax) :
    pmu.setEvent counterIdx eventIdx hlt = pmu ↔ pmu.activeEvent[counterIdx]? = some eventIdx := by
  constructor
  · intro h
    have hevent := congrArg (fun pmu' => pmu'.activeEvent[counterIdx]?) h
    simp only [PmuState.setEvent, getElem?_set_if, if_true] at hevent
    exact hevent.symm
  · intro h
    rw [Vector.getElem?_eq_getElem hlt, Option.some_inj] at h
    rw [PmuState.setEvent, ← h, Vector.set_getElem_self]

/-- Putting an event on a counter and clearing its value leaves the hart as it was when both were
so already. -/
theorem setEvent_setValue_ne_iff {counterIdx offset : Nat}
    (hlt : counterIdx < hardwareCounterMax + firmwareCounterMax) (clear : Prop) [Decidable clear] :
    let hart₁ : Hart xlen := { hart with pmu := hart.pmu.setEvent counterIdx eventIdx hlt }
    (if clear then hart₁.setValue offset 0 else hart₁) ≠ hart ↔
      clear ∧ hart.csrs.mhpmcounter offset ≠ 0 ∨
        hart.pmu.activeEvent[counterIdx]? ≠ some eventIdx := by
  intro hart₁
  rw [ne_eq (hart.pmu.activeEvent[counterIdx]?), ← setEvent_eq_self_iff hlt]
  by_cases hevent : hart.pmu.setEvent counterIdx eventIdx hlt = hart.pmu
  · have hsame : hart₁ = hart := by
      simp only [hart₁, hevent]
    rw [hsame]
    by_cases hclear : clear
    · rw [if_pos hclear, ne_eq, setValue_eq_self_iff]
      simp [hclear, hevent]
    · simp [hclear, hevent]
  · refine iff_of_true (fun h => hevent ?_) (.inr hevent)
    have hpmu := congrArg Hart.pmu h
    split at hpmu
    · exact hpmu
    · exact hpmu

theorem ensures_search_clobbers (hpmu : WellNumbered features hart.pmu) {config : ConfigFlags}
    (hset : CounterSetValid hart.pmu base mask)
    (hflags : ConfigFlags.fromBits flags = some config) (hskip : config.skipMatch = false)
    (htype : EventIdx.checkEventType ⟨eventIdx⟩ = true)
    (hevent : EventIdx.isFirmwareEvent ⟨eventIdx⟩ = false) :
    Ensures (do
      match ← matchCounter features sbiPmu ⟨base, mask⟩ false eventIdx eventData with
      | .error e => return e
      | .ok counterIdx => configured features counterIdx ⟨eventIdx⟩ config) hart
        fun ret hart' => HasClobbered hart ret hart' ↔
          FailsAfterWrite features sbiPmu hart base mask flags eventIdx eventData := by
  have htakes : FailsAfterWrite features sbiPmu hart base mask flags eventIdx eventData →
      ∃ counterIdx, TakesFixed features sbiPmu hart base mask eventIdx eventData counterIdx := by
    rintro ⟨config', counterIdx, offset, h⟩
    obtain rfl : config' = config := Option.some.inj (h.accepted.symm.trans hflags)
    exact ⟨counterIdx, h.selected, h.fixed hskip⟩
  rw [ensures_bind]
  refine (ensures_matchCounter_hardware hpmu hevent).mono fun result hart₁ h => ?_
  cases result with
  | error e =>
    obtain ⟨rfl, hnone⟩ := h
    refine ensures_pure.mpr (iff_of_false (fun h => h.2 rfl) fun hfails => ?_)
    obtain ⟨counterIdx, htaken⟩ := htakes hfails
    exact hnone counterIdx htaken
  | ok counterIdx =>
    refine (ensures_configured hart hevent).mono fun ret hart' hconfigured => ?_
    rw [hconfigured]
    rcases h with ⟨havailable, hmem, htime, hinhibit⟩ | ⟨htaken, hlt, rfl⟩
    · refine iff_of_false ?_ fun hfails => ?_
      · rintro ⟨offset, hoffset, -, hfails, -⟩
        obtain ⟨hversion, hrunning⟩ := hfails.resolve_left htime
        have hstopped := havailable.stopped hversion
        rw [Hart.running, counter_of_offset hoffset] at hrunning hstopped
        rw [hinhibit] at hrunning
        exact Bool.false_ne_true (hstopped.symm.trans hrunning)
      · obtain ⟨_, -, -, hnone⟩ := htakes hfails
        exact hnone counterIdx hmem havailable
    · have htime : ¬ IsTime features counterIdx := by
        rcases htaken.2.1 with ⟨-, hoffset⟩ | ⟨-, hoffset⟩
        · rw [isTime_iff hoffset]
          decide
        · rw [isTime_iff hoffset]
          decide
      have hchanged := fun offset => @setEvent_setValue_ne_iff _ hart eventIdx counterIdx offset hlt
        (config.clearValue = true ∧ ¬ IsTime features counterIdx) _
      constructor
      · rintro ⟨offset, hoffset, hstart, hfails, hne⟩
        obtain ⟨hinhibit, hrunning⟩ := hfails.resolve_left htime
        rw [Hart.running, counter_of_offset hoffset] at hrunning
        refine ⟨config, counterIdx, offset, hflags, hstart, hset, htype, hevent, htaken.1, hoffset,
          htime, hinhibit, ?_, fun h => absurd (hskip.symm.trans h) Bool.false_ne_true,
          fun _ => htaken.2, ?_⟩
        · rw [Hart.running, counter_of_offset hoffset]
          exact hrunning
        · refine ((hchanged offset).mp hne).imp (fun h => ⟨h.1.1, h.2⟩) fun h => ⟨hskip, h⟩
      · rintro ⟨config', found, offset, h⟩
        obtain rfl : config' = config := Option.some.inj (h.accepted.symm.trans hflags)
        obtain rfl : found = counterIdx := htaken.2.1.unique (h.fixed hskip).1
        have hrunning := h.running
        rw [Hart.running, counter_of_offset h.register] at hrunning
        refine ⟨offset, h.register, h.autoStart, .inr ⟨h.inhibit, ?_⟩, (hchanged offset).mpr ?_⟩
        · rw [Hart.running, counter_of_offset h.register]
          exact hrunning
        · exact h.writes.imp (fun hclear => ⟨⟨hclear.1, htime⟩, hclear.2⟩) fun hnew => hnew.2

theorem ensures_counterConfigMatching_clobbers (hpmu : WellNumbered features hart.pmu) :
    Ensures (counterConfigMatching features sbiPmu base mask flags eventIdx eventData) hart
      fun ret hart' => HasClobbered hart ret hart' ↔
        FailsAfterWrite features sbiPmu hart base mask flags eventIdx eventData := by
  have hrejected : ∀ ret, ¬ FailsAfterWrite features sbiPmu hart base mask flags eventIdx eventData →
      (HasClobbered hart ret hart ↔
        FailsAfterWrite features sbiPmu hart base mask flags eventIdx eventData) :=
    fun ret hnot => iff_of_false (fun h => h.2 rfl) hnot
  unfold counterConfigMatching
  cases hflags : ConfigFlags.fromBits flags with
  | none =>
    refine ensures_pure.mpr (hrejected _ ?_)
    rintro ⟨config, counterIdx, offset, h⟩
    rw [h.accepted] at hflags
    cases hflags
  | some config =>
    rw [ensures_bind, ensures_get, ensures_bind]
    by_cases hset : CounterSetValid hart.pmu base mask
    · rw [counterSetInvalid_of_valid hpmu hset, ensures_pure, if_neg Bool.false_ne_true, ensures_ite]
      split
      next hinvalid =>
        refine ensures_pure.mpr (hrejected _ ?_)
        rintro ⟨config, counterIdx, offset, h⟩
        have htype := h.eventType
        have hhardware := h.hardware
        rcases hinvalid with hfalse | ⟨htrue, -⟩
        · exact Bool.false_ne_true (hfalse.symm.trans htype)
        · exact Bool.false_ne_true (hhardware.symm.trans htrue)
      next hvalid =>
        have htype : EventIdx.checkEventType ⟨eventIdx⟩ = true := by
          by_contra h
          exact hvalid (.inl (Bool.eq_false_of_not_eq_true h))
        cases hevent : EventIdx.isFirmwareEvent ⟨eventIdx⟩ with
        | true =>
          refine (ensures_firmware hpmu hevent hset).mono fun ret hart' hnot => ?_
          refine iff_of_false hnot ?_
          rintro ⟨config, counterIdx, offset, h⟩
          exact Bool.false_ne_true (h.hardware.symm.trans hevent)
        | false =>
          cases hskip : config.skipMatch with
          | true => exact ensures_skip hpmu hset hflags hskip htype hevent
          | false => exact ensures_search_clobbers hpmu hset hflags hskip htype hevent
    · rw [counterSetInvalid_of_not_valid hpmu hset, ensures_pure, if_pos rfl, ensures_pure]
      refine hrejected _ ?_
      rintro ⟨config, counterIdx, offset, h⟩
      exact hset h.counters

end Failing

/-- A configuration that fails after a write does return. -/
theorem Clobbers.not_reusesOtherKind {base mask flags eventIdx : BitVec xlen.bits}
    {eventData : BitVec 64} {config : ConfigFlags} {counterIdx offset : Nat}
    (hpmu : WellNumbered features hart.pmu)
    (h : Clobbers features sbiPmu hart base.toNat mask flags.toNat eventIdx.toNat eventData config
      counterIdx offset) :
    ¬ ReusesOtherKind hart.pmu (.counterConfigMatching base mask flags eventIdx eventData) := by
  rintro ⟨⟨-, hbit⟩, hset, -, -, hkind⟩
  have hskip : config.skipMatch = true := by
    have haccepted := h.accepted
    unfold ConfigFlags.fromBits at haccepted
    split at haccepted <;> cases haccepted
    exact hbit
  obtain ⟨hfirst, hleast⟩ := selects_first base.toNat hset.2.1
  have hcounter : mask.ctz.toNat + base.toNat = counterIdx :=
    Nat.le_antisymm (hleast counterIdx h.selected) ((h.skip hskip).2 _ hfirst)
  rw [hcounter] at hkind
  have hlt := lt_hwCountersNum hpmu h.register
  exact hkind (iff_of_false (by rw [h.hardware]; exact Bool.false_ne_true) (not_le.mpr hlt))

/-- In every reachable state, a configuration that returns an error has left the hart as it was,
unless it is one that fails after a write. -/
theorem failed_configuration_iff (hreach : Reachable features sbiPmu hart)
    (base mask flags eventIdx : BitVec xlen.bits) (eventData : BitVec 64) :
    (∀ ret hart', (Call.counterConfigMatching base mask flags eventIdx eventData).handle features
        sbiPmu hart = .ok (ret, hart') → (∀ value, ret ≠ .success value) → hart' = hart) ↔
      ¬ FailsAfterWrite features sbiPmu hart base.toNat mask flags.toNat eventIdx.toNat eventData := by
  have hclobbers := @ensures_counterConfigMatching_clobbers _ features sbiPmu hart base.toNat mask
    flags.toNat eventIdx.toNat eventData hreach.wellNumbered
  constructor
  · rintro hunchanged ⟨config, counterIdx, offset, h⟩
    obtain ⟨ret, hart', hrun, -⟩ := (returns_counterConfigMatching_iff (fun _ _ _ => trivial)
      hreach.wellNumbered base mask flags eventIdx eventData).mpr (h.not_reusesOtherKind hreach.wellNumbered)
    obtain ⟨herror, hchanged⟩ := (hclobbers ret hart' hrun).mpr ⟨config, counterIdx, offset, h⟩
    exact hchanged (hunchanged ret hart' hrun herror)
  · intro hnot ret hart' hrun herror
    by_contra hchanged
    exact hnot ((hclobbers ret hart' hrun).mp ⟨herror, hchanged⟩)

/-- An automatic start for the cycle event on a hart at boot that is counting is not supported, and
changes nothing. -/
theorem failed_configuration_iff_boot :
    let features : HartFeatures := ⟨.version1_12, 15⟩
    let sbiPmu : SbiPmu := ⟨none, none, none⟩
    let hart : Hart .rv64 := boot features ⟨0, fun _ => 0, fun _ => 7⟩
    (Call.counterConfigMatching 0 1 4 1 0).handle features sbiPmu hart =
      .ok (.notSupported, hart) := by
  intro features sbiPmu hart
  have hboot : Reachable features sbiPmu hart := ⟨⟨0, fun _ => 0, fun _ => 7⟩, [], [], rfl⟩
  have hkept : ¬ FailsAfterWrite features sbiPmu hart 0 1#64 4 1 0 := by
    rintro ⟨config, counterIdx, offset, h⟩
    obtain rfl : (⟨false, false, true⟩ : ConfigFlags) = config := Option.some.inj h.accepted
    obtain ⟨i, hi, rfl⟩ := h.selected
    have hbits : ∀ i < 64, (1#64).getLsbD i = true → i = 0 := by decide
    obtain rfl := hbits i (BitVec.lt_of_getLsbD hi) hi
    -- the value stays, and the counter has the cycle event from the boot on
    rcases h.writes with ⟨hclear, -⟩ | ⟨-, hnew⟩
    · exact absurd hclear Bool.false_ne_true
    · exact hnew rfl
  have hcall : ((Call.counterConfigMatching 0 1 4 1 0).handle features sbiPmu hart).map Prod.fst =
      .ok .notSupported := by decide +kernel
  cases hrun : (Call.counterConfigMatching 0 1 4 1 0).handle features sbiPmu hart with
  | error e =>
    rw [hrun] at hcall
    cases hcall
  | ok r =>
    obtain ⟨ret, hart'⟩ := r
    rw [hrun] at hcall
    obtain rfl : ret = .notSupported := Except.ok.inj hcall
    rw [(failed_configuration_iff hboot 0 1 4 1 0).mpr hkept _ hart' hrun nofun]

/-- With `CLEAR_VALUE` and `AUTO_START` the value of the running cycle counter is lost, and the
call is not supported. -/
theorem failed_configuration_clears :
    let features : HartFeatures := ⟨.version1_12, 15⟩
    let sbiPmu : SbiPmu := ⟨none, none, none⟩
    let hart : Hart .rv64 := boot features ⟨0, fun _ => 0, fun _ => 7⟩
    Reachable features sbiPmu hart ∧
      ¬ ∀ ret hart', (Call.counterConfigMatching 0 1 6 1 0).handle features sbiPmu hart =
        .ok (ret, hart') → (∀ value, ret ≠ .success value) → hart' = hart := by
  intro features sbiPmu hart
  have hcall : ((Call.counterConfigMatching 0 1 6 1 0).handle features sbiPmu hart).map
      (fun r => (r.1, r.2.csrs.mhpmcounter 0)) = .ok (.notSupported, 0) := by decide +kernel
  refine ⟨⟨⟨0, fun _ => 0, fun _ => 7⟩, [], [], rfl⟩, fun hunchanged => ?_⟩
  cases hrun : (Call.counterConfigMatching 0 1 6 1 0).handle features sbiPmu hart with
  | error e =>
    rw [hrun] at hcall
    cases hcall
  | ok r =>
    obtain ⟨ret, hart'⟩ := r
    rw [hrun] at hcall
    obtain ⟨rfl, hvalue⟩ := Prod.mk.inj (Except.ok.inj hcall)
    rw [hunchanged _ hart' hrun nofun] at hvalue
    revert hvalue
    decide

end RustSbi.Pmu
