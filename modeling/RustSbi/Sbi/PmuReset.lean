import RustSbi.Sbi.PmuUniform

/-!
Which counters a stop with `RESET` frees. The stop ends at the first selected counter
that is stopped already; the events of the counters after it stay, and so does its own
when it is a firmware counter.
-/

namespace RustSbi.Pmu

open Bits Checked Sweep

variable {xlen : Xlen} {features : HartFeatures} {sbiPmu : SbiPmu} {hart : Hart xlen}

/-! ## Finding a counter again -/

/-- An event that the counter can count while no event is on it: a valid firmware event on a
firmware counter, and on a stopped hardware counter an event that the maps give to its register
and have a selector for. -/
def Suits (features : HartFeatures) (sbiPmu : SbiPmu) (hart : Hart xlen) (eventIdx : Nat)
    (eventData : BitVec 64) (counterIdx : Nat) : Prop :=
  EventIdx.checkEventType ⟨eventIdx⟩ = true ∧
    if EventIdx.isFirmwareEvent ⟨eventIdx⟩ = true then
      hart.pmu.hwCountersNum ≤ counterIdx ∧ EventIdx.firmwareEventValid ⟨eventIdx⟩ = true
    else ∃ offset, getMhpmCsrOffset features counterIdx = some offset ∧ offset ≠ 1 ∧
      (offset = 0 → eventIdx = 1) ∧ (offset = 2 → eventIdx = 2) ∧
      (3 ≤ offset → ∃ value, mhpmeventVal sbiPmu eventIdx eventData = .ok value) ∧
      PermittedFor features sbiPmu eventIdx eventData counterIdx ∧
      (hasRunState features counterIdx = true → hart.running features counterIdx = false)

/-- No event is on the counter, and a configuration for an event that suits it takes it. -/
structure Freed (features : HartFeatures) (sbiPmu : SbiPmu) (hart : Hart xlen) (counterIdx : Nat) :
    Prop where
  unconfigured : Unconfigured hart.pmu counterIdx
  found : ∀ eventIdx eventData, Suits features sbiPmu hart eventIdx eventData counterIdx →
    Returns (counterConfigMatching features sbiPmu counterIdx 1#(xlen.bits) 0 eventIdx eventData)
      hart fun ret _ => ret = .success counterIdx

theorem CounterMask.toList_one (counterIdx : Nat) :
    CounterMask.toList (⟨counterIdx, 1#(xlen.bits)⟩ : CounterMask xlen) = [counterIdx] := by
  have hone : setBits 1#(xlen.bits) = [0] := by
    cases xlen <;> decide
  rw [CounterMask.toList_eq, hone, List.map_singleton, Nat.zero_add]

theorem counterSetValid_one {pmu : PmuState xlen} {counterIdx : Nat}
    (h : counterIdx < pmu.totalCountersNum) : CounterSetValid pmu counterIdx 1#(xlen.bits) := by
  have hbits := bits_ge xlen
  have hone : 1#(xlen.bits) ≠ 0#(xlen.bits) := by
    cases xlen <;> decide
  refine ⟨h, hone, fun i hi => ?_⟩
  rw [BitVec.getLsbD_one] at hi
  simp only [Bool.and_eq_true, decide_eq_true_eq] at hi
  omega

section Found

variable {counterIdx offset eventIdx : Nat} {eventData : BitVec 64}

theorem getLsbD_mhpmMask (h : getMhpmCsrOffset features counterIdx = some offset) :
    features.mhpmMask.getLsbD offset = true := by
  rw [getMhpmCsrOffset_eq] at h
  exact mem_setBits_iff.mp (List.mem_of_getElem? h)

theorem lt_hwCountersNum (hpmu : WellNumbered features hart.pmu)
    (h : getMhpmCsrOffset features counterIdx = some offset) :
    counterIdx < hart.pmu.hwCountersNum := by
  by_contra hge
  rw [getMhpmCsrOffset_of_firmware hpmu (not_lt.mp hge)] at h
  cases h

/-- A free firmware counter alone is found for every valid firmware event. -/
theorem findFirmwareCounter_one (hpmu : WellNumbered features hart.pmu)
    (hge : hart.pmu.hwCountersNum ≤ counterIdx) (hlt : counterIdx < hart.pmu.totalCountersNum)
    (hvalid : EventIdx.firmwareEventValid ⟨eventIdx⟩ = true)
    (hfree : Unconfigured hart.pmu counterIdx) :
    Returns (findFirmwareCounter hart.pmu ⟨counterIdx, 1#(xlen.bits)⟩ eventIdx) hart
      fun result hart' => result = .ok counterIdx ∧ hart'.pmu = hart.pmu := by
  have hle := hpmu.total_le
  have hevent : counterIdx < hardwareCounterMax + firmwareCounterMax := by omega
  rw [Unconfigured, Vector.getElem?_eq_getElem hevent, Option.some_inj] at hfree
  rw [findFirmwareCounter, if_neg (by rw [hvalid]; rintro ⟨⟩), CounterMask.toList_one,
    findFirmwareCounterLoop, if_neg (by omega), returns_bind, returns_readAt]
  refine ⟨hevent, ?_⟩
  rw [if_neg (not_not.mpr hfree)]
  exact returns_pure.mpr ⟨rfl, rfl⟩

theorem returns_pmuUpdateHardwareMhpmevent_ok (hlt : offset < 32) (htime : offset ≠ 1)
    (hcycle : offset = 0 → eventIdx = 1) (hinstret : offset = 2 → eventIdx = 2)
    (hvalue : 3 ≤ offset → ∃ value, mhpmeventVal sbiPmu eventIdx eventData = .ok value) :
    Returns (pmuUpdateHardwareMhpmevent sbiPmu offset eventIdx eventData) hart
      fun result hart' => result = .ok ⟨⟩ ∧ hart'.pmu = hart.pmu := by
  unfold pmuUpdateHardwareMhpmevent
  by_cases hfixed : (offset = 0 ∧ eventIdx = 1) ∨ (offset = 2 ∧ eventIdx = 2)
  · rw [if_pos hfixed]
    exact returns_pure.mpr ⟨rfl, rfl⟩
  · obtain ⟨value, hvalue⟩ := hvalue (by omega)
    rw [if_neg hfixed, if_neg (by omega), hvalue]
    simp only [returns_bind, returns_pure, true_and]
    exact returns_writeMhpmevent offset value fun _ h => h

theorem counterOccupied_free {mask : BitVec 32} (hlt : offset < 32)
    (hmask : mask.getLsbD offset = true) (hevent : counterIdx < hardwareCounterMax + firmwareCounterMax)
    (hfree : Unconfigured hart.pmu counterIdx) :
    Returns (counterOccupied hart.pmu mask counterIdx offset) hart
      fun occupied hart' => occupied = false ∧ hart' = hart := by
  have husable := (shiftRight_and_one_eq_one_iff (by decide)).mpr hmask
  rw [Unconfigured, Vector.getElem?_eq_getElem hevent, Option.some_inj] at hfree
  simp only [counterOccupied, returns_bind, returns_shiftRight, returns_ite, returns_pure,
    returns_readAt]
  refine ⟨hlt, ?_⟩
  rw [if_neg (by rw [husable]; decide)]
  exact ⟨hevent, by rw [hfree]; exact decide_eq_false (not_not.mpr rfl), trivial⟩

theorem counterCounting_stopped (hoffset : getMhpmCsrOffset features counterIdx = some offset)
    (hstopped : hasRunState features counterIdx = true →
      hart.running features counterIdx = false) :
    Returns (counterCounting features offset) hart
      fun counting hart' => counting = false ∧ hart' = hart := by
  have hlt := lt_of_getMhpmCsrOffset hoffset
  have hbits := bits_ge xlen
  rw [hasRunState_of_offset hoffset, Hart.running, counter_of_offset hoffset] at hstopped
  simp only [counterCounting, returns_bind, returns_shiftLeft, returns_ite, returns_pure,
    returns_get]
  split
  next hinhibit =>
    have hbit : hart.csrs.mcountinhibit.getLsbD offset = true := by
      simpa using hstopped hinhibit
    have hne := (and_oneShift_ne_zero_iff (by omega)).mpr hbit
    exact ⟨by omega, decide_eq_false hne, trivial⟩
  next => exact ⟨trivial, trivial⟩

/-- A free and stopped hardware counter alone is found for every event that suits it. -/
theorem findHardwareCounter_one (hpmu : WellNumbered features hart.pmu)
    (hoffset : getMhpmCsrOffset features counterIdx = some offset) (htime : offset ≠ 1)
    (hcycle : offset = 0 → eventIdx = 1) (hinstret : offset = 2 → eventIdx = 2)
    (hvalue : 3 ≤ offset → ∃ value, mhpmeventVal sbiPmu eventIdx eventData = .ok value)
    (hpermitted : PermittedFor features sbiPmu eventIdx eventData counterIdx)
    (hstopped : hasRunState features counterIdx = true → hart.running features counterIdx = false)
    (hfree : Unconfigured hart.pmu counterIdx) :
    Returns (findHardwareCounter features sbiPmu hart.pmu ⟨counterIdx, 1#(xlen.bits)⟩ eventIdx
      eventData) hart fun result hart' => result = .ok counterIdx ∧ hart'.pmu = hart.pmu := by
  have hlt := lt_of_getMhpmCsrOffset hoffset
  have hhw := lt_hwCountersNum hpmu hoffset
  have hle := hpmu.total_le
  have htotal := hpmu.total
  have hsearch : ∀ (mask : BitVec 32) (fixed : Except SbiRet Nat), mask.getLsbD offset = true →
      Returns (findHardwareCounterLoop features sbiPmu hart.pmu (mask &&& features.mhpmMask) eventIdx
        eventData fixed (CounterMask.toList ⟨counterIdx, 1#(xlen.bits)⟩)) hart fun result hart' =>
          result = .ok counterIdx ∧ hart'.pmu = hart.pmu := by
    intro mask fixed hmask
    have hbit : (mask &&& features.mhpmMask).getLsbD offset = true := by
      rw [BitVec.getLsbD_and, hmask, getLsbD_mhpmMask hoffset, Bool.and_self]
    rw [CounterMask.toList_one, findHardwareCounterLoop, returns_ite, if_neg (by omega),
      returns_bind, returns_unwrap]
    refine ⟨offset, hoffset, ?_⟩
    rw [returns_bind]
    refine (counterOccupied_free hlt hbit (by omega) hfree).mono ?_
    rintro _ hart₁ ⟨rfl, rfl⟩
    rw [if_neg Bool.false_ne_true, if_neg (by omega), returns_bind]
    refine (counterCounting_stopped hoffset hstopped).mono ?_
    rintro _ hart₁ ⟨rfl, rfl⟩
    rw [if_neg Bool.false_ne_true, returns_bind]
    refine (returns_pmuUpdateHardwareMhpmevent_ok hlt htime hcycle hinstret hvalue).mono ?_
    rintro _ hart' ⟨rfl, hpmu'⟩
    exact returns_pure.mpr ⟨rfl, hpmu'⟩
  obtain ⟨own, mask, hown, hrow, hmask⟩ := hpermitted
  obtain rfl : own = offset := Option.some.inj (hown.symm.trans hoffset)
  rw [SbiPmu.countersOf] at hrow
  unfold findHardwareCounter
  by_cases hraw : EventIdx.isRawEvent ⟨eventIdx⟩ = true
  · simp only [if_pos hraw] at hrow ⊢
    cases hmap : sbiPmu.rawEventToMhpmcounter with
    | none => simp [hmap] at hrow
    | some rows =>
      rw [hmap, Option.bind_some, Option.map_eq_some_iff] at hrow
      obtain ⟨row, hfind, rfl⟩ := hrow
      dsimp only
      rw [hfind]
      exact hsearch _ _ hmask
  · simp only [if_neg hraw] at hrow ⊢
    cases hmap : sbiPmu.eventToMhpmcounter with
    | none => simp [hmap] at hrow
    | some rows =>
      rw [hmap, Option.bind_some, Option.map_eq_some_iff] at hrow
      obtain ⟨row, hfind, rfl⟩ := hrow
      dsimp only
      rw [hfind]
      exact hsearch _ _ hmask

/-- A configuration of a free counter alone, for an event that suits it, takes the counter. -/
theorem counterConfigMatching_one (hpmu : WellNumbered features hart.pmu)
    (hlt : counterIdx < hart.pmu.totalCountersNum) (hfree : Unconfigured hart.pmu counterIdx)
    (hsuits : Suits features sbiPmu hart eventIdx eventData counterIdx) :
    Returns (counterConfigMatching features sbiPmu counterIdx 1#(xlen.bits) 0 eventIdx eventData)
      hart fun ret _ => ret = .success counterIdx := by
  have hle := hpmu.total_le
  have hflags : ConfigFlags.fromBits 0 = some ⟨false, false, false⟩ := rfl
  obtain ⟨htype, hkind⟩ := hsuits
  have hvalid : ¬ (EventIdx.checkEventType ⟨eventIdx⟩ = false ∨
      (EventIdx.isFirmwareEvent ⟨eventIdx⟩ = true ∧
        EventIdx.firmwareEventValid ⟨eventIdx⟩ = false)) := by
    rintro (h | ⟨hfw, h⟩)
    · exact Bool.false_ne_true (h.symm.trans htype)
    · rw [if_pos hfw] at hkind
      exact Bool.false_ne_true (h.symm.trans hkind.2)
  rw [counterConfigMatching, hflags]
  simp only [returns_bind, returns_get, counterSetInvalid_of_valid hpmu (counterSetValid_one hlt),
    returns_pure, Bool.false_eq_true, if_false]
  rw [if_neg hvalid, returns_bind, matchCounter]
  simp only [returns_bind, returns_get, Bool.false_eq_true, if_false]
  have hfound : Returns (if EventIdx.isFirmwareEvent ⟨eventIdx⟩ then
        findFirmwareCounter hart.pmu ⟨counterIdx, 1#(xlen.bits)⟩ eventIdx
      else findHardwareCounter features sbiPmu hart.pmu ⟨counterIdx, 1#(xlen.bits)⟩ eventIdx
        eventData) hart fun result hart' => result = .ok counterIdx ∧ hart'.pmu = hart.pmu := by
    rw [returns_ite]
    split
    next hfw =>
      rw [if_pos hfw] at hkind
      exact findFirmwareCounter_one hpmu hkind.1 hlt hkind.2 hfree
    next hfw =>
      rw [if_neg hfw] at hkind
      obtain ⟨offset, hoffset, htime, hcycle, hinstret, hvalue, hpermitted, hstopped⟩ := hkind
      exact findHardwareCounter_one hpmu hoffset htime hcycle hinstret hvalue hpermitted hstopped hfree
  refine hfound.mono ?_
  rintro _ hart₁ ⟨rfl, hpmu₁⟩
  simp only [setPmu, returns_bind, returns_writeAt, returns_modify, returns_pure]
  refine ⟨by omega, ?_⟩
  have hconfigured : Returns (configureCounter features counterIdx ⟨eventIdx⟩ ⟨false, false, false⟩)
      { hart₁ with pmu := hart.pmu.setEvent counterIdx eventIdx (by omega) }
      fun result _ => result = .ok ⟨⟩ := by
    have htotal := hpmu.total
    cases hfw : EventIdx.isFirmwareEvent ⟨eventIdx⟩ with
    | true =>
      rw [if_pos hfw] at hkind
      simp only [configureCounter, hfw, if_true, Bool.false_eq_true, if_false, setPmu, returns_ite,
        returns_bind, returns_get, returns_checkedSub, returns_pure, returns_modify,
        PmuState.setEvent]
      exact ⟨hkind.1, by rw [if_neg (by omega)]; trivial⟩
    | false =>
      rw [if_neg (by simp [hfw])] at hkind
      obtain ⟨offset, hoffset, -⟩ := hkind
      simp only [configureCounter, hfw, Bool.false_eq_true, if_false, returns_bind, returns_unwrap,
        returns_pure]
      exact ⟨offset, hoffset, trivial⟩
  refine hconfigured.mono ?_
  rintro _ hart₂ rfl
  exact returns_pure.mpr rfl

end Found

theorem freed_iff (hpmu : WellNumbered features hart.pmu) {counterIdx : Nat}
    (hlt : counterIdx < hart.pmu.totalCountersNum) :
    Freed features sbiPmu hart counterIdx ↔ Unconfigured hart.pmu counterIdx :=
  ⟨fun h => h.unconfigured, fun h => ⟨h, fun _ _ => counterConfigMatching_one hpmu hlt h⟩⟩

/-! ## The counters that a reset reaches -/

theorem counter_event (features : HartFeatures) (hart : Hart xlen) (counterIdx : Nat) :
    (hart.counter features counterIdx).event = hart.pmu.activeEvent[counterIdx]? := by
  unfold Hart.counter
  split <;> rfl

theorem unconfigured_iff (features : HartFeatures) {counterIdx : Nat} :
    Unconfigured hart.pmu counterIdx ↔
    (hart.counter features counterIdx).event = some (eventIdxInvalid xlen) := by
  rw [counter_event, Unconfigured]

/-- Every selected counter with an event comes before the first that is stopped, or is that one
and a hardware counter. The time counter is left out. -/
def ResetReaches (features : HartFeatures) (hart : Hart xlen) (base : Nat)
    (mask : BitVec xlen.bits) : Prop :=
  ∀ counterIdx, Selects base mask counterIdx → ¬ IsTime features counterIdx →
    ¬ Unconfigured hart.pmu counterIdx →
      (∀ earlier, Selects base mask earlier → earlier < counterIdx → ¬ IsTime features earlier →
        hasRunState features earlier = true → hart.running features earlier = true) ∧
      (getMhpmCsrOffset features counterIdx = none → hart.running features counterIdx = true)

/-- A visit with `RESET` leaves a counter without its event, unless it ends at a firmware counter. -/
theorem stopVisit_passed_event {counterIdx : Nat} (htime : ¬ IsTime features counterIdx)
    (counter : Counter xlen) :
    ((stopVisit features true).passed counterIdx counter).event = some (eventIdxInvalid xlen) := by
  simp [stopVisit, htime, Counter.reset]

theorem stopVisit_ended_event {counterIdx : Nat} (counter : Counter xlen) :
    ((stopVisit features true).ended counterIdx counter).event =
      if getMhpmCsrOffset features counterIdx = none then counter.event
      else some (eventIdxInvalid xlen) := by
  cases hoffset : getMhpmCsrOffset features counterIdx <;> simp [stopVisit, hoffset, Counter.reset]

theorem stopVisit_accepts {isReset : Bool} {counterIdx : Nat} {counter : Counter xlen}
    (h : (stopVisit features isReset).refuses counterIdx counter = none)
    (htime : ¬ IsTime features counterIdx) (hrun : hasRunState features counterIdx = true) :
    counter.running = true := by
  simpa [stopVisit, htime, hrun] using h

section Reached

variable {base : Nat} {mask : BitVec xlen.bits} {hart' : Hart xlen}

/-- A pass with `RESET` over the whole set takes every event, and reaches all of it. -/
theorem resetReaches_of_completes
    (hcompletes : (stopVisit features true).Completes (CounterMask.toList ⟨base, mask⟩)
      (hart.counter features) (hart'.counter features)) :
    (∀ counterIdx, Selects base mask counterIdx → ¬ IsTime features counterIdx →
      (hart'.counter features counterIdx).event = some (eventIdxInvalid xlen)) ∧
    ResetReaches features hart base mask := by
  constructor
  · intro counterIdx hmem htime
    rw [hcompletes.passed counterIdx hmem.mem]
    exact stopVisit_passed_event htime _
  · intro counterIdx hmem htime _
    constructor
    · intro earlier hearlier _ hnotTime hstate
      exact stopVisit_accepts (hcompletes.accepts earlier hearlier.mem) hnotTime hstate
    · intro hfirmware
      exact stopVisit_accepts (hcompletes.accepts counterIdx hmem.mem) htime
        (hasRunState_of_firmware hfirmware)

/-- A pass with `RESET` that ends at a stopped counter takes every event exactly when all of them
are reached. -/
theorem resetReaches_iff_of_endsAt {stop : Nat} {e : SbiRet}
    (hends : (stopVisit features true).EndsAt (CounterMask.toList ⟨base, mask⟩)
      (hart.counter features) stop e (hart'.counter features)) :
    (∀ counterIdx, Selects base mask counterIdx → ¬ IsTime features counterIdx →
      (hart'.counter features counterIdx).event = some (eventIdxInvalid xlen)) ↔
    ResetReaches features hart base mask := by
  have haccepts : ∀ earlier, Selects base mask earlier → earlier < stop →
      ¬ IsTime features earlier → hasRunState features earlier = true →
        hart.running features earlier = true := fun earlier hmem hlt hnotTime hstate =>
    stopVisit_accepts (hends.accepts earlier hmem.mem hlt) hnotTime hstate
  obtain ⟨hstopTime, hstopState, hstopIdle, -⟩ := stopVisit_refuses_some hends.refuses
  have hended : (hart'.counter features stop).event =
      if getMhpmCsrOffset features stop = none then (hart.counter features stop).event
      else some (eventIdxInvalid xlen) := by
    rw [hends.ended]
    exact stopVisit_ended_event _
  have hlater : ∀ counterIdx, stop < counterIdx →
      hart'.counter features counterIdx = hart.counter features counterIdx :=
    fun counterIdx hlt => hends.others counterIdx (.inr hlt)
  constructor
  · intro hfrees counterIdx hmem htime hmapped
    have hevent := hfrees counterIdx hmem htime
    rw [unconfigured_iff features] at hmapped
    rcases lt_trichotomy counterIdx stop with hlt | rfl | hgt
    · refine ⟨fun earlier hearlier hbefore => haccepts earlier hearlier (hbefore.trans hlt),
        fun hfirmware => ?_⟩
      exact haccepts counterIdx hmem hlt htime (hasRunState_of_firmware hfirmware)
    · refine ⟨fun earlier hearlier hbefore => haccepts earlier hearlier hbefore,
        fun hfirmware => ?_⟩
      rw [hended, if_pos hfirmware] at hevent
      exact absurd hevent hmapped
    · rw [hlater counterIdx hgt] at hevent
      exact absurd hevent hmapped
  · intro hreaches counterIdx hmem htime
    have hmapped := hreaches counterIdx hmem htime
    rw [unconfigured_iff features] at hmapped
    have hidle : hart.running features stop ≠ true := by
      rw [Hart.running, hstopIdle]
      exact Bool.false_ne_true
    rcases lt_trichotomy counterIdx stop with hlt | rfl | hgt
    · rw [hends.passed counterIdx hmem.mem hlt]
      exact stopVisit_passed_event htime _
    · rw [hended]
      split
      next hfirmware =>
        by_contra hevent
        exact hidle ((hmapped hevent).2 hfirmware)
      next => rfl
    · rw [hlater counterIdx hgt]
      by_contra hevent
      exact hidle ((hmapped hevent).1 stop (selects_of_mem hends.mem) hgt hstopTime hstopState)

end Reached

/-- In every reachable state, a stop with `RESET` that is accepted frees all the selected counters
but the time counter exactly when those with an event are reached. -/
theorem counter_stop_frees_iff (hreach : Reachable features sbiPmu hart)
    {base mask flags : BitVec xlen.bits}
    (haccepted : StopsLoop hart.pmu base.toNat mask flags.toNat true) :
    (Returns ((Call.counterStop base mask flags).handle features sbiPmu) hart fun _ hart' =>
      ∀ counterIdx, Selects base.toNat mask counterIdx → ¬ IsTime features counterIdx →
        Freed features sbiPmu hart' counterIdx) ↔
      ResetReaches features hart base.toNat mask := by
  have hpmu := hreach.wellNumbered
  obtain ⟨ret, hart', hrun, hpmu'⟩ := returns_counterStop hpmu base.toNat mask flags.toNat
  obtain ⟨error, hpass, -⟩ := (returns_iff_of_ok hrun).mp
    (returns_counterStop_run hpmu flags.toNat haccepted)
  have hfreed : ∀ counterIdx, Selects base.toNat mask counterIdx →
      (Freed features sbiPmu hart' counterIdx ↔
        (hart'.counter features counterIdx).event = some (eventIdxInvalid xlen)) := by
    intro counterIdx hmem
    rw [freed_iff hpmu', unconfigured_iff features]
    rw [hpmu.total_eq hpmu']
    exact haccepted.counters.lt_total counterIdx hmem.mem
  have hevents : (∀ counterIdx, Selects base.toNat mask counterIdx → ¬ IsTime features counterIdx →
      Freed features sbiPmu hart' counterIdx) ↔
      ∀ counterIdx, Selects base.toNat mask counterIdx → ¬ IsTime features counterIdx →
        (hart'.counter features counterIdx).event = some (eventIdxInvalid xlen) :=
    forall₂_congr fun counterIdx hmem => imp_congr_right fun _ => hfreed counterIdx hmem
  rw [Call.handle, returns_iff_of_ok hrun, hevents]
  rcases (stopVisit features true).run_cases (hart.counter features)
    (CounterMask.pairwise_toList ⟨base.toNat, mask⟩) with
    ⟨after, hafter, hcompletes⟩ | ⟨stop, e, after, hafter, hends⟩
  · cases hafter.symm.trans hpass
    obtain ⟨hcleared, hreaches⟩ := resetReaches_of_completes hcompletes
    exact iff_of_true hcleared hreaches
  · cases hafter.symm.trans hpass
    exact resetReaches_iff_of_endsAt hends

/-- A stop with `RESET` of the cycle and instruction counters frees both when both are running. -/
theorem counter_stop_frees_iff_boot :
    let features : HartFeatures := ⟨.version1_12, 15⟩
    let sbiPmu : SbiPmu := ⟨none, none, none⟩
    let hart : Hart .rv64 := boot features ⟨0, fun _ => 0, fun _ => 0⟩
    let mask : BitVec Xlen.rv64.bits := 5
    Returns ((Call.counterStop 0 mask 1).handle features sbiPmu) hart fun _ hart' =>
      ∀ counterIdx, Selects 0 mask counterIdx → ¬ IsTime features counterIdx →
        Freed features sbiPmu hart' counterIdx := by
  intro features sbiPmu hart mask
  have hboot : Reachable features sbiPmu hart := ⟨⟨0, fun _ => 0, fun _ => 0⟩, [], [], rfl⟩
  have hrunning : ∀ counterIdx, Selects 0 mask counterIdx →
      hart.running features counterIdx = true := by
    intro counterIdx hmem
    rcases selects_cycle_instret.mp hmem with rfl | rfl <;> decide
  refine (@counter_stop_frees_iff _ _ _ _ hboot 0 mask 1 ⟨rfl, counterSetValid_boot _⟩).mpr ?_
  intro counterIdx hmem _ _
  exact ⟨fun earlier hearlier _ _ _ => hrunning earlier hearlier, fun _ => hrunning counterIdx hmem⟩

/-- With the cycle counter stopped, a stop with `RESET` of both leaves the instruction counter its
event. -/
theorem counter_stop_leaves_event :
    let features : HartFeatures := ⟨.version1_12, 15⟩
    let sbiPmu : SbiPmu := ⟨none, none, none⟩
    let hart : Hart .rv64 := boot features ⟨1, fun _ => 0, fun _ => 0⟩
    let mask : BitVec Xlen.rv64.bits := 5
    Reachable features sbiPmu hart ∧ StopsLoop hart.pmu 0 mask 1 true ∧
      ¬ Returns ((Call.counterStop 0 mask 1).handle features sbiPmu) hart fun _ hart' =>
        ∀ counterIdx, Selects 0 mask counterIdx → ¬ IsTime features counterIdx →
          Freed features sbiPmu hart' counterIdx := by
  intro features sbiPmu hart mask
  have hstop : ((Call.counterStop 0 mask 1).handle features sbiPmu hart).map
      (fun r => r.2.pmu.activeEvent[2]?) = .ok (some 2) := by decide +kernel
  refine ⟨⟨⟨1, fun _ => 0, fun _ => 0⟩, [], [], rfl⟩, ⟨rfl, counterSetValid_boot _⟩, ?_⟩
  rintro ⟨ret, hart', hrun, hfreed⟩
  rw [hrun] at hstop
  have hevent := (hfreed 2 ⟨2, by decide, rfl⟩ (by decide)).unconfigured
  have hkept : hart'.pmu.activeEvent[2]? = some 2 := Except.ok.inj hstop
  rw [Unconfigured, hkept] at hevent
  revert hevent
  decide

end RustSbi.Pmu
