import RustSbi.Sbi.PmuSets

/-!
When a start or a stop of several counters treats them all alike. The counter at which
the call ends splits the set: what the call promises of the whole set holds when the
counters after it need nothing done, and those before it have had nothing done.
-/

namespace RustSbi.Pmu

open Bits Checked Sweep

variable {xlen : Xlen} {features : HartFeatures} {sbiPmu : SbiPmu} {hart : Hart xlen}

/-- The running state of a counter. -/
def Hart.running (features : HartFeatures) (hart : Hart xlen) (counterIdx : Nat) : Bool :=
  (hart.counter features counterIdx).running

/-! ## Starting and stopping the whole set -/

/-- What a start or a stop of a set of counters promises, with `requested` the running state asked
for and `already` the error for a counter that is in it: an invalid parameter changes no counter,
and otherwise every selected counter but the time counter is as requested. -/
def TreatsWhole (features : HartFeatures) (hart : Hart xlen) (base : Nat) (mask : BitVec xlen.bits)
    (requested : Bool) (already : SbiRet) (call : PmuM xlen SbiRet) : Prop :=
  Returns call hart fun ret hart' =>
    (ret = .invalidParam → hart'.counter features = hart.counter features) ∧
      (((∃ value, ret = .success value) ∨ ret = already) → ∀ counterIdx,
        Selects base mask counterIdx → ¬ IsTime features counterIdx →
          hart'.running features counterIdx = requested)

/-- The first selected counter that is the time counter or is running, if there is one, is the time
counter before all others, or is running with all others after it running. -/
def StartsUniformly (features : HartFeatures) (hart : Hart xlen) (base : Nat)
    (mask : BitVec xlen.bits) : Prop :=
  ∀ first, Selects base mask first → (IsTime features first ∨ hart.running features first = true) →
    (∀ counterIdx, Selects base mask counterIdx → counterIdx < first →
      ¬ IsTime features counterIdx ∧ hart.running features counterIdx = false) →
    (IsTime features first → ∀ counterIdx, Selects base mask counterIdx → first ≤ counterIdx) ∧
      (¬ IsTime features first → ∀ counterIdx, Selects base mask counterIdx →
        ¬ IsTime features counterIdx → first < counterIdx → hart.running features counterIdx = true)

/-- Every selected counter after a stopped one is stopped, the time counter left out. -/
def StopsUniformly (features : HartFeatures) (hart : Hart xlen) (base : Nat)
    (mask : BitVec xlen.bits) : Prop :=
  ∀ first later, Selects base mask first → Selects base mask later → ¬ IsTime features first →
    ¬ IsTime features later → first < later → hart.running features first = false →
      hart.running features later = false

section Whole

variable {base : Nat} {mask : BitVec xlen.bits} {flags : Nat}

theorem hasRunState_of_hasCountinhibit (h : features.privilegedVersion.hasCountinhibit = true)
    (counterIdx : Nat) : hasRunState features counterIdx = true := by
  rw [hasRunState, h, Bool.true_or]

/-- A rejected call keeps its promise. -/
theorem treatsWhole_of_rejected {requested : Bool} {already : SbiRet} {call : PmuM xlen SbiRet}
    (hinvalid : already ≠ .invalidParam) (hsnapshot : already ≠ .noShmem)
    (h : Returns call hart fun ret hart' =>
      (ret = .invalidParam ∨ ret = .noShmem) ∧ hart' = hart) :
    TreatsWhole features hart base mask requested already call := by
  refine h.mono ?_
  rintro ret hart' ⟨hret, rfl⟩
  refine ⟨fun _ => rfl, fun hdone => ?_⟩
  rcases hret with rfl | rfl
  · rcases hdone with ⟨_, ⟨⟩⟩ | heq
    exact absurd heq.symm hinvalid
  · rcases hdone with ⟨_, ⟨⟩⟩ | heq
    exact absurd heq.symm hsnapshot

theorem startVisit_refuses_iff (h : features.privilegedVersion.hasCountinhibit = true)
    {value : BitVec 64} {isUpdate : Bool} {counterIdx : Nat} {counter : Counter xlen} :
    (startVisit features value isUpdate).refuses counterIdx counter = none ↔
      ¬ IsTime features counterIdx ∧ counter.running = false := by
  by_cases htime : IsTime features counterIdx <;>
    simp [startVisit, htime, hasRunState_of_hasCountinhibit h]

/-- The time counter is rejected, and a running counter has been started already. -/
theorem startVisit_refuses_some {value : BitVec 64} {isUpdate : Bool} {counterIdx : Nat}
    {counter : Counter xlen} {e : SbiRet}
    (h : (startVisit features value isUpdate).refuses counterIdx counter = some e) :
    IsTime features counterIdx ∧ e = .invalidParam ∨
      ¬ IsTime features counterIdx ∧ counter.running = true ∧ e = .alreadyStarted := by
  dsimp only [startVisit] at h
  split_ifs at h with htime hrunning
  · exact .inl ⟨htime, (Option.some.inj h).symm⟩
  · exact .inr ⟨htime, hrunning.2, (Option.some.inj h).symm⟩

theorem stopVisit_refuses_iff (h : features.privilegedVersion.hasCountinhibit = true)
    {isReset : Bool} {counterIdx : Nat} {counter : Counter xlen} :
    (stopVisit features isReset).refuses counterIdx counter = none ↔
      (¬ IsTime features counterIdx → counter.running = true) := by
  simp [stopVisit, hasRunState_of_hasCountinhibit h]

theorem stopVisit_refuses_some {isReset : Bool} {counterIdx : Nat} {counter : Counter xlen}
    {e : SbiRet} (h : (stopVisit features isReset).refuses counterIdx counter = some e) :
    ¬ IsTime features counterIdx ∧ hasRunState features counterIdx = true ∧
      counter.running = false ∧ e = .alreadyStopped := by
  dsimp only [stopVisit] at h
  split_ifs at h with hstopped
  exact ⟨hstopped.1, hstopped.2.1, hstopped.2.2, (Option.some.inj h).symm⟩

theorem startVisit_passed_running (h : features.privilegedVersion.hasCountinhibit = true)
    (value : BitVec 64) (isUpdate : Bool) (counterIdx : Nat) (counter : Counter xlen) :
    ((startVisit features value isUpdate).passed counterIdx counter).running = true := by
  simp [startVisit, hasRunState_of_hasCountinhibit h]

theorem stopVisit_passed_running (h : features.privilegedVersion.hasCountinhibit = true)
    (isReset : Bool) {counterIdx : Nat} (htime : ¬ IsTime features counterIdx)
    (counter : Counter xlen) :
    ((stopVisit features isReset).passed counterIdx counter).running = false := by
  simp [stopVisit, htime, hasRunState_of_hasCountinhibit h]

theorem stopVisit_ended_running (isReset : Bool) {counterIdx : Nat} {counter : Counter xlen}
    (h : counter.running = false) :
    ((stopVisit features isReset).ended counterIdx counter).running = false := by
  dsimp only [stopVisit]
  split_ifs
  · exact h
  · exact h

/-- There is one first counter that is the time counter or is running. -/
theorem startsUniformly_iff {stop : Nat} (hstop : Selects base mask stop)
    (hrefuses : IsTime features stop ∨ hart.running features stop = true)
    (hbefore : ∀ counterIdx, Selects base mask counterIdx → counterIdx < stop →
      ¬ IsTime features counterIdx ∧ hart.running features counterIdx = false) :
    StartsUniformly features hart base mask ↔
      (IsTime features stop → ∀ counterIdx, Selects base mask counterIdx → stop ≤ counterIdx) ∧
        (¬ IsTime features stop → ∀ counterIdx, Selects base mask counterIdx →
          ¬ IsTime features counterIdx → stop < counterIdx →
            hart.running features counterIdx = true) := by
  have haccepts : ∀ {counterIdx},
      ¬ IsTime features counterIdx ∧ hart.running features counterIdx = false →
        ¬ (IsTime features counterIdx ∨ hart.running features counterIdx = true) := by
    rintro counterIdx ⟨htime, hidle⟩ (h | h)
    · exact htime h
    · exact Bool.false_ne_true (hidle.symm.trans h)
  refine ⟨fun h => h stop hstop hrefuses hbefore, fun h first hfirst hfirsts hleast => ?_⟩
  obtain rfl : first = stop := by
    rcases lt_trichotomy first stop with hlt | heq | hgt
    · exact absurd hfirsts (haccepts (hbefore first hfirst hlt))
    · exact heq
    · exact absurd hrefuses (haccepts (hleast stop hstop hgt))
  exact h

/-- What holds before the counter at which a start ends: nothing there was running, and all of it
is running afterwards. -/
theorem startVisit_before (hinhibit : features.privilegedVersion.hasCountinhibit = true)
    {value : BitVec 64} {isUpdate : Bool} {hart' : Hart xlen} {stop : Nat} {e : SbiRet}
    (hends : (startVisit features value isUpdate).EndsAt (CounterMask.toList ⟨base, mask⟩)
      (hart.counter features) stop e (hart'.counter features)) :
    (∀ counterIdx, Selects base mask counterIdx → counterIdx < stop →
      ¬ IsTime features counterIdx ∧ hart.running features counterIdx = false) ∧
    ∀ counterIdx, Selects base mask counterIdx → counterIdx < stop →
      hart'.running features counterIdx = true := by
  constructor
  · intro counterIdx hmem hlt
    exact (startVisit_refuses_iff hinhibit).mp (hends.accepts counterIdx hmem.mem hlt)
  · intro counterIdx hmem hlt
    rw [Hart.running, hends.passed counterIdx hmem.mem hlt]
    exact startVisit_passed_running hinhibit ..

/-- A start that ends at the time counter has changed nothing exactly when no counter comes
before it. -/
theorem startVisit_unchanged_iff (hinhibit : features.privilegedVersion.hasCountinhibit = true)
    {value : BitVec 64} {isUpdate : Bool} {hart' : Hart xlen} {stop : Nat} {e : SbiRet}
    (hends : (startVisit features value isUpdate).EndsAt (CounterMask.toList ⟨base, mask⟩)
      (hart.counter features) stop e (hart'.counter features)) :
    hart'.counter features = hart.counter features ↔
      ∀ counterIdx, Selects base mask counterIdx → stop ≤ counterIdx := by
  obtain ⟨hbefore, -⟩ := startVisit_before hinhibit hends
  rw [hends.unchanged_iff rfl]
  · exact ⟨fun h counterIdx hmem => h counterIdx hmem.mem,
      fun h counterIdx hmem => h counterIdx (selects_of_mem hmem)⟩
  · intro counterIdx hmem hlt hsame
    have hidle := (hbefore counterIdx (selects_of_mem hmem) hlt).2
    rw [Hart.running, ← hsame, startVisit_passed_running hinhibit] at hidle
    cases hidle

theorem treatsWhole_start_iff (hpmu : WellNumbered features hart.pmu)
    (hinhibit : features.privilegedVersion.hasCountinhibit = true) (value : BitVec 64)
    {isUpdate : Bool} (h : StartsLoop hart.pmu base mask flags isUpdate) :
    TreatsWhole features hart base mask true .alreadyStarted
        (counterStart features base mask flags value) ↔
      StartsUniformly features hart base mask := by
  obtain ⟨ret, hart', hrun, error, hpass, hret⟩ := returns_counterStart_run hpmu flags value h
  rw [TreatsWhole, returns_iff_of_ok hrun]
  rcases (startVisit features value isUpdate).run_cases (hart.counter features)
    (CounterMask.pairwise_toList ⟨base, mask⟩) with
    ⟨after, hafter, hcompletes⟩ | ⟨stop, e, after, hafter, hends⟩
  · cases hafter.symm.trans hpass
    subst hret
    refine iff_of_true ⟨nofun, fun _ counterIdx hmem _ => ?_⟩ fun first hfirst hrefuses _ => ?_
    · rw [Hart.running, hcompletes.passed counterIdx hmem.mem]
      exact startVisit_passed_running hinhibit ..
    · have haccepts := (startVisit_refuses_iff hinhibit).mp
        (hcompletes.accepts first hfirst.mem)
      rcases hrefuses with htime | hrunning
      · exact absurd htime haccepts.1
      · rw [Hart.running, haccepts.2] at hrunning
        cases hrunning
  · cases hafter.symm.trans hpass
    subst hret
    have hstop := selects_of_mem hends.mem
    obtain ⟨hbefore, hpassed⟩ := startVisit_before hinhibit hends
    rcases startVisit_refuses_some hends.refuses with ⟨htime, rfl⟩ | ⟨htime, hrunning, rfl⟩
    · -- what has been started before the time counter stays started
      rw [startsUniformly_iff hstop (.inl htime) hbefore, startVisit_unchanged_iff hinhibit hends]
      constructor
      · rintro ⟨hleast, -⟩
        exact ⟨fun _ => hleast rfl, fun hnot => absurd htime hnot⟩
      · rintro ⟨hleast, -⟩
        refine ⟨fun _ => hleast htime, ?_⟩
        rintro (⟨_, ⟨⟩⟩ | hstarted)
        cases hstarted
    · -- what comes after the running counter keeps its state
      have hafter : ∀ counterIdx, stop < counterIdx →
          hart'.running features counterIdx = hart.running features counterIdx := fun counterIdx hlt =>
        congrArg Counter.running (hends.others counterIdx (.inr hlt))
      rw [startsUniformly_iff hstop (.inr hrunning) hbefore]
      constructor
      · rintro ⟨-, hstarted⟩
        refine ⟨fun h => absurd h htime, fun _ counterIdx hmem hnotTime hlt => ?_⟩
        rw [← hafter counterIdx hlt]
        exact hstarted (.inr rfl) counterIdx hmem hnotTime
      · rintro ⟨-, hlater⟩
        refine ⟨nofun, fun _ counterIdx hmem hnotTime => ?_⟩
        rcases lt_trichotomy counterIdx stop with hlt | rfl | hgt
        · exact hpassed counterIdx hmem hlt
        · rw [Hart.running, hends.ended]
          exact hrunning
        · rw [hafter counterIdx hgt]
          exact hlater htime counterIdx hmem hnotTime hgt

theorem treatsWhole_stop_iff (hpmu : WellNumbered features hart.pmu)
    (hinhibit : features.privilegedVersion.hasCountinhibit = true)
    {isReset : Bool} (h : StopsLoop hart.pmu base mask flags isReset) :
    TreatsWhole features hart base mask false .alreadyStopped
        (counterStop features base mask flags) ↔
      StopsUniformly features hart base mask := by
  obtain ⟨ret, hart', hrun, error, hpass, hret⟩ := returns_counterStop_run hpmu flags h
  rw [TreatsWhole, returns_iff_of_ok hrun]
  rcases (stopVisit features isReset).run_cases (hart.counter features)
    (CounterMask.pairwise_toList ⟨base, mask⟩) with
    ⟨after, hafter, hcompletes⟩ | ⟨stop, e, after, hafter, hends⟩
  · cases hafter.symm.trans hpass
    refine iff_of_true ⟨fun hinvalid => ?_, fun _ counterIdx hmem htime => ?_⟩ ?_
    · -- without a stop, every selected counter is the time counter
      have hall : ∀ counterIdx ∈ CounterMask.toList ⟨base, mask⟩, IsTime features counterIdx := by
        by_contra hsome
        rw [if_neg hsome, hinvalid] at hret
        cases hret
      funext counterIdx
      by_cases hmem : counterIdx ∈ CounterMask.toList ⟨base, mask⟩
      · rw [hcompletes.passed counterIdx hmem]
        exact if_pos (hall counterIdx hmem)
      · exact hcompletes.others counterIdx hmem
    · rw [Hart.running, hcompletes.passed counterIdx hmem.mem]
      exact stopVisit_passed_running hinhibit isReset htime _
    · intro first later hfirst _ htime _ _ hidle
      have hrunning := (stopVisit_refuses_iff hinhibit).mp
        (hcompletes.accepts first hfirst.mem) htime
      exact absurd (hidle.symm.trans hrunning) Bool.false_ne_true
  · cases hafter.symm.trans hpass
    obtain ⟨htime, -, hidle, rfl⟩ := stopVisit_refuses_some hends.refuses
    subst hret
    have hstop := selects_of_mem hends.mem
    have hafter : ∀ counterIdx, stop < counterIdx →
        hart'.running features counterIdx = hart.running features counterIdx := fun counterIdx hlt =>
      congrArg Counter.running (hends.others counterIdx (.inr hlt))
    constructor
    · rintro ⟨-, hstopped⟩ first later hfirst hlater hnotTime hlaterTime hlt hfirstIdle
      have hge : stop ≤ first := by
        by_contra hbefore
        have hrunning := (stopVisit_refuses_iff hinhibit).mp
          (hends.accepts first hfirst.mem (not_le.mp hbefore)) hnotTime
        exact absurd (hfirstIdle.symm.trans hrunning) Bool.false_ne_true
      rw [← hafter later (lt_of_le_of_lt hge hlt)]
      exact hstopped (.inr rfl) later hlater hlaterTime
    · intro huniform
      refine ⟨nofun, fun _ counterIdx hmem hnotTime => ?_⟩
      rcases lt_trichotomy counterIdx stop with hlt | rfl | hgt
      · rw [Hart.running, hends.passed counterIdx hmem.mem hlt]
        exact stopVisit_passed_running hinhibit isReset hnotTime _
      · rw [Hart.running, hends.ended]
        exact stopVisit_ended_running isReset hidle
      · rw [hafter counterIdx hgt]
        exact huniform stop counterIdx hstop hmem htime hnotTime hgt hidle

end Whole

/-- In every reachable state of a hart with `mcountinhibit`, a start treats the set it is given as
a whole exactly when it comes to no loop or the set is uniform, and so does a stop. -/
theorem counter_sets_whole_iff (hreach : Reachable features sbiPmu hart)
    (hinhibit : features.privilegedVersion.hasCountinhibit = true)
    (base mask flags : BitVec xlen.bits) (value : BitVec 64) :
    (TreatsWhole features hart base.toNat mask true .alreadyStarted
        ((Call.counterStart base mask flags value).handle features sbiPmu) ↔
      ∀ isUpdate, StartsLoop hart.pmu base.toNat mask flags.toNat isUpdate →
        StartsUniformly features hart base.toNat mask) ∧
    (TreatsWhole features hart base.toNat mask false .alreadyStopped
        ((Call.counterStop base mask flags).handle features sbiPmu) ↔
      ∀ isReset, StopsLoop hart.pmu base.toNat mask flags.toNat isReset →
        StopsUniformly features hart base.toNat mask) := by
  have hpmu := hreach.wellNumbered
  constructor
  · by_cases hloop : ∃ isUpdate, StartsLoop hart.pmu base.toNat mask flags.toNat isUpdate
    · obtain ⟨isUpdate, hloop⟩ := hloop
      rw [Call.handle, treatsWhole_start_iff hpmu hinhibit value hloop]
      exact ⟨fun h _ _ => h, fun h => h isUpdate hloop⟩
    · rw [not_exists] at hloop
      refine iff_of_true ?_ fun isUpdate h => absurd h (hloop isUpdate)
      exact treatsWhole_of_rejected (by rintro ⟨⟩) (by rintro ⟨⟩)
        (returns_counterStart_rejected hpmu flags.toNat value hloop)
  · by_cases hloop : ∃ isReset, StopsLoop hart.pmu base.toNat mask flags.toNat isReset
    · obtain ⟨isReset, hloop⟩ := hloop
      rw [Call.handle, treatsWhole_stop_iff hpmu hinhibit hloop]
      exact ⟨fun h _ _ => h, fun h => h isReset hloop⟩
    · rw [not_exists] at hloop
      refine iff_of_true ?_ fun isReset h => absurd h (hloop isReset)
      exact treatsWhole_of_rejected (by rintro ⟨⟩) (by rintro ⟨⟩)
        (returns_counterStop_rejected hpmu flags.toNat hloop)

/-! ## The cycle and instruction counters of a hart with four hardware counters -/

/-- They are a set of the hart at boot. -/
theorem counterSetValid_boot (csrs : Csrs .rv64) :
    CounterSetValid (boot ⟨.version1_12, 15⟩ csrs).pmu 0 (5 : BitVec Xlen.rv64.bits) := by
  have hbits : ∀ i < 64, (5#64).getLsbD i = true → i + 0 < 20 := by decide
  have htotal : (boot ⟨.version1_12, 15⟩ csrs).pmu.totalCountersNum = 20 := rfl
  rw [CounterSetValid, htotal]
  exact ⟨by decide, by decide, fun i hi => hbits i (BitVec.lt_of_getLsbD hi) hi⟩

theorem selects_cycle_instret {counterIdx : Nat} :
    Selects 0 (5 : BitVec Xlen.rv64.bits) counterIdx ↔ counterIdx = 0 ∨ counterIdx = 2 := by
  have hbits : ∀ i < 64, (5#64).getLsbD i = true → i = 0 ∨ i = 2 := by decide
  constructor
  · rintro ⟨i, hi, rfl⟩
    exact hbits i (BitVec.lt_of_getLsbD hi) hi
  · rintro (rfl | rfl)
    · exact ⟨0, by decide, rfl⟩
    · exact ⟨2, by decide, rfl⟩

/-- With the cycle counter stopped, a start leaves both running, and a stop does not stop both. -/
theorem counter_sets_whole_iff_boot :
    let features : HartFeatures := ⟨.version1_12, 15⟩
    let sbiPmu : SbiPmu := ⟨none, none, none⟩
    let hart : Hart .rv64 := boot features ⟨1, fun _ => 0, fun _ => 0⟩
    TreatsWhole features hart 0 5#64 true .alreadyStarted
        ((Call.counterStart 0 5 0 0).handle features sbiPmu) ∧
      ¬ TreatsWhole features hart 0 5#64 false .alreadyStopped
        ((Call.counterStop 0 5 0).handle features sbiPmu) := by
  intro features sbiPmu hart
  have hboot : Reachable features sbiPmu hart := ⟨⟨1, fun _ => 0, fun _ => 0⟩, [], [], rfl⟩
  obtain ⟨hstart, hstop⟩ := counter_sets_whole_iff hboot rfl 0 5 0 0
  constructor
  · refine hstart.mpr fun _ _ first hfirst hends _ => ?_
    rcases selects_cycle_instret.mp hfirst with rfl | rfl
    · exact absurd hends (by decide)
    · refine ⟨fun htime => absurd htime (by decide), fun _ later hlater _ hlt => ?_⟩
      have := selects_cycle_instret.mp hlater
      omega
  · intro hwhole
    have huniform := hstop.mp hwhole false ⟨rfl, counterSetValid_boot _⟩
    have hinstret := huniform 0 2 (selects_cycle_instret.mpr (.inl rfl))
      (selects_cycle_instret.mpr (.inr rfl)) (by decide) (by decide) (by decide) (by decide)
    revert hinstret
    decide

/-- On that hart, a start of the cycle and time counters is an invalid parameter after the cycle
counter has been started, and a stop of the cycle and instruction counters leaves the latter
running. -/
theorem counter_sets_split :
    let features : HartFeatures := ⟨.version1_12, 15⟩
    let sbiPmu : SbiPmu := ⟨none, none, none⟩
    let hart : Hart .rv64 := boot features ⟨1, fun _ => 0, fun _ => 0⟩
    Reachable features sbiPmu hart ∧
      ¬ TreatsWhole features hart 0 3#64 true .alreadyStarted
        ((Call.counterStart 0 3 0 0).handle features sbiPmu) ∧
      ¬ TreatsWhole features hart 0 5#64 false .alreadyStopped
        ((Call.counterStop 0 5 0).handle features sbiPmu) := by
  intro features sbiPmu hart
  have hstart : ((Call.counterStart 0 3 0 0).handle features sbiPmu hart).map
      (fun r => (r.1, r.2.running features 0)) = .ok (.invalidParam, true) := by decide +kernel
  have hstop : ((Call.counterStop 0 5 0).handle features sbiPmu hart).map
      (fun r => (r.1, r.2.running features 2)) = .ok (.alreadyStopped, true) := by decide +kernel
  refine ⟨⟨⟨1, fun _ => 0, fun _ => 0⟩, [], [], rfl⟩, ?_, ?_⟩
  · rintro ⟨ret, hart', hrun, hsame, -⟩
    rw [hrun] at hstart
    obtain ⟨rfl, hrunning⟩ := Prod.mk.inj (Except.ok.inj hstart)
    rw [Hart.running, hsame rfl] at hrunning
    revert hrunning
    decide
  · rintro ⟨ret, hart', hrun, -, hstopped⟩
    rw [hrun] at hstop
    obtain ⟨rfl, hrunning⟩ := Prod.mk.inj (Except.ok.inj hstop)
    have hinstret := hstopped (.inr rfl) 2 ⟨2, by decide, rfl⟩ (by decide)
    rw [hrunning] at hinstret
    cases hinstret

end RustSbi.Pmu
