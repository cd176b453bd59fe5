import RustSbi.Hart.Exit
import RustSbi.Sbi.PmuSafety

/-!
What a failing `hart_suspend` leaves behind (`sbi/hsm.rs`, `sbi/hart_local.rs`). The
lifecycle runs beside the PMU of each hart, which counts all the time and is reset before
a non-retentive resume. A call that fails has changed nothing, unless the resume ticket
could not send: then the PMU has been reset and the cell is suspended.
-/

namespace RustSbi.Pmu

open Checked

variable {xlen : Xlen} {features : HartFeatures} {hart hart' : Hart xlen}

/-! ## Counting and resetting -/

/-- Hardware counters that are not inhibited have new values. -/
structure Csrs.Ticks (features : HartFeatures) (csrs csrs' : Csrs xlen) : Prop where
  mcountinhibit : csrs'.mcountinhibit = csrs.mcountinhibit
  mhpmevent : csrs'.mhpmevent = csrs.mhpmevent
  inhibited : ∀ offset, features.privilegedVersion.hasCountinhibit = true →
    csrs.mcountinhibit.getLsbD offset = true → csrs'.mhpmcounter offset = csrs.mhpmcounter offset

/-- The hart counts a firmware event, or its hardware counters go on. -/
inductive Counts (features : HartFeatures) (hart : Hart xlen) : Hart xlen → Prop
  | firmware (firmwareEvent : Nat) {hart' : Hart xlen}
      (h : pmuFirmwareCounterIncrement firmwareEvent hart = .ok (⟨⟩, hart')) : Counts features hart hart'
  | hardware {csrs : Csrs xlen} (h : hart.csrs.Ticks features csrs) :
      Counts features hart { hart with csrs := csrs }

/-- Nothing but events were counted. -/
def Counted (features : HartFeatures) : Hart xlen → Hart xlen → Prop :=
  Relation.ReflTransGen (Counts features)

/-- `HartLocal::pmu_state_reset`. -/
def pmuStateReset (features : HartFeatures) (hart : Hart xlen) : Hart xlen where
  pmu := PmuState.new xlen features.mhpmMask
  csrs := if features.privilegedVersion.hasCountinhibit then
    { hart.csrs with mcountinhibit := ~~~0b111#(xlen.bits) } else hart.csrs

/-- The PMU is configured as a reset leaves it. -/
structure Hart.IsReset (features : HartFeatures) (hart : Hart xlen) : Prop where
  pmu : hart.pmu = PmuState.new xlen features.mhpmMask
  mcountinhibit : features.privilegedVersion.hasCountinhibit = true →
    hart.csrs.mcountinhibit = ~~~0b111#(xlen.bits)

/-- The mappings and the running counters are the same, and so are the values of the firmware
counters when none of them is running. -/
structure SameConfig (hart hart' : Hart xlen) : Prop where
  activeEvent : hart'.pmu.activeEvent = hart.pmu.activeEvent
  fwCounterState : hart'.pmu.fwCounterState = hart.pmu.fwCounterState
  hwCountersNum : hart'.pmu.hwCountersNum = hart.pmu.hwCountersNum
  totalCountersNum : hart'.pmu.totalCountersNum = hart.pmu.totalCountersNum
  mcountinhibit : hart'.csrs.mcountinhibit = hart.csrs.mcountinhibit
  mhpmevent : hart'.csrs.mhpmevent = hart.csrs.mhpmevent
  idle : hart.pmu.fwCounterState = 0#(xlen.bits) → hart'.pmu.fwCounter = hart.pmu.fwCounter

theorem SameConfig.refl (hart : Hart xlen) : SameConfig hart hart :=
  ⟨rfl, rfl, rfl, rfl, rfl, rfl, fun _ => rfl⟩

theorem SameConfig.trans {hart₁ : Hart xlen} (h : SameConfig hart hart₁)
    (h' : SameConfig hart₁ hart') : SameConfig hart hart' where
  activeEvent := h'.activeEvent.trans h.activeEvent
  fwCounterState := h'.fwCounterState.trans h.fwCounterState
  hwCountersNum := h'.hwCountersNum.trans h.hwCountersNum
  totalCountersNum := h'.totalCountersNum.trans h.totalCountersNum
  mcountinhibit := h'.mcountinhibit.trans h.mcountinhibit
  mhpmevent := h'.mhpmevent.trans h.mhpmevent
  idle := fun hidle => (h'.idle (h.fwCounterState.trans hidle)).trans (h.idle hidle)

theorem SameConfig.pmu_eq (h : SameConfig hart hart')
    (hidle : hart.pmu.fwCounterState = 0#(xlen.bits)) : hart'.pmu = hart.pmu := by
  obtain ⟨pmu, csrs⟩ := hart
  obtain ⟨pmu', csrs'⟩ := hart'
  cases pmu
  cases pmu'
  simp only [PmuState.mk.injEq]
  exact ⟨h.activeEvent, h.fwCounterState, h.idle hidle, h.hwCountersNum, h.totalCountersNum⟩

/-- Counting a firmware event changes values alone. -/
theorem ensures_firmwareCounterIncrementLoop_values (firmwareEvent counterIdxStart : Nat)
    (counters : List Nat) :
    Ensures (firmwareCounterIncrementLoop firmwareEvent counterIdxStart counters) hart
      fun _ hart' => ∃ fwCounter,
        hart' = { hart with pmu := { hart.pmu with fwCounter := fwCounter } } := by
  induction counters generalizing hart with
  | nil => exact ensures_pure.mpr ⟨hart.pmu.fwCounter, rfl⟩
  | cons counterIdx rest ih =>
    simp only [firmwareCounterIncrementLoop, ensures_bind, ensures_get, ensures_checkedSub,
      ensures_readAt]
    intro _ _
    have hstarted : Ensures (if hart.pmu.activeEvent[counterIdx] =
          (EventIdx.fromFirmwareEvent firmwareEvent).inner then
        isFirmwareEventStart hart.pmu counterIdx else pure false) hart fun _ hart₁ => hart₁ = hart := by
      simp only [isFirmwareEventStart, ensures_ite, ensures_bind, ensures_pure, ensures_checkedSub,
        ensures_shiftLeft, implies_true, ite_self]
    refine hstarted.mono ?_
    rintro counts hart₁ rfl
    have hcounted : Ensures (if counts = true then do
          let value ← readAt hart₁.pmu.fwCounter (counterIdx - counterIdxStart)
          setPmu { hart₁.pmu with
            fwCounter := ← writeAt hart₁.pmu.fwCounter (counterIdx - counterIdxStart) (value + 1) }
        else pure ⟨⟩) hart₁ fun _ hart₂ => ∃ fwCounter,
          hart₂ = { hart₁ with pmu := { hart₁.pmu with fwCounter := fwCounter } } := by
      rw [ensures_ite]
      split
      · simp only [setPmu, ensures_bind, ensures_readAt, ensures_writeAt, ensures_modify]
        intro _ _
        exact ⟨_, rfl⟩
      · exact ensures_pure.mpr ⟨hart₁.pmu.fwCounter, rfl⟩
    refine hcounted.mono ?_
    rintro _ _ ⟨fwCounter, rfl⟩
    refine ih.mono ?_
    rintro _ _ ⟨fwCounter', rfl⟩
    exact ⟨fwCounter', rfl⟩

theorem Counts.sameConfig (h : Counts features hart hart') : SameConfig hart hart' := by
  cases h with
  | firmware firmwareEvent hrun =>
    by_cases hidle : hart.pmu.fwCounterState = 0#(xlen.bits)
    · have hsame : Ensures (pmuFirmwareCounterIncrement firmwareEvent) hart
          fun _ hart' => hart' = hart := by
        simp only [pmuFirmwareCounterIncrement, ensures_bind, ensures_get, ensures_ite, ensures_pure,
          if_pos hidle]
      rw [hsame _ _ hrun]
      exact .refl hart
    · have hvalues : Ensures (pmuFirmwareCounterIncrement firmwareEvent) hart fun _ hart' =>
          ∃ fwCounter, hart' = { hart with pmu := { hart.pmu with fwCounter := fwCounter } } := by
        simp only [pmuFirmwareCounterIncrement, ensures_bind, ensures_get, ensures_ite, if_neg hidle]
        exact ensures_firmwareCounterIncrementLoop_values firmwareEvent _ _
      obtain ⟨fwCounter, rfl⟩ := hvalues _ _ hrun
      exact ⟨rfl, rfl, rfl, rfl, rfl, rfl, fun h => absurd h hidle⟩
  | hardware hticks =>
    exact ⟨rfl, rfl, rfl, rfl, hticks.mcountinhibit, hticks.mhpmevent, fun _ => rfl⟩

theorem Counted.sameConfig (h : Counted features hart hart') : SameConfig hart hart' := by
  induction h with
  | refl => exact .refl hart
  | tail _ hcounts ih => exact ih.trans hcounts.sameConfig

/-- Between the state of a call that reset the PMU and the state after it, only events were counted
exactly when the PMU was reset already. -/
theorem counted_reset_iff {start before after : Hart xlen} (hbefore : Counted features start before)
    (hafter : Counted features (pmuStateReset features before) after) :
    Counted features start after ↔ start.IsReset features := by
  have hconfig := hbefore.sameConfig
  have hreset := hafter.sameConfig
  have hidle : (pmuStateReset features before).pmu.fwCounterState = 0#(xlen.bits) := rfl
  constructor
  · intro hcounted
    have hsame := hcounted.sameConfig
    have hnew := hreset.pmu_eq hidle
    have hstart : start.pmu.fwCounterState = 0#(xlen.bits) := by
      rw [← hsame.fwCounterState, hnew]
      rfl
    refine ⟨?_, fun hinhibit => ?_⟩
    · rw [← hsame.pmu_eq hstart, hnew]
      rfl
    · rw [← hsame.mcountinhibit, hreset.mcountinhibit, pmuStateReset, if_pos hinhibit]
  · rintro ⟨hpmu, hinhibit⟩
    have hstart : start.pmu.fwCounterState = 0#(xlen.bits) := by
      rw [hpmu]
      rfl
    have hkept : pmuStateReset features before = before := by
      have hpmuBefore := (hconfig.pmu_eq hstart).trans hpmu
      obtain ⟨pmu, mcountinhibit, mhpmevent, mhpmcounter⟩ := before
      obtain rfl := hpmuBefore
      rw [pmuStateReset]
      split
      next hversion =>
        obtain rfl : mcountinhibit = ~~~0b111#(xlen.bits) :=
          hconfig.mcountinhibit.trans (hinhibit hversion)
        rfl
      next => rfl
    rw [hkept] at hafter
    exact hbefore.trans hafter

end RustSbi.Pmu

namespace RustSbi.Hart

open Transition

variable {xlen : Xlen} {H : Type}

/-! ## The call beside the PMU -/

/-- The match on the suspend type in `SbiHsm::suspend`. -/
def hartSuspend (suspendType : UInt32) (resumeAddr opaqueValue : Nat) : Except SbiRet SuspendType :=
  if suspendType = 0 then .ok .retentive
  else if suspendType = 0x80000000 then .ok (.nonRetentive ⟨resumeAddr, opaqueValue, .supervisor⟩)
  else .error .invalidParam

/-- What a `hart_suspend` found when it was called. -/
structure Entry (xlen : Xlen) where
  state : UInt8
  pmu : Pmu.Hart xlen

/-- The harts with their PMUs. No step reads what a `hart_suspend` found and whether the resume
ticket of the call failed to send, which are for stating properties. -/
structure PmuMachine (xlen : Xlen) (H : Type) where
  harts : System H
  pmus : H → Pmu.Hart xlen
  entry : H → Option (Entry xlen)
  sendFailed : H → Bool

/-- A step of the machine: of the lifecycle, the entry of a `hart_suspend`, a PMU call of a hart
below M-mode, or an event that a PMU counts. -/
inductive PmuAction (xlen : Xlen) (H : Type)
  | hart (h : H) (choice : Choice H)
  | suspend (h : H) (suspendType : UInt32) (resumeAddr opaqueValue : Nat)
  | call (h : H) (request : Pmu.Call xlen)
  | count (h : H)

namespace PmuMachine

variable [DecidableEq H]

/-- A `hart_suspend` begins, or is rejected. -/
def enter (m : PmuMachine xlen H) (h : H) (suspendType : Except SbiRet SuspendType) :
    PmuMachine xlen H where
  harts := m.harts.goto h (match suspendType with
    | .ok suspendType => .suspendClear suspendType
    | .error ret => .takeTransfer ret)
  pmus := m.pmus
  entry := Function.update m.entry h (some ⟨(m.harts.cell h).state, m.pmus h⟩)
  sendFailed := Function.update m.sendFailed h false

/-- The machine after a step of the lifecycle: `reset_current` resets the PMU. -/
def advance (features : H → Pmu.HartFeatures) (m : PmuMachine xlen H) (h : H) (choice : Choice H)
    (harts : System H) : PmuMachine xlen H :=
  match m.harts.pc h, choice with
  | .resetCurrent, _ => { m with
      harts := harts
      pmus := Function.update m.pmus h (Pmu.pmuStateReset (features h) (m.pmus h)) }
  | .commitSend, .fail =>
    { m with harts := harts, sendFailed := Function.update m.sendFailed h true }
  | .takeTransfer _, _ => { m with harts := harts, entry := Function.update m.entry h none }
  | _, _ => { m with harts := harts }

def setPmu (m : PmuMachine xlen H) (h : H) (pmu : Pmu.Hart xlen) : PmuMachine xlen H :=
  { m with pmus := Function.update m.pmus h pmu }

inductive Step (features : H → Pmu.HartFeatures) (sbiPmu : Pmu.SbiPmu) (m : PmuMachine xlen H) :
    PmuAction xlen H → PmuMachine xlen H → Prop
  | hart {h : H} {choice : Choice H} {harts : System H}
      (hother : ∀ suspendType, choice ≠ .hartSuspend suspendType)
      (hstep : m.harts.Step (h, choice) harts) :
      Step features sbiPmu m (.hart h choice) (m.advance features h choice harts)
  | suspend {h : H} (suspendType : UInt32) (resumeAddr opaqueValue : Nat)
      (hlower : m.harts.pc h = .lower) :
      Step features sbiPmu m (.suspend h suspendType resumeAddr opaqueValue)
        (m.enter h (hartSuspend suspendType resumeAddr opaqueValue))
  | call {h : H} {request : Pmu.Call xlen} {ret : SbiRet} {pmu : Pmu.Hart xlen}
      (hlower : m.harts.pc h = .lower)
      (hrun : request.handle (features h) sbiPmu (m.pmus h) = .ok (ret, pmu)) :
      Step features sbiPmu m (.call h request) (m.setPmu h pmu)
  | count {h : H} {pmu : Pmu.Hart xlen} (hcounts : Pmu.Counts (features h) (m.pmus h) pmu) :
      Step features sbiPmu m (.count h) (m.setPmu h pmu)

/-- The machine at boot: no hart is in a `hart_suspend`, and every PMU is new. -/
def Initial (features : H → Pmu.HartFeatures) (bootHart : H) (m : PmuMachine xlen H) : Prop :=
  m.harts.Initial bootHart ∧ (∀ h, ∃ csrs, m.pmus h = Pmu.boot (features h) csrs) ∧
    ∀ h, m.entry h = none

/-- Nothing of the hart has changed since the call but what its PMU counted. -/
def Atomic (features : H → Pmu.HartFeatures) (m : PmuMachine xlen H) (h : H) (entry : Entry xlen) :
    Prop :=
  (m.harts.cell h).state = entry.state ∧ Pmu.Counted (features h) entry.pmu (m.pmus h)

end PmuMachine

/-! ## The invariant -/

/-- The PMU was reset once since the call, and has only counted otherwise. -/
def WasReset (features : Pmu.HartFeatures) (start after : Pmu.Hart xlen) : Prop :=
  ∃ before, Pmu.Counted features start before ∧
    Pmu.Counted features (Pmu.pmuStateReset features before) after

/-- What holds at each place of a `hart_suspend`. -/
def CallInv (features : Pmu.HartFeatures) (entry : Entry xlen) (state : UInt8) (pmu : Pmu.Hart xlen)
    (sendFailed : Bool) : Pc H → Prop
  | .suspendClear _ | .suspendDeliver _ | .suspendStore _ =>
    sendFailed = false ∧ state = entry.state ∧ Pmu.Counted features entry.pmu pmu
  | .suspendWait _ | .resumeRetentive | .beginResume _ =>
    sendFailed = false ∧ state = stateSuspended ∧ Pmu.Counted features entry.pmu pmu
  | .resetCurrent => sendFailed = false ∧ Pmu.Counted features entry.pmu pmu
  | .commitSend => sendFailed = false ∧ WasReset features entry.pmu pmu
  | .commitMark | .commitStore => True
  | .ticketDrop => sendFailed = true ∧ WasReset features entry.pmu pmu
  | .takeTransfer ret => (∃ value, ret = .success value) ∨
      (sendFailed = false ∧ state = entry.state ∧ Pmu.Counted features entry.pmu pmu) ∨
      (sendFailed = true ∧ state = stateSuspended ∧ WasReset features entry.pmu pmu)
  | _ => False

structure PmuMachine.Inv [DecidableEq H] (features : H → Pmu.HartFeatures) (m : PmuMachine xlen H) :
    Prop where
  handoff : m.harts.HandoffInv
  calls : ∀ h entry, m.entry h = some entry →
    CallInv (features h) entry (m.harts.cell h).state (m.pmus h) (m.sendFailed h) (m.harts.pc h)

section Invariant

variable [DecidableEq H] {features : H → Pmu.HartFeatures} {sbiPmu : Pmu.SbiPmu}
  {m m' : PmuMachine xlen H} {h : H}

omit [DecidableEq H] in
/-- A hart in a `hart_suspend` is in a part of the code in which its cell is its own. -/
theorem CallInv.region {features : Pmu.HartFeatures} {entry : Entry xlen} {state : UInt8}
    {pmu : Pmu.Hart xlen} {sendFailed : Bool} {pc : Pc H}
    (h : CallInv features entry state pmu sendFailed pc) : pc.region = .running := by
  cases pc <;> first | rfl | exact h.elim

omit [DecidableEq H] in
theorem CallInv.count {features : Pmu.HartFeatures} {entry : Entry xlen} {state : UInt8}
    {pmu pmu' : Pmu.Hart xlen} {sendFailed : Bool} {pc : Pc H}
    (h : CallInv features entry state pmu sendFailed pc) (hcounts : Pmu.Counts features pmu pmu') :
    CallInv features entry state pmu' sendFailed pc := by
  have hcounted : Pmu.Counted features entry.pmu pmu → Pmu.Counted features entry.pmu pmu' :=
    fun h => h.tail hcounts
  have hreset : WasReset features entry.pmu pmu → WasReset features entry.pmu pmu' := by
    rintro ⟨before, hbefore, hafter⟩
    exact ⟨before, hbefore, hafter.tail hcounts⟩
  cases pc with
  | suspendClear | suspendDeliver | suspendStore => exact ⟨h.1, h.2.1, hcounted h.2.2⟩
  | suspendWait | resumeRetentive | beginResume => exact ⟨h.1, h.2.1, hcounted h.2.2⟩
  | resetCurrent => exact ⟨h.1, hcounted h.2⟩
  | commitSend | ticketDrop => exact ⟨h.1, hreset h.2⟩
  | commitMark | commitStore => trivial
  | takeTransfer ret =>
    rcases h with hsuccess | ⟨hsent, hstate, h⟩ | ⟨hsent, hstate, h⟩
    · exact .inl hsuccess
    · exact .inr (.inl ⟨hsent, hstate, hcounted h⟩)
    · exact .inr (.inr ⟨hsent, hstate, hreset h⟩)
  | _ => exact h.elim

@[simp] theorem PmuMachine.advance_harts (h : H) (choice : Choice H) (harts : System H) :
    (m.advance features h choice harts).harts = harts := by
  unfold PmuMachine.advance
  split <;> rfl

theorem PmuMachine.advance_other (features : H → Pmu.HartFeatures) {i : H} (hne : h ≠ i)
    (choice : Choice H) (harts : System H) :
    (m.advance features i choice harts).pmus h = m.pmus h ∧
      (m.advance features i choice harts).entry h = m.entry h ∧
      (m.advance features i choice harts).sendFailed h = m.sendFailed h := by
  unfold PmuMachine.advance
  split <;> simp only [Function.update_of_ne hne, and_self]

/-- A step of the hart goes on in its call. -/
theorem callInv_own {choice : Choice H} {harts : System H} {entry : Entry xlen}
    (hcalls : m.entry h = some entry → CallInv (features h) entry (m.harts.cell h).state (m.pmus h)
      (m.sendFailed h) (m.harts.pc h))
    (hstep : m.harts.Step (h, choice) harts)
    (hentry : (m.advance features h choice harts).entry h = some entry) :
    CallInv (features h) entry (harts.cell h).state ((m.advance features h choice harts).pmus h)
      ((m.advance features h choice harts).sendFailed h) (harts.pc h) := by
  have hbegun : m.entry h = some entry := by
    unfold PmuMachine.advance at hentry
    split at hentry
    next => exact hentry
    next => exact hentry
    next => simp only [Function.update_self, reduceCtorEq] at hentry
    next => exact hentry
  have hcall := hcalls hbegun
  unfold System.Step at hstep
  dsimp only at hstep
  unfold PmuMachine.advance at hentry ⊢
  generalize m.harts.pc h = pc at hstep hcall hentry ⊢
  cases pc with
  | suspendClear suspendType =>
    cases choice <;> cases hstep
    case proceed.refl => simpa [System.goto, System.setPending, CallInv] using hcall
    case fail.refl => simpa [System.goto, CallInv] using Or.inl hcall
  | suspendDeliver suspendType =>
    cases choice <;> cases hstep
    simpa [System.goto, CallInv] using hcall
  | suspendStore suspendType =>
    cases choice <;> cases hstep
    simpa [System.goto, System.store, CallInv] using And.intro hcall.1 hcall.2.2
  | suspendWait suspendType =>
    cases choice <;> cases hstep
    cases suspendType <;> simpa [System.goto, afterSuspend, CallInv] using hcall
  | resumeRetentive =>
    cases choice with
    | proceed =>
      simp only [System.step, if_pos hcall.2.1, Option.some.injEq] at hstep
      subst hstep
      simp [System.goto, System.store, CallInv]
    | _ => cases hstep
  | beginResume stage =>
    cases choice with
    | proceed =>
      simp only [System.step, if_pos hcall.2.1, Option.some.injEq] at hstep
      subst hstep
      simpa [System.goto, System.store, System.setTicket, CallInv] using And.intro hcall.1 hcall.2.2
    | _ => cases hstep
  | resetCurrent =>
    cases choice <;> cases hstep
    simp only [System.goto, Function.update_self]
    exact ⟨hcall.1, m.pmus h, hcall.2, .refl⟩
  | commitSend =>
    cases choice <;> cases hstep
    case proceed.refl => simp [System.goto, CallInv]
    case fail.refl => simpa [System.goto, CallInv] using hcall.2
  | commitMark =>
    cases choice <;> cases hstep
    simp [System.goto, CallInv]
  | commitStore =>
    cases choice <;> cases hstep
    simp [System.goto, CallInv]
  | ticketDrop =>
    cases choice <;> cases hstep
    simpa [System.goto, System.store, System.setTicket, CallInv] using Or.inr hcall
  | takeTransfer ret => simp only [Function.update_self, reduceCtorEq] at hentry
  | _ => exact hcall.elim

/-- A hart in a `hart_suspend` is left alone by the steps of the others. -/
theorem callInv_other {i : H} {choice : Choice H} {harts : System H} {entry : Entry xlen}
    (inv : m.Inv features) (hne : h ≠ i) (hstep : m.harts.Step (i, choice) harts)
    (hentry : (m.advance features i choice harts).entry h = some entry) :
    CallInv (features h) entry (harts.cell h).state ((m.advance features i choice harts).pmus h)
      ((m.advance features i choice harts).sendFailed h) (harts.pc h) := by
  obtain ⟨hpmu, hkept, hsent⟩ := m.advance_other features hne choice harts
  rw [hkept] at hentry
  have hcall := inv.calls h entry hentry
  have howner := inv.handoff.owner h
  rw [hcall.region] at howner
  have hphase : (m.harts.cell h).phase ≠ .idle := by
    rw [HartStateCell.Runs.phase_eq howner]
    exact Phase.noConfusion
  obtain ⟨hcell, hpc, -⟩ := step_frame inv.handoff hstep hne hphase
  rw [hpmu, hsent, hcell, hpc]
  exact hcall

theorem pmuMachineInv_enter (inv : m.Inv features) (hlower : m.harts.pc h = .lower)
    (suspendType : Except SbiRet SuspendType) : (m.enter h suspendType).Inv features := by
  have howner := inv.handoff.owner h
  rw [hlower] at howner
  constructor
  · cases suspendType <;> exact inv.handoff.move h _ rfl rfl rfl rfl howner
  · intro j entry hentry
    simp only [PmuMachine.enter, System.goto] at hentry ⊢
    by_cases hj : j = h
    · subst hj
      rw [Function.update_self, Option.some.injEq] at hentry
      subst hentry
      simp only [Function.update_self]
      cases suspendType with
      | ok suspendType => exact ⟨rfl, rfl, .refl⟩
      | error ret => exact .inr (.inl ⟨rfl, rfl, .refl⟩)
    · simp only [Function.update_of_ne hj] at hentry ⊢
      exact inv.calls j entry hentry

/-- A PMU that is changed outside of a call, or counts. -/
theorem pmuMachineInv_setPmu (inv : m.Inv features) {pmu : Pmu.Hart xlen}
    (hpmu : m.harts.pc h = .lower ∨ Pmu.Counts (features h) (m.pmus h) pmu) :
    (m.setPmu h pmu).Inv features := by
  refine ⟨inv.handoff, fun j entry hentry => ?_⟩
  have hcall := inv.calls j entry hentry
  simp only [PmuMachine.setPmu]
  by_cases hj : j = h
  · subst hj
    rw [Function.update_self]
    rcases hpmu with hlower | hcounts
    · rw [hlower] at hcall
      exact hcall.elim
    · exact hcall.count hcounts
  · rw [Function.update_of_ne hj]
    exact hcall

theorem pmuMachineInv_initial {bootHart : H} (hinit : m.Initial features bootHart) : m.Inv features where
  handoff := handoffInv_initial hinit.1
  calls := fun h entry hentry => by
    rw [hinit.2.2 h] at hentry
    cases hentry

theorem pmuMachineInv_step (inv : m.Inv features) {action : PmuAction xlen H}
    (hstep : PmuMachine.Step features sbiPmu m action m') : m'.Inv features := by
  cases hstep with
  | @hart i choice harts hother hstep =>
    constructor
    · rw [PmuMachine.advance_harts]
      exact handoffInv_step inv.handoff hstep
    · intro h entry hentry
      rw [PmuMachine.advance_harts]
      by_cases hi : h = i
      · subst hi
        exact callInv_own (inv.calls h entry) hstep hentry
      · exact callInv_other inv hi hstep hentry
  | suspend suspendType resumeAddr opaqueValue hlower => exact pmuMachineInv_enter inv hlower _
  | call hlower hrun => exact pmuMachineInv_setPmu inv (.inl hlower)
  | count hcounts => exact pmuMachineInv_setPmu inv (.inr hcounts)

theorem pmuMachineInv_of_reachable {bootHart : H}
    (hreach : Reachable (PmuMachine.Initial features bootHart) (PmuMachine.Step features sbiPmu) m) :
    m.Inv features :=
  hreach.invariant (fun _ => pmuMachineInv_initial) fun _ _ _ inv hstep => pmuMachineInv_step inv hstep

end Invariant

/-! ## Atomicity -/

variable [DecidableEq H]

/-- In every run, a `hart_suspend` about to return an error has left the lifecycle state and the PMU
as the call found them, up to what was counted, exactly when its resume ticket did not fail to send,
or the cell was suspended before and the PMU as a reset leaves it. -/
theorem suspend_atomic_iff (features : H → Pmu.HartFeatures) (sbiPmu : Pmu.SbiPmu) (bootHart : H)
    {m : PmuMachine xlen H}
    (hreach : Reachable (PmuMachine.Initial features bootHart) (PmuMachine.Step features sbiPmu) m) {h : H}
    {entry : Entry xlen} {ret : SbiRet} (hentry : m.entry h = some entry)
    (hpc : m.harts.pc h = .takeTransfer ret) (herror : ∀ value, ret ≠ .success value) :
    m.Atomic features h entry ↔
      (m.sendFailed h = true →
        entry.state = stateSuspended ∧ entry.pmu.IsReset (features h)) := by
  have hcall := (pmuMachineInv_of_reachable hreach).calls h entry hentry
  rw [hpc] at hcall
  rcases hcall with ⟨value, hsuccess⟩ | ⟨hsent, hstate, hcounted⟩ |
    ⟨hsent, hstate, before, hbefore, hafter⟩
  · exact absurd hsuccess (herror value)
  · have hnotSent : ¬ m.sendFailed h = true := by
      rw [hsent]
      exact Bool.false_ne_true
    exact iff_of_true ⟨hstate, hcounted⟩ (absurd · hnotSent)
  · rw [PmuMachine.Atomic, hstate, Pmu.counted_reset_iff hbefore hafter]
    exact ⟨fun ⟨hentered, hreset⟩ _ => ⟨hentered.symm, hreset⟩,
      fun hcondition => ⟨(hcondition hsent).1.symm, (hcondition hsent).2⟩⟩

/-- Steps of the lifecycle, one after another. -/
def PmuMachine.exec (features : H → Pmu.HartFeatures) (m : PmuMachine xlen H)
    (labels : List (H × Choice H)) : Option (PmuMachine xlen H) :=
  labels.foldlM (fun m label => (m.harts.step label.1 (m.harts.pc label.1) label.2).map
    (m.advance features label.1 label.2)) m

theorem PmuMachine.run_of_exec {features : H → Pmu.HartFeatures} (sbiPmu : Pmu.SbiPmu)
    {labels : List (H × Choice H)}
    (hother : ∀ label ∈ labels, ∀ suspendType, label.2 ≠ .hartSuspend suspendType)
    {m m' : PmuMachine xlen H} (hexec : m.exec features labels = some m') :
    Run (PmuMachine.Step features sbiPmu) m (labels.map fun label => .hart label.1 label.2) m' := by
  induction labels generalizing m with
  | nil =>
    cases hexec
    exact .nil _
  | cons label rest ih =>
    rw [PmuMachine.exec, List.foldlM_cons, Option.bind_eq_bind, Option.bind_eq_some_iff] at hexec
    obtain ⟨m₁, hfirst, hrest⟩ := hexec
    obtain ⟨harts, hstep, rfl⟩ := Option.map_eq_some_iff.mp hfirst
    exact .cons (.hart (hother label List.mem_cons_self) hstep)
      (ih (fun label hmem => hother label (List.mem_cons_of_mem _ hmem)) hrest)

/-- A hart with mcountinhibit and no other counters than the fixed ones. -/
def fixedCounters : Pmu.HartFeatures := ⟨.version1_12, 0⟩

/-- One hart at boot, with its PMU. -/
def onePmuMachine : PmuMachine .rv64 Unit where
  harts := oneHart
  pmus := fun _ => Pmu.boot fixedCounters ⟨0, fun _ => 0, fun _ => 7⟩
  entry := fun _ => none
  sendFailed := fun _ => false

/-- The hart starts, and suspends itself for a non-retentive resume. -/
theorem onePmuMachine_reachable (sbiPmu : Pmu.SbiPmu) {labels : List (Unit × Choice Unit)}
    {lower m : PmuMachine .rv64 Unit}
    (hstarts : onePmuMachine.exec (fun _ => fixedCounters) (List.replicate 9 ((), .proceed)) =
      some lower)
    (hlower : lower.harts.pc () = .lower)
    (hlabels : ∀ label ∈ labels, ∀ suspendType, label.2 ≠ .hartSuspend suspendType)
    (hexec : (lower.enter () (hartSuspend 0x80000000 0x80300000 2)).exec (fun _ => fixedCounters)
      labels = some m) :
    Reachable (PmuMachine.Initial (fun _ => fixedCounters) ())
      (PmuMachine.Step (fun _ => fixedCounters) sbiPmu) m := by
  have hboot : ∀ label ∈ List.replicate 9 ((), Choice.proceed), ∀ suspendType,
      label.2 ≠ Choice.hartSuspend (H := Unit) suspendType := by
    simp
  exact ⟨onePmuMachine, _, ⟨oneHart_initial, fun _ => ⟨_, rfl⟩, fun _ => rfl⟩,
    (PmuMachine.run_of_exec sbiPmu hboot hstarts).append
      (.cons (.suspend 0x80000000 0x80300000 2 hlower) (PmuMachine.run_of_exec sbiPmu hlabels hexec))⟩

set_option maxRecDepth 4000 in
/-- A `hart_suspend` that fails to clear the wake interrupt leaves the hart as it found it. -/
theorem suspend_atomic_iff_one_hart :
    ∃ (m : PmuMachine .rv64 Unit) (entry : Entry .rv64),
      Reachable (PmuMachine.Initial (fun _ => fixedCounters) ())
        (PmuMachine.Step (fun _ => fixedCounters) ⟨none, none, none⟩) m ∧
      m.entry () = some entry ∧ m.harts.pc () = .takeTransfer .failed ∧
      m.Atomic (fun _ => fixedCounters) () entry := by
  obtain ⟨lower, m, entry, hstarts, hlower, hfails, hentry, hpc, hsent⟩ : ∃ lower m entry,
      onePmuMachine.exec (fun _ => fixedCounters) (List.replicate 9 ((), Choice.proceed)) = some lower ∧
        lower.harts.pc () = .lower ∧
        (lower.enter () (hartSuspend 0x80000000 0x80300000 2)).exec (fun _ => fixedCounters)
          [((), .fail)] = some m ∧
        m.entry () = some entry ∧ m.harts.pc () = .takeTransfer .failed ∧ m.sendFailed () = false :=
    ⟨_, _, _, rfl, rfl, rfl, rfl, rfl, rfl⟩
  have hreach := onePmuMachine_reachable ⟨none, none, none⟩ hstarts hlower (by simp) hfails
  refine ⟨m, entry, hreach, hentry, hpc, ?_⟩
  refine (suspend_atomic_iff _ ⟨none, none, none⟩ () hreach hentry hpc nofun).mpr ?_
  rw [hsent]
  exact fun hfailed => absurd hfailed Bool.false_ne_true

set_option maxRecDepth 4000 in
/-- The resume ticket of the started hart cannot send. -/
theorem onePmuMachine_fails (sbiPmu : Pmu.SbiPmu) :
    ∃ (m : PmuMachine .rv64 Unit) (entry : Entry .rv64),
      Reachable (PmuMachine.Initial (fun _ => fixedCounters) ())
        (PmuMachine.Step (fun _ => fixedCounters) sbiPmu) m ∧
      m.entry () = some entry ∧ m.harts.pc () = .takeTransfer .failed ∧
      entry.state = stateStarted ∧ (m.harts.cell ()).state = stateSuspended := by
  obtain ⟨lower, m, entry, hstarts, hlower, hfails, hstate⟩ : ∃ lower m entry,
      onePmuMachine.exec (fun _ => fixedCounters) (List.replicate 9 ((), Choice.proceed)) = some lower ∧
        lower.harts.pc () = .lower ∧
        (lower.enter () (hartSuspend 0x80000000 0x80300000 2)).exec (fun _ => fixedCounters)
          (List.replicate 6 ((), Choice.proceed) ++ [((), .fail), ((), .proceed)]) = some m ∧
        m.entry () = some entry ∧ m.harts.pc () = .takeTransfer .failed ∧
        entry.state = stateStarted ∧ (m.harts.cell ()).state = stateSuspended :=
    ⟨_, _, _, rfl, rfl, rfl, rfl, rfl, rfl, rfl⟩
  exact ⟨m, entry, onePmuMachine_reachable sbiPmu hstarts hlower (by simp) hfails, hstate⟩

/-- A `hart_suspend` that fails and leaves the started hart suspended. -/
theorem suspend_failure_suspends :
    ∃ (m : PmuMachine .rv64 Unit) (entry : Entry .rv64),
      Reachable (PmuMachine.Initial (fun _ => fixedCounters) ())
        (PmuMachine.Step (fun _ => fixedCounters) ⟨none, none, none⟩) m ∧
      m.entry () = some entry ∧ m.harts.pc () = .takeTransfer .failed ∧
      ¬ m.Atomic (fun _ => fixedCounters) () entry := by
  obtain ⟨m, entry, hreach, hentry, hpc, hstarted, hsuspended⟩ :=
    onePmuMachine_fails ⟨none, none, none⟩
  refine ⟨m, entry, hreach, hentry, hpc, ?_⟩
  rintro ⟨hstate, -⟩
  rw [hstarted, hsuspended] at hstate
  exact absurd hstate (by decide)

end RustSbi.Hart
