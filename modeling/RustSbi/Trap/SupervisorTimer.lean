import RustSbi.Driver.TimerDevice
import RustSbi.Lib.Transition

/-!
The supervisor timer as a system: `set_timer` of `sbi/timer.rs`, the locked
`TimerDevice` of `driver/timer.rs`, the machine timer transport of
`trap/dispatch.rs`, and the boot, stop and start of harts around them. Every
register write of a hart is a step of its own, so the counter ticks and the
other harts run between any two of them. In every reachable state the
supervisor's timer interrupt is pending only when the deadline it asked for is
over, and once it is over the interrupt is pending or the trap that raises it
is about to be taken.
-/

namespace RustSbi.Trap

open Driver Transition

/-! ## The machine -/

/-- The platform when its devices are published. -/
structure Platform (H : Type) where
  xlen : Xlen
  backend : TimerBackend
  /-- `has_sstc`, as each hart probes it when it activates traps. -/
  hasSstc : H → Bool
  /-- `select_imsic` selects the `SstcTimer` only when every hart has Sstc. -/
  sstcBackend : backend = .sstc → ∀ h, hasSstc h = true

/-- The callers of `TimerDevice::set_timer`: `enable_supervisor_services`, the
TIME extension and `acknowledge_current`. -/
inductive Caller
  | boot
  | setTimer
  | acknowledge
  deriving DecidableEq, Repr

/-- The next atomic step of a hart. -/
inductive Pc
  /-- Out of reset, before `enable_supervisor_services`. -/
  | reset
  /-- `TimerDevice::set_timer`: take the lock, write the compare value, release the lock. -/
  | lock (caller : Caller) (value : BitVec 64)
  | write (caller : Caller) (value : BitVec 64) (writes : List CompareWrite)
  | unlock (caller : Caller)
  /-- The `u64::MAX` branch of `SstcTimer::set_timer`. -/
  | sstcClearStip (caller : Caller)
  | sstcClearMtie (caller : Caller)
  /-- `SbiTimer::set_timer` without Sstc, after the device. -/
  | clearStip
  | setMtie
  /-- `SbiTimer::set_timer` with Sstc. -/
  | writeStimecmp (writes : List CompareWrite)
  /-- `machine_timer`. -/
  | clearMtie
  | acknowledge
  | setStip
  /-- The boot finisher, which waits for a staged next stage. -/
  | parked
  /-- `stage_next_mode`. -/
  | stageNextMode
  /-- Below M-mode. -/
  | lower
  deriving Repr

/-- The timer state of a hart. -/
structure Cpu where
  pc : Pc
  /-- `mie.MTIE`. -/
  mtie : Bool
  /-- `mip.STIP`, where Sstc does not drive it. -/
  stip : Bool
  /-- The hart's compare register of the timer device. -/
  compare : BitVec 64
  stimecmp : BitVec 64
  /-- The deadline that the supervisor asked for last, for stating properties:
  no step reads it. -/
  deadline : Option (BitVec 64)

/-- All harts, the counter, and the holder of `TimerDevice::programming`. -/
structure System (H : Type) where
  mtime : Nat
  programming : Option H
  hart : H → Cpu

/-- What the supervisor and the platform decide at a step. -/
inductive Choice
  | proceed
  | setTimer (value : BitVec 64)
  | writeStimecmp (value : BitVec 64)
  | timerInterrupt
  | stop
  | start
  | hardwareReset (stip : Bool) (compare stimecmp : BitVec 64)
  deriving Repr

variable {H : Type}

/-- The deadline is over. -/
def Due (mtime : Nat) (value : BitVec 64) : Prop := value.toNat ≤ mtime

instance (mtime : Nat) (value : BitVec 64) : Decidable (Due mtime value) :=
  inferInstanceAs (Decidable (_ ≤ _))

theorem Due.mono {mtime mtime' : Nat} {value : BitVec 64} (hle : mtime ≤ mtime')
    (hdue : Due mtime value) : Due mtime' value :=
  Nat.le_trans hdue hle

namespace Platform

variable (p : Platform H)

/-- `sip.STIP` as the supervisor reads it. -/
def supervisorTimerPending (h : H) (mtime : Nat) (c : Cpu) : Bool :=
  if p.hasSstc h then decide (Due mtime c.stimecmp) else c.stip

/-- The machine timer interrupt is pending and enabled. -/
def machineTimerPending (mtime : Nat) (c : Cpu) : Bool :=
  c.mtie && decide (Due mtime c.compare)

/-! ## Steps -/

/-- Where a hart goes on when the lock guard is dropped. -/
def afterUnlock : Caller → Pc
  | .boot => .parked
  | .setTimer => .clearStip
  | .acknowledge => .setStip

/-- Where a hart goes on when `TimerBackend::set_timer` has made its writes. -/
def afterBackend (caller : Caller) (value : BitVec 64) : Pc :=
  if p.backend = .sstc ∧ value = BitVec.allOnes 64 then .sstcClearStip caller else .unlock caller

theorem afterBackend_cases (caller : Caller) (value : BitVec 64) :
    p.afterBackend caller value = .sstcClearStip caller ∨ p.afterBackend caller value = .unlock caller := by
  unfold afterBackend
  split
  next => exact .inl rfl
  next => exact .inr rfl

/-- One register write of `TimerBackend::set_timer` for the current hart. -/
def performWrite (c : Cpu) (write : CompareWrite) : Cpu :=
  match p.backend with
  | .sstc => { c with stimecmp := write.apply c.stimecmp }
  | _ => { c with compare := write.apply c.compare }

/-- Where a call of `SbiTimer::set_timer` begins. -/
def setTimerEntry (h : H) (value : BitVec 64) : Pc :=
  if p.hasSstc h then .writeStimecmp (stimecmpWrites p.xlen value) else .lock .setTimer value

/-- The M-mode code of hart `h`, where it uses nothing but the hart's registers. -/
def proceed (h : H) (c : Cpu) : Pc → Option Cpu
  | .reset => some { c with pc := .lock .boot (BitVec.allOnes 64) }
  | .write caller value (write :: writes) =>
    some { p.performWrite c write with pc := .write caller value writes }
  | .write caller value [] => some { c with pc := p.afterBackend caller value }
  | .sstcClearStip caller => some { c with stip := false, pc := .sstcClearMtie caller }
  | .sstcClearMtie caller => some { c with mtie := false, pc := .unlock caller }
  | .clearStip => some { c with stip := false, pc := .setMtie }
  | .setMtie => some { c with mtie := true, pc := .lower }
  | .writeStimecmp (write :: writes) =>
    some { c with stimecmp := write.apply c.stimecmp, pc := .writeStimecmp writes }
  | .writeStimecmp [] => some { c with pc := .lower }
  | .clearMtie => some { c with mtie := false, pc := if p.hasSstc h then .lower else .acknowledge }
  | .acknowledge =>
    some { c with
      pc := if p.backend.clearOnInterrupt then .lock .acknowledge (BitVec.allOnes 64) else .setStip }
  | .setStip => some { c with stip := true, pc := .lower }
  | .stageNextMode => some { c with mtie := if p.hasSstc h then c.mtie else true, pc := .lower }
  | .lock _ _ | .unlock _ | .parked | .lower => none

/-- What the supervisor decides below M-mode, and the interrupt that may take it out. -/
def lowerStep (h : H) (mtime : Nat) (c : Cpu) : Choice → Option Cpu
  | .setTimer value => some { c with pc := p.setTimerEntry h value, deadline := some value }
  | .writeStimecmp value =>
    if p.hasSstc h then some { c with stimecmp := value, deadline := some value } else none
  | .timerInterrupt =>
    if machineTimerPending mtime c then some { c with pc := .clearMtie } else none
  | .stop => some { c with pc := .parked }
  | _ => none

/-- What happens to a parked hart. -/
def parkedStep (c : Cpu) : Choice → Option Cpu
  | .start => some { c with pc := .stageNextMode }
  | .hardwareReset stip compare stimecmp => some ⟨.reset, false, stip, compare, stimecmp, none⟩
  | _ => none

/-- The steps of hart `h` that use nothing but its own registers. -/
def ownStep (h : H) (mtime : Nat) (c : Cpu) (choice : Choice) : Option Cpu :=
  match c.pc, choice with
  | .lower, choice => p.lowerStep h mtime c choice
  | .parked, choice => parkedStep c choice
  | pc, .proceed => p.proceed h c pc
  | _, _ => none

variable {p}

theorem ownStep_cases {h : H} {mtime : Nat} {c c' : Cpu} {choice : Choice}
    (hstep : p.ownStep h mtime c choice = some c') :
    (c.pc = .lower ∧ p.lowerStep h mtime c choice = some c') ∨
    (c.pc = .parked ∧ parkedStep c choice = some c') ∨ p.proceed h c c.pc = some c' := by
  unfold ownStep at hstep
  split at hstep
  next hpc => exact .inl ⟨hpc, hstep⟩
  next hpc => exact .inr (.inl ⟨hpc, hstep⟩)
  next => exact .inr (.inr hstep)
  next => cases hstep

theorem parkedStep_cases {c c' : Cpu} {choice : Choice} (hstep : parkedStep c choice = some c') :
    c' = { c with pc := .stageNextMode } ∨
    (c'.pc = .reset ∧ c'.mtie = false ∧ c'.deadline = none) := by
  unfold parkedStep at hstep
  split at hstep
  next => exact .inl (Option.some.inj hstep).symm
  next => cases hstep; exact .inr ⟨rfl, rfl, rfl⟩
  next => cases hstep

/-- A compare write leaves the interrupt bits and the deadline alone. -/
theorem performWrite_frame (c : Cpu) (write : CompareWrite) :
    (p.performWrite c write).mtie = c.mtie ∧ (p.performWrite c write).deadline = c.deadline := by
  unfold performWrite
  split <;> exact ⟨rfl, rfl⟩

/-- Only the supervisor sets a deadline. -/
theorem deadline_of_proceed {h : H} {c c' : Cpu} (hstep : p.proceed h c c.pc = some c') :
    c'.deadline = c.deadline := by
  unfold proceed at hstep
  split at hstep
  case h_2 => cases hstep; exact (performWrite_frame c _).2
  all_goals cases hstep <;> rfl

variable (p)

/-! ## One deadline -/

/-- The compare register holds the deadline `d`, or the steps at hand leave it
there, and no interrupt stays signalled. -/
def Carries (d : BitVec 64) (c : Cpu) : Prop :=
  match c.pc with
  | .lock .setTimer value => value = d
  | .write .setTimer _ writes => afterWrites c.compare writes = d
  | .unlock .setTimer => c.compare = d
  | .clearStip => c.compare = d
  | .setMtie => c.compare = d ∧ c.stip = false
  | .parked => c.compare = d ∧ c.stip = false
  | .stageNextMode => c.compare = d ∧ c.stip = false
  | .lower => c.mtie = true ∧ c.compare = d ∧ c.stip = false
  | _ => False

/-- The supervisor's interrupt is signalled, or `machine_timer` is about to signal it. -/
def Raised (c : Cpu) : Prop :=
  match c.pc with
  | .lock .acknowledge _ => True
  | .write .acknowledge _ _ => True
  | .unlock .acknowledge => True
  | .clearMtie => True
  | .acknowledge => True
  | .setStip => True
  | .parked => c.stip = true
  | .stageNextMode => c.stip = true
  | .lower => c.stip = true
  | _ => False

/-- What holds of a hart without Sstc after its supervisor asked for `d`. -/
def Armed (mtime : Nat) (d : BitVec 64) (c : Cpu) : Prop :=
  Carries d c ∨ (Raised c ∧ Due mtime d)

/-- What holds of a hart with Sstc after its supervisor asked for `d`. -/
def ArmedSstc (d : BitVec 64) (c : Cpu) : Prop :=
  match c.pc with
  | .writeStimecmp writes => afterWrites c.stimecmp writes = d
  | .parked => c.stimecmp = d
  | .stageNextMode => c.stimecmp = d
  | .lower => c.stimecmp = d
  | _ => False

/-- A hart with Sstc takes no machine timer interrupt and programs the device
only when it boots. -/
def SstcQuiet (c : Cpu) : Prop :=
  c.mtie = false ∧
    match c.pc with
    | .lock caller _ => caller = .boot
    | .write caller _ _ => caller = .boot
    | .unlock caller => caller = .boot
    | .sstcClearStip caller => caller = .boot
    | .sstcClearMtie caller => caller = .boot
    | .reset => True
    | .writeStimecmp _ => True
    | .parked => True
    | .stageNextMode => True
    | .lower => True
    | _ => False

/-- The invariant of one hart. -/
def Keeps (h : H) (mtime : Nat) (c : Cpu) : Prop :=
  if p.hasSstc h then SstcQuiet c ∧ ∀ d, c.deadline = some d → ArmedSstc d c
  else ∀ d, c.deadline = some d → Armed mtime d c

variable {p}

/-- Time only brings deadlines closer. -/
theorem Armed.mono {mtime mtime' : Nat} {d : BitVec 64} {c : Cpu} (hle : mtime ≤ mtime')
    (h : Armed mtime d c) : Armed mtime' d c :=
  h.imp_right fun h => ⟨h.1, h.2.mono hle⟩

theorem Keeps.mono {h : H} {mtime mtime' : Nat} {c : Cpu} (hle : mtime ≤ mtime')
    (hkeep : p.Keeps h mtime c) : p.Keeps h mtime' c := by
  unfold Keeps at hkeep ⊢
  split at hkeep
  next hsstc => rwa [if_pos hsstc]
  next hsstc =>
    rw [if_neg hsstc]
    exact fun d hd => (hkeep d hd).mono hle

/-- An armed hart whose machine timer interrupt is pending is due: the compare
register holds the deadline unless the interrupt was raised before. -/
theorem Armed.due {mtime : Nat} {d : BitVec 64} {c : Cpu} (harmed : Armed mtime d c)
    (hpc : c.pc = .lower) (hpending : machineTimerPending mtime c = true) : Due mtime d := by
  obtain hcarries | ⟨-, hdue⟩ := harmed
  · simp only [Carries, hpc] at hcarries
    simp only [machineTimerPending, Bool.and_eq_true, decide_eq_true_eq] at hpending
    exact hcarries.2.1 ▸ hpending.2
  · exact hdue

/-- Without Sstc the device is not the `SstcTimer`, so its writes go to the compare register. -/
theorem performWrite_of_not_sstc {h : H} (hsstc : p.hasSstc h = false) (c : Cpu)
    (write : CompareWrite) : p.performWrite c write = { c with compare := write.apply c.compare } := by
  have hne : p.backend ≠ .sstc := fun h' => by simp [p.sstcBackend h' h] at hsstc
  unfold performWrite
  split
  next h' => exact absurd h' hne
  next => rfl

theorem afterBackend_of_not_sstc {h : H} (hsstc : p.hasSstc h = false) (caller : Caller)
    (value : BitVec 64) : p.afterBackend caller value = .unlock caller := by
  refine if_neg fun h' => ?_
  simp [p.sstcBackend h'.1 h] at hsstc

/-- M-mode code keeps a hart without Sstc armed: a call of `set_timer` writes the
deadline before it clears the pending bit, and `machine_timer`, which runs once
the deadline is over, sets the bit after it may have cancelled the register. -/
theorem Armed.proceed {h : H} {mtime : Nat} {d : BitVec 64} {c c' : Cpu}
    (hsstc : p.hasSstc h = false) (hstep : p.proceed h c c.pc = some c')
    (harmed : Armed mtime d c) : Armed mtime d c' := by
  unfold Platform.proceed at hstep
  split at hstep
  case h_1 hpc => simp [Armed, Carries, Raised, hpc] at harmed
  case h_2 caller value write writes hpc =>
    cases hstep
    rw [performWrite_of_not_sstc hsstc]
    cases caller <;> simp_all [Armed, Carries, Raised]
  case h_3 caller value hpc =>
    cases hstep
    rw [afterBackend_of_not_sstc hsstc]
    cases caller <;> simp_all [Armed, Carries, Raised]
  case h_4 caller hpc => simp [Armed, Carries, Raised, hpc] at harmed
  case h_5 caller hpc => simp [Armed, Carries, Raised, hpc] at harmed
  case h_6 hpc =>
    cases hstep
    simpa [Armed, Carries, Raised, hpc] using harmed
  case h_7 hpc =>
    cases hstep
    have hheld : c.compare = d ∧ c.stip = false := by
      simpa [Armed, Carries, Raised, hpc] using harmed
    exact .inl ⟨rfl, hheld⟩
  case h_8 write writes hpc => simp [Armed, Carries, Raised, hpc] at harmed
  case h_9 hpc => simp [Armed, Carries, Raised, hpc] at harmed
  case h_10 hpc =>
    cases hstep
    simpa [Armed, Carries, Raised, hpc, hsstc] using harmed
  case h_11 hpc =>
    cases hstep
    have hdue : Due mtime d := by simpa [Armed, Carries, Raised, hpc] using harmed
    -- A PLMT keeps its compare register; the others are cancelled first.
    cases hcancel : p.backend.clearOnInterrupt <;> simpa [Armed, Carries, Raised, hcancel] using hdue
  case h_12 hpc =>
    cases hstep
    simpa [Armed, Carries, Raised, hpc] using harmed
  case h_13 hpc =>
    cases hstep
    simpa [Armed, Carries, Raised, hpc, hsstc] using harmed
  all_goals cases hstep

/-- So do the choices below M-mode, but for those that ask for another deadline. -/
theorem Armed.lowerStep {h : H} {mtime : Nat} {c c' : Cpu} {choice : Choice}
    (hsstc : p.hasSstc h = false) (hpc : c.pc = .lower)
    (hstep : p.lowerStep h mtime c choice = some c')
    (harmed : ∀ d, c.deadline = some d → Armed mtime d c) :
    ∀ d, c'.deadline = some d → Armed mtime d c' := by
  intro d hd
  cases choice with
  | setTimer value =>
    cases hstep
    simpa [Armed, Carries, Raised, setTimerEntry, hsstc] using hd
  | writeStimecmp value => simp [Platform.lowerStep, hsstc] at hstep
  | timerInterrupt =>
    simp only [Platform.lowerStep, Option.ite_none_right_eq_some] at hstep
    obtain ⟨hpending, hstep⟩ := hstep
    cases hstep
    exact .inr ⟨trivial, (harmed d hd).due hpc hpending⟩
  | stop =>
    cases hstep
    have h := harmed d hd
    simp only [Armed, Carries, Raised, hpc] at h
    exact h.imp_left And.right
  | proceed | start | hardwareReset => simp [Platform.lowerStep] at hstep

theorem Armed.ownStep {h : H} {mtime : Nat} {c c' : Cpu} {choice : Choice}
    (hsstc : p.hasSstc h = false) (hstep : p.ownStep h mtime c choice = some c')
    (harmed : ∀ d, c.deadline = some d → Armed mtime d c) :
    ∀ d, c'.deadline = some d → Armed mtime d c' := by
  obtain ⟨hpc, hlower⟩ | ⟨hpc, hparked⟩ | hproceed := ownStep_cases hstep
  · exact Armed.lowerStep hsstc hpc hlower harmed
  · intro d hd
    obtain rfl | ⟨-, -, hnone⟩ := parkedStep_cases hparked
    · have h := harmed d hd
      simpa only [Armed, Carries, Raised, hpc] using h
    · cases hnone.symm.trans hd
  · intro d hd
    exact Armed.proceed hsstc hproceed (harmed d (deadline_of_proceed hproceed ▸ hd))

/-- With Sstc, M-mode code never enables the machine timer interrupt. -/
theorem SstcQuiet.proceed {h : H} {c c' : Cpu} (hsstc : p.hasSstc h = true)
    (hstep : p.proceed h c c.pc = some c') (hquiet : SstcQuiet c) : SstcQuiet c' := by
  obtain ⟨hmtie, hpath⟩ := hquiet
  unfold Platform.proceed at hstep
  split at hstep
  case h_1 => cases hstep; exact ⟨hmtie, rfl⟩
  case h_2 caller value write writes hpc =>
    cases hstep
    have hboot : caller = .boot := by simpa only [hpc] using hpath
    exact ⟨(performWrite_frame c write).1.trans hmtie, hboot⟩
  case h_3 caller value hpc =>
    cases hstep
    have hboot : caller = .boot := by simpa only [hpc] using hpath
    refine ⟨hmtie, ?_⟩
    obtain heq | heq := p.afterBackend_cases caller value <;> simpa only [heq] using hboot
  case h_4 caller hpc =>
    cases hstep
    exact ⟨hmtie, by simpa only [hpc] using hpath⟩
  case h_5 caller hpc =>
    cases hstep
    exact ⟨rfl, by simpa only [hpc] using hpath⟩
  case h_8 => cases hstep; exact ⟨hmtie, trivial⟩
  case h_9 => cases hstep; exact ⟨hmtie, trivial⟩
  case h_13 => cases hstep; exact ⟨by simpa only [hsstc, if_true] using hmtie, trivial⟩
  case h_14 | h_15 | h_16 | h_17 => cases hstep
  all_goals simp only [‹c.pc = _›] at hpath

theorem ArmedSstc.proceed {h : H} {d : BitVec 64} {c c' : Cpu}
    (hstep : p.proceed h c c.pc = some c') (harmed : ArmedSstc d c) : ArmedSstc d c' := by
  unfold Platform.proceed at hstep
  split at hstep
  case h_8 write writes hpc =>
    cases hstep
    simpa [ArmedSstc, hpc] using harmed
  case h_9 hpc =>
    cases hstep
    simpa [ArmedSstc, hpc] using harmed
  case h_13 hpc =>
    cases hstep
    simpa [ArmedSstc, hpc] using harmed
  case h_14 | h_15 | h_16 | h_17 => cases hstep
  all_goals simp only [ArmedSstc, ‹c.pc = _›] at harmed

theorem ArmedSstc.lowerStep {h : H} {mtime : Nat} {c c' : Cpu} {choice : Choice}
    (hsstc : p.hasSstc h = true) (hpc : c.pc = .lower)
    (hstep : p.lowerStep h mtime c choice = some c') (hquiet : SstcQuiet c)
    (harmed : ∀ d, c.deadline = some d → ArmedSstc d c) :
    SstcQuiet c' ∧ ∀ d, c'.deadline = some d → ArmedSstc d c' := by
  obtain ⟨hmtie, -⟩ := hquiet
  cases choice with
  | setTimer value =>
    simp only [Platform.lowerStep, setTimerEntry, hsstc, if_true] at hstep
    cases hstep
    refine ⟨⟨hmtie, trivial⟩, fun d hd => ?_⟩
    cases hd
    exact afterWrites_stimecmpWrites p.xlen c.stimecmp value
  | writeStimecmp value =>
    simp only [Platform.lowerStep, hsstc, if_true] at hstep
    cases hstep
    refine ⟨⟨hmtie, by simp only [hpc]⟩, fun d hd => ?_⟩
    cases hd
    simp only [ArmedSstc, hpc]
  | timerInterrupt => simp [Platform.lowerStep, machineTimerPending, hmtie] at hstep
  | stop =>
    cases hstep
    refine ⟨⟨hmtie, trivial⟩, fun d hd => ?_⟩
    simpa only [ArmedSstc, hpc] using harmed d hd
  | proceed | start | hardwareReset => simp [Platform.lowerStep] at hstep

theorem ArmedSstc.ownStep {h : H} {mtime : Nat} {c c' : Cpu} {choice : Choice}
    (hsstc : p.hasSstc h = true) (hstep : p.ownStep h mtime c choice = some c')
    (hquiet : SstcQuiet c) (harmed : ∀ d, c.deadline = some d → ArmedSstc d c) :
    SstcQuiet c' ∧ ∀ d, c'.deadline = some d → ArmedSstc d c' := by
  obtain ⟨hpc, hlower⟩ | ⟨hpc, hparked⟩ | hproceed := ownStep_cases hstep
  · exact ArmedSstc.lowerStep hsstc hpc hlower hquiet harmed
  · obtain rfl | ⟨hreset, hmtie, hnone⟩ := parkedStep_cases hparked
    · refine ⟨⟨hquiet.1, trivial⟩, fun d hd => ?_⟩
      simpa only [ArmedSstc, hpc] using harmed d hd
    · refine ⟨⟨hmtie, by simp only [hreset]⟩, fun d hd => ?_⟩
      cases hnone.symm.trans hd
  · exact ⟨SstcQuiet.proceed hsstc hproceed hquiet,
      fun d hd => ArmedSstc.proceed hproceed (harmed d (deadline_of_proceed hproceed ▸ hd))⟩

/-- Any step of a hart keeps its invariant. -/
theorem Keeps.ownStep {h : H} {mtime : Nat} {c c' : Cpu} {choice : Choice}
    (hstep : p.ownStep h mtime c choice = some c') (hkeep : p.Keeps h mtime c) :
    p.Keeps h mtime c' := by
  unfold Keeps at hkeep ⊢
  cases hsstc : p.hasSstc h with
  | false =>
    simp only [hsstc, Bool.false_eq_true, if_false] at hkeep ⊢
    exact Armed.ownStep hsstc hstep hkeep
  | true =>
    simp only [hsstc, if_true] at hkeep ⊢
    exact ArmedSstc.ownStep hsstc hstep hkeep.1 hkeep.2

/-- Taking the lock keeps the invariant: the writes of any backend leave the value. -/
theorem Keeps.lock {h : H} {mtime : Nat} {c : Cpu} {caller : Caller} {value : BitVec 64}
    (hpc : c.pc = .lock caller value) (hkeep : p.Keeps h mtime c) :
    p.Keeps h mtime { c with pc := .write caller value (p.backend.compareWrites p.xlen value) } := by
  unfold Keeps at hkeep ⊢
  split at hkeep
  next hsstc =>
    rw [if_pos hsstc]
    refine ⟨⟨hkeep.1.1, by simpa only [hpc] using hkeep.1.2⟩, fun d hd => ?_⟩
    simpa only [ArmedSstc, hpc] using hkeep.2 d hd
  next hsstc =>
    rw [if_neg hsstc]
    intro d hd
    have harmed := hkeep d hd
    cases caller <;> simp_all [Armed, Carries, Raised]

theorem Keeps.unlock {h : H} {mtime : Nat} {c : Cpu} {caller : Caller}
    (hpc : c.pc = .unlock caller) (hkeep : p.Keeps h mtime c) :
    p.Keeps h mtime { c with pc := afterUnlock caller } := by
  unfold Keeps at hkeep ⊢
  split at hkeep
  next hsstc =>
    rw [if_pos hsstc]
    have hboot : caller = .boot := by simpa only [hpc] using hkeep.1.2
    refine ⟨⟨hkeep.1.1, by simp only [hboot, afterUnlock]⟩, fun d hd => ?_⟩
    simpa only [ArmedSstc, hpc] using hkeep.2 d hd
  next hsstc =>
    rw [if_neg hsstc]
    intro d hd
    have harmed := hkeep d hd
    cases caller <;> simp_all [Armed, Carries, Raised, afterUnlock]

/-! ## The lock of the device -/

/-- The hart is in the critical section of `TimerDevice::set_timer`. -/
def HoldsLock (c : Cpu) : Prop :=
  match c.pc with
  | .write _ _ _ => True
  | .sstcClearStip _ => True
  | .sstcClearMtie _ => True
  | .unlock _ => True
  | _ => False

/-- The steps that a hart in the critical section takes before it releases the lock. -/
def lockRank (c : Cpu) : Nat :=
  match c.pc with
  | .write _ _ writes => writes.length + 3
  | .sstcClearStip _ => 2
  | .sstcClearMtie _ => 1
  | _ => 0

theorem compareWrites_length (backend : TimerBackend) (xlen : Xlen) (value : BitVec 64) :
    (backend.compareWrites xlen value).length ≤ 3 := by
  cases backend <;> cases xlen <;> simp [TimerBackend.compareWrites, stimecmpWrites, splitWrites]

/-- M-mode code neither enters nor leaves the critical section but through the
lock, and each of its steps there brings the release closer. -/
theorem holdsLock_of_ownStep {h : H} {mtime : Nat} {c c' : Cpu} {choice : Choice}
    (hstep : p.ownStep h mtime c choice = some c') :
    (HoldsLock c' ↔ HoldsLock c) ∧ (HoldsLock c → lockRank c' < lockRank c) := by
  obtain ⟨hpc, hlower⟩ | ⟨hpc, hparked⟩ | hproceed := ownStep_cases hstep
  · refine ⟨?_, fun hholds => by simp only [HoldsLock, hpc] at hholds⟩
    cases choice with
    | setTimer value =>
      cases hlower
      cases hsstc : p.hasSstc h <;> simp [HoldsLock, hpc, setTimerEntry, hsstc]
    | writeStimecmp value =>
      simp only [lowerStep, Option.ite_none_right_eq_some, Option.some.injEq] at hlower
      rw [← hlower.2]
      simp only [HoldsLock, hpc]
    | timerInterrupt =>
      simp only [lowerStep, Option.ite_none_right_eq_some, Option.some.injEq] at hlower
      rw [← hlower.2]
      simp only [HoldsLock, hpc]
    | stop =>
      cases hlower
      simp only [HoldsLock, hpc]
    | proceed | start | hardwareReset => simp [lowerStep] at hlower
  · refine ⟨?_, fun hholds => by simp only [HoldsLock, hpc] at hholds⟩
    obtain rfl | ⟨hreset, -⟩ := parkedStep_cases hparked
    · simp only [HoldsLock, hpc]
    · simp only [HoldsLock, hpc, hreset]
  · unfold proceed at hproceed
    split at hproceed
    case h_2 write writes hpc =>
      cases hproceed
      simp [HoldsLock, lockRank, hpc]
    case h_3 caller value hpc =>
      cases hproceed
      obtain heq | heq := p.afterBackend_cases caller value <;>
        simp [HoldsLock, lockRank, hpc, heq]
    case h_10 hpc =>
      cases hproceed
      cases hsstc : p.hasSstc h <;> simp [HoldsLock, hpc]
    case h_11 hpc =>
      cases hproceed
      cases hcancel : p.backend.clearOnInterrupt <;> simp [HoldsLock, hpc]
    case h_14 | h_15 | h_16 | h_17 => cases hproceed
    all_goals cases hproceed; simp [HoldsLock, lockRank, ‹c.pc = _›]

theorem lockRank_of_not_holds {c : Cpu} (hfree : ¬ HoldsLock c) : lockRank c = 0 := by
  unfold HoldsLock lockRank at *
  split <;> first | rfl | exact absurd trivial (by simpa only [‹c.pc = _›] using hfree)

/-- A hart in the critical section is never stuck there. -/
theorem HoldsLock.proceeds {h : H} {mtime : Nat} {c : Cpu} (hholds : HoldsLock c) :
    (∃ caller, c.pc = .unlock caller) ∨ ∃ c', p.ownStep h mtime c .proceed = some c' := by
  unfold HoldsLock at hholds
  split at hholds
  next caller value writes hpc => cases writes <;> simp [ownStep, proceed, hpc]
  next hpc => simp [ownStep, proceed, hpc]
  next hpc => simp [ownStep, proceed, hpc]
  next caller hpc => exact .inl ⟨caller, hpc⟩
  next => exact hholds.elim

end Platform

namespace System

variable [DecidableEq H]

def setHart (s : System H) (h : H) (c : Cpu) : System H :=
  { s with hart := Function.update s.hart h c }

@[simp] theorem setHart_mtime (s : System H) (h : H) (c : Cpu) : (s.setHart h c).mtime = s.mtime := rfl

@[simp] theorem setHart_programming (s : System H) (h : H) (c : Cpu) :
    (s.setHart h c).programming = s.programming := rfl

@[simp] theorem setHart_same (s : System H) (h : H) (c : Cpu) : (s.setHart h c).hart h = c :=
  Function.update_self ..

@[simp] theorem setHart_other (s : System H) {h h' : H} (c : Cpu) (hne : h' ≠ h) :
    (s.setHart h c).hart h' = s.hart h' :=
  Function.update_of_ne hne ..

/-- Every hart comes out of reset, where the boot code has cleared `mie`. -/
def Initial (s : System H) : Prop :=
  s.programming = none ∧
    ∀ h, (s.hart h).pc = .reset ∧ (s.hart h).mtie = false ∧ (s.hart h).deadline = none

/-- A machine whose registers are all zero out of reset. -/
def powerUp (H : Type) : System H := ⟨0, none, fun _ => ⟨.reset, false, false, 0#64, 0#64, none⟩⟩

omit [DecidableEq H] in
theorem powerUp_initial : Initial (powerUp H) := ⟨rfl, fun _ => ⟨rfl, rfl, rfl⟩⟩

end System

/-- A tick of the counter, or a step of one hart. -/
inductive Label (H : Type)
  | tick
  | act (h : H) (choice : Choice)
  deriving Repr

/-- The label is a step of hart `h`. -/
def Label.isActOf [DecidableEq H] (h : H) : Label H → Bool
  | .tick => false
  | .act h' _ => h' = h

namespace Platform

variable [DecidableEq H] (p : Platform H)

/-- The next atomic step of hart `h`. A hart that finds the lock taken spins. -/
def hartStep (s : System H) (h : H) : Pc → Choice → Option (System H)
  | .lock caller value, .proceed =>
    match s.programming with
    | none =>
      some { (s.setHart h { s.hart h with
          pc := .write caller value (p.backend.compareWrites p.xlen value) }) with
        programming := some h }
    | some _ => some s
  | .unlock caller, .proceed =>
    some { (s.setHart h { s.hart h with pc := afterUnlock caller }) with programming := none }
  | _, choice => (p.ownStep h s.mtime (s.hart h) choice).map (s.setHart h)

/-- A step of the machine. The counter does not wrap. -/
def exec (s : System H) : Label H → Option (System H)
  | .tick => if s.mtime + 1 < 2 ^ 64 then some { s with mtime := s.mtime + 1 } else none
  | .act h choice => p.hartStep s h (s.hart h).pc choice

def Step (s : System H) (label : Label H) (s' : System H) : Prop :=
  p.exec s label = some s'

/-! ## What a step changes -/

/-- A hart's own step changes its registers only; the other two steps take and
release the lock. -/
theorem hartStep_cases {s s' : System H} {h : H} {choice : Choice}
    (hstep : p.hartStep s h (s.hart h).pc choice = some s') :
    (∃ c, p.ownStep h s.mtime (s.hart h) choice = some c ∧ s' = s.setHart h c) ∨
    (∃ caller value, (s.hart h).pc = .lock caller value ∧
      ((s.programming ≠ none ∧ s' = s) ∨
       (s.programming = none ∧
        s' = { (s.setHart h { s.hart h with
            pc := .write caller value (p.backend.compareWrites p.xlen value) }) with
          programming := some h }))) ∨
    (∃ caller, (s.hart h).pc = .unlock caller ∧
      s' = { (s.setHart h { s.hart h with pc := afterUnlock caller }) with programming := none }) := by
  unfold hartStep at hstep
  split at hstep
  next caller value hpc =>
    refine .inr (.inl ⟨caller, value, hpc, ?_⟩)
    split at hstep
    next hfree => exact .inr ⟨hfree, (Option.some.inj hstep).symm⟩
    next holder hheld => exact .inl ⟨by simp [hheld], (Option.some.inj hstep).symm⟩
  next caller hpc => exact .inr (.inr ⟨caller, hpc, (Option.some.inj hstep).symm⟩)
  next =>
    obtain ⟨c, hc, hs'⟩ := Option.map_eq_some_iff.mp hstep
    exact .inl ⟨c, hc, hs'.symm⟩

/-- The hart's registers follow their own steps, the lock moves only its program
counter, and nobody else touches them. -/
theorem hart_of_step {s s' : System H} {label : Label H} (hstep : p.Step s label s') (h : H) :
    s'.hart h = s.hart h ∨
    (∃ choice, p.ownStep h s.mtime (s.hart h) choice = some (s'.hart h)) ∨
    (∃ caller value, (s.hart h).pc = .lock caller value ∧ s'.hart h =
      { s.hart h with pc := .write caller value (p.backend.compareWrites p.xlen value) }) ∨
    (∃ caller, (s.hart h).pc = .unlock caller ∧
      s'.hart h = { s.hart h with pc := afterUnlock caller }) := by
  cases label with
  | tick =>
    refine .inl ?_
    simp only [Step, exec, Option.ite_none_right_eq_some, Option.some.injEq] at hstep
    rw [← hstep.2]
  | act h' choice =>
    by_cases hh : h = h'
    · subst hh
      obtain ⟨c, hc, rfl⟩ | ⟨caller, value, hpc, ⟨-, rfl⟩ | ⟨-, rfl⟩⟩ | ⟨caller, hpc, rfl⟩ :=
        p.hartStep_cases hstep
      · exact .inr (.inl ⟨choice, by rw [System.setHart_same]; exact hc⟩)
      · exact .inl rfl
      · exact .inr (.inr (.inl ⟨caller, value, hpc, System.setHart_same ..⟩))
      · exact .inr (.inr (.inr ⟨caller, hpc, System.setHart_same ..⟩))
    · refine .inl ?_
      obtain ⟨c, -, rfl⟩ | ⟨caller, value, -, ⟨-, rfl⟩ | ⟨-, rfl⟩⟩ | ⟨caller, -, rfl⟩ :=
        p.hartStep_cases hstep
      · exact System.setHart_other _ _ hh
      · rfl
      · exact System.setHart_other _ _ hh
      · exact System.setHart_other _ _ hh

/-- The counter does not go back. -/
theorem mtime_of_step {s s' : System H} {label : Label H} (hstep : p.Step s label s') :
    s.mtime ≤ s'.mtime := by
  cases label with
  | tick =>
    simp only [Step, exec, Option.ite_none_right_eq_some, Option.some.injEq] at hstep
    rw [← hstep.2]
    exact Nat.le_succ _
  | act h choice =>
    obtain ⟨c, -, rfl⟩ | ⟨caller, value, -, ⟨-, rfl⟩ | ⟨-, rfl⟩⟩ | ⟨caller, -, rfl⟩ :=
      p.hartStep_cases hstep <;> exact Nat.le_refl _

/-! ## Every reachable state -/

variable {p}

theorem keeps_of_step {s s' : System H} {label : Label H} (hstep : p.Step s label s')
    (hkeep : ∀ h, p.Keeps h s.mtime (s.hart h)) (h : H) : p.Keeps h s'.mtime (s'.hart h) := by
  refine Keeps.mono (p.mtime_of_step hstep) ?_
  obtain heq | ⟨choice, hown⟩ | ⟨caller, value, hpc, heq⟩ | ⟨caller, hpc, heq⟩ :=
    p.hart_of_step hstep h
  · exact heq ▸ hkeep h
  · exact Keeps.ownStep hown (hkeep h)
  · exact heq ▸ Keeps.lock hpc (hkeep h)
  · exact heq ▸ Keeps.unlock hpc (hkeep h)

theorem keeps_of_reachable {s : System H} (hs : Reachable System.Initial p.Step s) (h : H) :
    p.Keeps h s.mtime (s.hart h) := by
  refine Reachable.invariant (P := fun s => ∀ h, p.Keeps h s.mtime (s.hart h)) ?_ ?_ hs h
  · rintro s ⟨-, hharts⟩ h
    obtain ⟨hpc, hmtie, hnone⟩ := hharts h
    unfold Keeps
    split
    next => exact ⟨⟨hmtie, by simp only [hpc]⟩, fun d hd => by cases hnone.symm.trans hd⟩
    next => exact fun d hd => by cases hnone.symm.trans hd
  · exact fun s label s' hkeep hstep => keeps_of_step hstep hkeep

/-- A hart that runs below M-mode after its supervisor asked for the deadline
`d`: the supervisor's interrupt is pending only if `d` is over; if `d` is over
it is pending, or the machine timer interrupt that raises it is; and a machine
timer interrupt comes only when `d` is over. -/
theorem supervisor_timer_exact (p : Platform H) {s : System H}
    (hs : Reachable System.Initial p.Step s) {h : H} {d : BitVec 64} (hpc : (s.hart h).pc = .lower)
    (hd : (s.hart h).deadline = some d) :
    (p.supervisorTimerPending h s.mtime (s.hart h) = true → d.toNat ≤ s.mtime) ∧
    (d.toNat ≤ s.mtime → p.supervisorTimerPending h s.mtime (s.hart h) = true ∨
      machineTimerPending s.mtime (s.hart h) = true) ∧
    (machineTimerPending s.mtime (s.hart h) = true → d.toNat ≤ s.mtime) := by
  have hkeep := keeps_of_reachable hs h
  unfold Keeps at hkeep
  unfold supervisorTimerPending
  split at hkeep
  next hsstc =>
    obtain ⟨⟨hmtie, -⟩, harmed⟩ := hkeep
    have hcompare : (s.hart h).stimecmp = d := by simpa only [ArmedSstc, hpc] using harmed d hd
    simp only [hsstc, if_true, hcompare, Due, decide_eq_true_eq, machineTimerPending, hmtie,
      Bool.false_and]
    exact ⟨id, .inl, nofun⟩
  next hsstc =>
    have harmed := hkeep d hd
    refine ⟨fun hpending => ?_, fun hdue => ?_, harmed.due hpc⟩
    · rw [if_neg hsstc] at hpending
      obtain hcarries | ⟨-, hdue⟩ := harmed
      · simp only [Carries, hpc, hpending] at hcarries
        exact absurd hcarries.2.2 (by decide)
      · exact hdue
    · rw [if_neg hsstc]
      obtain hcarries | ⟨hraised, -⟩ := harmed
      · simp only [Carries, hpc] at hcarries
        refine .inr ?_
        simp only [machineTimerPending, hcarries.1, hcarries.2.1, Bool.true_and, decide_eq_true_eq]
        exact hdue
      · simp only [Raised, hpc] at hraised
        exact .inl hraised

/-- A single hart without Sstc, with a PLMT. -/
def plmtPlatform : Platform Unit := ⟨.rv64, .plmt, fun _ => false, nofun⟩

/-- A deadline of 2 passes while a PLMT is programmed; the trap signals it. -/
theorem supervisor_timer_exact_after_trap :
    ∃ s : System Unit,
      Reachable System.Initial plmtPlatform.Step s ∧
      (s.hart ()).stip = true ∧ (2#64).toNat ≤ s.mtime := by
  let go : Label Unit := .act () .proceed
  let labels : List (Label Unit) := List.replicate 7 go ++
    [.act () .start, go, .act () (.setTimer 2#64), go, go, .tick, go, .tick] ++
    List.replicate 5 go ++ .act () .timerInterrupt :: List.replicate 3 go
  obtain ⟨s, hexec, hpc, hd, hstip⟩ : ∃ s, labels.foldlM plmtPlatform.exec (System.powerUp Unit) = some s ∧
      (s.hart ()).pc = .lower ∧ (s.hart ()).deadline = some 2#64 ∧ (s.hart ()).stip = true :=
    ⟨_, rfl, rfl, rfl, rfl⟩
  have hreach : Reachable System.Initial plmtPlatform.Step s :=
    ⟨_, _, System.powerUp_initial, Run.of_foldlM (fun _ _ _ h => h) hexec⟩
  exact ⟨s, hreach, hstip, (supervisor_timer_exact plmtPlatform hreach hpc hd).1 hstip⟩

/-- The lock is taken exactly by the hart in the critical section, which is at
most six steps away from the one that releases it. -/
def LockHeld (s : System H) : Prop :=
  ∀ h, (HoldsLock (s.hart h) ↔ s.programming = some h) ∧ lockRank (s.hart h) ≤ 6

theorem lockHeld_of_step {s s' : System H} {label : Label H} (hstep : p.Step s label s')
    (hlock : LockHeld s) : LockHeld s' := by
  cases label with
  | tick =>
    simp only [Step, exec, Option.ite_none_right_eq_some, Option.some.injEq] at hstep
    exact hstep.2 ▸ hlock
  | act h choice =>
    obtain ⟨c, hown, rfl⟩ | ⟨caller, value, hpc, ⟨-, rfl⟩ | ⟨hfree, rfl⟩⟩ | ⟨caller, hpc, rfl⟩ :=
      p.hartStep_cases hstep
    · intro h'
      by_cases hne : h' = h
      · subst hne
        obtain ⟨hkeep, hdown⟩ := holdsLock_of_ownStep hown
        rw [System.setHart_same, System.setHart_programming, hkeep]
        refine ⟨(hlock h').1, ?_⟩
        by_cases hholds : HoldsLock (s.hart h')
        · exact Nat.le_trans (Nat.le_of_lt (hdown hholds)) (hlock h').2
        · rw [lockRank_of_not_holds (hkeep.not.mpr hholds)]
          exact Nat.zero_le _
      · rw [System.setHart_other _ _ hne]
        exact hlock h'
    · exact hlock
    · intro h'
      by_cases hne : h' = h
      · subst hne
        have hwrites := compareWrites_length p.backend p.xlen value
        simpa [HoldsLock, lockRank] using hwrites
      · have hother : ¬ HoldsLock (s.hart h') := fun hholds =>
          nomatch hfree.symm.trans ((hlock h').1.mp hholds)
        change (HoldsLock ((s.setHart h _).hart h') ↔ some h = some h') ∧
          lockRank ((s.setHart h _).hart h') ≤ 6
        rw [System.setHart_other _ _ hne]
        exact ⟨⟨fun hholds => absurd hholds hother, fun heq => absurd (Option.some.inj heq).symm hne⟩,
          (hlock h').2⟩
    · have hheld : s.programming = some h := (hlock h).1.mp (by simp only [HoldsLock, hpc])
      intro h'
      by_cases hne : h' = h
      · subst hne
        cases caller <;> simp [HoldsLock, lockRank, afterUnlock]
      · change (HoldsLock ((s.setHart h _).hart h') ↔ none = some h') ∧
          lockRank ((s.setHart h _).hart h') ≤ 6
        rw [System.setHart_other _ _ hne]
        have hother : ¬ HoldsLock (s.hart h') := fun hholds =>
          hne (Option.some.inj (((hlock h').1.mp hholds).symm.trans hheld))
        exact ⟨⟨fun hholds => absurd hholds hother, nofun⟩, (hlock h').2⟩

theorem lockHeld_of_reachable {s : System H} (hs : Reachable System.Initial p.Step s) : LockHeld s := by
  refine hs.invariant ?_ fun s label s' hlock hstep => lockHeld_of_step hstep hlock
  rintro s ⟨hfree, hharts⟩ h
  simp [HoldsLock, lockRank, (hharts h).1, hfree]

/-- A step leaves the lock with its holder and the holder's rank where it is, or
brings the release closer when it is the holder's own. -/
theorem holder_of_step {s s' : System H} {label : Label H} (hstep : p.Step s label s')
    (hlock : LockHeld s) {h : H} (hheld : s.programming = some h) :
    s'.programming = none ∨ (s'.programming = some h ∧
      if label.isActOf h then lockRank (s'.hart h) < lockRank (s.hart h)
      else lockRank (s'.hart h) = lockRank (s.hart h)) := by
  cases label with
  | tick =>
    simp only [Step, exec, Option.ite_none_right_eq_some, Option.some.injEq] at hstep
    rw [← hstep.2]
    exact .inr ⟨hheld, rfl⟩
  | act h' choice =>
    obtain ⟨c, hown, rfl⟩ | ⟨caller, value, hpc, ⟨-, rfl⟩ | ⟨hfree, rfl⟩⟩ | ⟨caller, hpc, rfl⟩ :=
      p.hartStep_cases hstep
    · refine .inr ⟨hheld, ?_⟩
      by_cases hne : h' = h
      · subst hne
        rw [System.setHart_same]
        simpa [Label.isActOf] using (holdsLock_of_ownStep hown).2 ((hlock h').1.mpr hheld)
      · rw [System.setHart_other _ _ (Ne.symm hne)]
        simp [Label.isActOf, hne]
    · refine .inr ⟨hheld, ?_⟩
      have hne : h' ≠ h := by
        rintro rfl
        have hholds := (hlock h').1.mpr hheld
        simp only [HoldsLock, hpc] at hholds
      simp [Label.isActOf, hne]
    · exact nomatch hfree.symm.trans hheld
    · exact .inl rfl

theorem step_of_holdsLock {s : System H} {h : H} (hholds : HoldsLock (s.hart h)) :
    ∃ s', p.Step s (.act h .proceed) s' := by
  change ∃ s', p.hartStep s h (s.hart h).pc .proceed = some s'
  have hgo : (∃ caller, (s.hart h).pc = .unlock caller) ∨
      ∃ c', p.ownStep h s.mtime (s.hart h) .proceed = some c' := hholds.proceeds
  obtain ⟨caller, hpc⟩ | ⟨c', hown⟩ := hgo
  · rw [hpc]
    exact ⟨_, rfl⟩
  · unfold hartStep
    split
    next hpc _ => simp only [HoldsLock, hpc] at hholds
    next => exact ⟨_, rfl⟩
    next => exact ⟨s.setHart h c', by rw [hown, Option.map_some]⟩

/-- Whenever the device is being programmed, exactly the holder of the lock is in
the critical section, it can go on whatever the other harts do, and it releases
the lock within seven of its own steps. -/
theorem programming_released (p : Platform H) {s : System H}
    (hs : Reachable System.Initial p.Step s) {h : H} (hheld : s.programming = some h) :
    (∀ h', HoldsLock (s.hart h') ↔ h' = h) ∧
    (∃ s', p.Step s (.act h .proceed) s') ∧
    ∀ labels s', Run p.Step s labels s' → 7 ≤ labels.countP (Label.isActOf h) →
      ∃ before after s₁, labels = before ++ after ∧ Run p.Step s before s₁ ∧
        s₁.programming = none ∧ Run p.Step s₁ after s' := by
  have hlock := lockHeld_of_reachable hs
  have hholds : HoldsLock (s.hart h) := (hlock h).1.mpr hheld
  refine ⟨fun h' => ?_, ?_, fun labels s' hrun hsteps => ?_⟩
  · rw [(hlock h').1, hheld, Option.some_inj, eq_comm]
  · exact step_of_holdsLock hholds
  · refine hrun.passes_of_rank (P := fun s => LockHeld s ∧ s.programming = some h)
      (Label.isActOf h) (fun s => lockRank (s.hart h)) ?_ ?_ ⟨hlock, hheld⟩
      (Nat.lt_of_le_of_lt (hlock h).2 hsteps)
    · rintro s label s' ⟨hlock, hheld⟩ hstep hown
      refine (holder_of_step hstep hlock hheld).imp_right fun hnext => ?_
      rw [hown, if_pos rfl] at hnext
      exact ⟨⟨lockHeld_of_step hstep hlock, hnext.1⟩, hnext.2⟩
    · rintro s label s' ⟨hlock, hheld⟩ hstep hother
      refine (holder_of_step hstep hlock hheld).imp_right fun hnext => ?_
      rw [hother, if_neg Bool.false_ne_true] at hnext
      exact ⟨⟨lockHeld_of_step hstep hlock, hnext.1⟩, Nat.le_of_eq hnext.2⟩

theorem programming_released_while_booting :
    ∃ s : System Unit, Reachable System.Initial plmtPlatform.Step s ∧ s.programming = some () ∧
      ∃ s', plmtPlatform.Step s (.act () .proceed) s' := by
  let labels : List (Label Unit) := [.act () .proceed, .act () .proceed, .tick]
  obtain ⟨s, hexec, hheld⟩ : ∃ s, labels.foldlM plmtPlatform.exec (System.powerUp Unit) = some s ∧
      s.programming = some () := ⟨_, rfl, rfl⟩
  have hreach : Reachable System.Initial plmtPlatform.Step s :=
    ⟨_, _, System.powerUp_initial, Run.of_foldlM (fun _ _ _ h => h) hexec⟩
  exact ⟨s, hreach, hheld, (programming_released plmtPlatform hreach hheld).2.1⟩

end Platform

end RustSbi.Trap
