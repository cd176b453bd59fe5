import RustSbi.Target
import RustSbi.Lib.Transition

/-!
The hart lifecycle (`hart/lifecycle.rs`) as the firmware runs it: a state word,
a stage slot and a transfer marker for each hart, and the atomic steps in which
the boot finisher, the interrupt transports, the HSM calls and the resume
ticket read and write them. A hart's position in that code is a program
counter, so a run is any interleaving of the harts' steps.
-/

namespace RustSbi.Hart

open Transition

/-- The privilege modes that `NextStage::next_mode` can name. -/
inductive NextMode
  | supervisor
  | user
  deriving DecidableEq, Repr

/-- `NextStage`. -/
structure NextStage where
  startAddr : Nat
  opaqueValue : Nat
  nextMode : NextMode
  deriving DecidableEq, Repr

/-! ## Cells -/

/-- `STATE_STARTED`. -/
abbrev stateStarted : UInt8 := 0

/-- `STATE_STOPPED`. -/
abbrev stateStopped : UInt8 := 1

/-- `STATE_START_PENDING`. -/
abbrev stateStartPending : UInt8 := 2

/-- `STATE_SUSPENDED`. -/
abbrev stateSuspended : UInt8 := 4

/-- `STATE_RESUME_PENDING`. -/
abbrev stateResumePending : UInt8 := 6

/-- `STATE_STARTING`. -/
abbrev stateStarting : UInt8 := 255

/-- `HartStateCell`. The transfer marker carries the stage of its
`NonRetentiveResume`. -/
structure HartStateCell where
  state : UInt8
  stage : Option NextStage
  transfer : Option NextStage
  deriving DecidableEq, Repr

/-- `HartStateCell::new`. -/
def HartStateCell.new : HartStateCell := ⟨stateStopped, none, none⟩

/-- `HartState`. -/
inductive HartState
  | started
  | stopped
  | startPending
  | suspended
  | resumePending
  deriving DecidableEq, Repr

/-- The `hart_state` codes of `hart_get_status`. -/
def HartState.code : HartState → Nat
  | started => 0
  | stopped => 1
  | startPending => 2
  | suspended => 4
  | resumePending => 6

/-- The match of `status`, which has no arm for other state words. -/
def hartState? (state : UInt8) : Option HartState :=
  if state = stateStarted then some .started
  else if state = stateStopped then some .stopped
  else if state = stateStartPending ∨ state = stateStarting then some .startPending
  else if state = stateSuspended then some .suspended
  else if state = stateResumePending then some .resumePending
  else none

/-! ## Program counters -/

/-- `HartEvent`. -/
inductive HartEvent
  | start (stage : NextStage)
  | park
  | none
  deriving DecidableEq, Repr

/-- The two callers of `take_local_event`: the boot finisher and the machine
interrupt transports. -/
inductive Caller
  | finisher
  | interrupt
  deriving DecidableEq, Repr

/-- `suspend_type`, with the stage of a non-retentive suspend. -/
inductive SuspendType
  | retentive
  | nonRetentive (stage : NextStage)
  deriving DecidableEq, Repr

/-- The panics of the lifecycle code. -/
inductive Bug
  | missingStage
  | neitherStartNorPark
  | invalidState
  | stageBusy
  | clearFailed
  deriving DecidableEq, Repr

variable {H : Type}

/-- The next atomic step of a hart. -/
inductive Pc (H : Type)
  /-- `stage_current`: reserve, write the slot, publish. -/
  | stageReserve (stage : NextStage)
  | stageWrite (stage : NextStage)
  | stagePublish (stage : NextStage)
  /-- `clear_current`, before `take_local_event`. -/
  | clear (caller : Caller)
  /-- `take_local_event`: load the state, consume it, take the stage. -/
  | takeLoad (caller : Caller)
  | takeConsume (caller : Caller)
  | takeStage (caller : Caller)
  /-- `deliver_current`, with the event to act on after it. -/
  | deliver (caller : Caller) (event : HartEvent)
  /-- `wfi` of the finisher, and of an interrupt transport that was told to park. -/
  | parkWait
  | interruptWait
  /-- The final `mret` of `enter_stage`, and that of the trap return. -/
  | enterStage (stage : NextStage)
  | trapReturn
  /-- Below M-mode. -/
  | lower
  /-- `start`: reserve, wake, roll back or write the slot and publish. -/
  | startReserve (target : H) (stage : NextStage)
  | startWake (target : H) (stage : NextStage)
  | startRollback (target : H)
  | startWrite (target : H) (stage : NextStage)
  | startPublish (target : H) (stage : NextStage)
  /-- `status`. -/
  | statusLoad (target : H)
  /-- `stop_current`: clear the interrupt, store the state. -/
  | stopClear
  | stopStore
  /-- `suspend_current`: clear the interrupt, deliver, store the state, wait. -/
  | suspendClear (suspendType : SuspendType)
  | suspendDeliver (suspendType : SuspendType)
  | suspendStore (suspendType : SuspendType)
  | suspendWait (suspendType : SuspendType)
  /-- `resume_current_retentive` and `begin_nonretentive_resume`. -/
  | resumeRetentive
  | beginResume (stage : NextStage)
  /-- `reset_current`, and the steps of `ResumeTicket::commit` and its drop. -/
  | resetCurrent
  | commitSend
  | commitMark
  | commitStore
  | ticketDrop
  /-- `take_control_transfer` at the end of `sbi_ecall`, with the result of the call. -/
  | takeTransfer (ret : SbiRet)
  /-- A panic or a failed interrupt acknowledgement stopped the hart for good. -/
  | halted (bug : Bug)
  deriving DecidableEq, Repr

/-- What the platform and the supervisor decide at a step. -/
inductive Choice (H : Type)
  | proceed
  | fail
  | hardwareWake
  | trap
  | softInterrupt
  | externalInterrupt
  | hartStart (target : H) (stage : NextStage)
  | hartStop
  | hartGetStatus (target : H)
  | hartSuspend (suspendType : SuspendType)
  deriving DecidableEq, Repr

/-- What happened to a hart's start hand-offs so far, for stating properties:
no step reads it. A hand-off is `accepted` when its publication makes
`start` return `Accepted` (or ends `stage_current`). -/
inductive Event
  | accepted (stage : NextStage)
  | wakeFailed
  | consumed (stage : NextStage)
  | stopped
  deriving DecidableEq, Repr

/-- All harts of the machine. -/
structure System (H : Type) where
  cell : H → HartStateCell
  pc : H → Pc H
  /-- The `ResumeTicket` that the hart owns. -/
  ticket : H → Option NextStage
  /-- The wake interrupt of the hart is pending. -/
  pending : H → Bool
  history : H → List Event

namespace System

variable [DecidableEq H]

/-- The hart goes on at another program counter. -/
def goto (s : System H) (h : H) (pc : Pc H) : System H :=
  { s with pc := Function.update s.pc h pc }

/-- `state.store`. -/
def store (s : System H) (h : H) (state : UInt8) : System H :=
  { s with cell := Function.update s.cell h { s.cell h with state := state } }

/-- A write of the stage slot. -/
def setStage (s : System H) (h : H) (stage : Option NextStage) : System H :=
  { s with cell := Function.update s.cell h { s.cell h with stage := stage } }

/-- A write of the transfer marker. -/
def setTransfer (s : System H) (h : H) (transfer : Option NextStage) : System H :=
  { s with cell := Function.update s.cell h { s.cell h with transfer := transfer } }

def setTicket (s : System H) (h : H) (ticket : Option NextStage) : System H :=
  { s with ticket := Function.update s.ticket h ticket }

def setPending (s : System H) (h : H) (pending : Bool) : System H :=
  { s with pending := Function.update s.pending h pending }

/-- Records an event. -/
def record (s : System H) (h : H) (event : Event) : System H :=
  { s with history := Function.update s.history h (s.history h ++ [event]) }

end System

/-! ## Steps -/

/-- Where a hart goes on after `deliver_current`. -/
def afterDeliver : Caller → HartEvent → Pc H
  | .finisher, .start stage => .enterStage stage
  | .finisher, .park => .parkWait
  | .finisher, .none => .halted .neitherStartNorPark
  | .interrupt, .start _ => .trapReturn
  | .interrupt, .park => .interruptWait
  | .interrupt, .none => .trapReturn

/-- Where a hart goes on when `take_local_event` has loaded the state. -/
def afterTakeLoad (caller : Caller) (state : UInt8) : Pc H :=
  if state = stateStartPending then .takeConsume caller
  else if state = stateStarting then .takeLoad caller
  else if state = stateStopped then .deliver caller .park
  else .deliver caller .none

/-- Where a hart goes on after `suspend_current`. -/
def afterSuspend : SuspendType → Pc H
  | .retentive => .resumeRetentive
  | .nonRetentive stage => .beginResume stage

/-- Where a supervisor or an interrupt takes a hart that runs below M-mode. -/
def enterMachine : Choice H → Option (Pc H)
  | .trap => some .trapReturn
  | .softInterrupt => some (.clear .interrupt)
  | .externalInterrupt => some (.takeLoad .interrupt)
  | .hartStart target stage => some (.startReserve target stage)
  | .hartStop => some .stopClear
  | .hartGetStatus target => some (.statusLoad target)
  | .hartSuspend suspendType => some (.suspendClear suspendType)
  | _ => none

/-- The next atomic step of hart `h`. -/
def System.step [DecidableEq H] (s : System H) (h : H) : Pc H → Choice H → Option (System H)
  | .stageReserve stage, .proceed =>
    if (s.cell h).state = stateStopped then
      some ((s.store h stateStarting).goto h (.stageWrite stage))
    else some (s.goto h (.halted .stageBusy))
  | .stageWrite stage, .proceed =>
    some ((s.setStage h (some stage)).goto h (.stagePublish stage))
  | .stagePublish stage, .proceed =>
    some (((s.store h stateStartPending).record h (.accepted stage)).goto h (.clear .finisher))
  | .clear caller, .proceed => some ((s.setPending h false).goto h (.takeLoad caller))
  | .clear _, .fail => some (s.goto h (.halted .clearFailed))
  | .takeLoad caller, .proceed => some (s.goto h (afterTakeLoad caller (s.cell h).state))
  | .takeConsume caller, .proceed =>
    if (s.cell h).state = stateStartPending then
      some ((s.store h stateStarted).goto h (.takeStage caller))
    else some (s.goto h (.takeLoad caller))
  | .takeStage caller, .proceed =>
    match (s.cell h).stage with
    | some stage =>
      some (((s.setStage h none).record h (.consumed stage)).goto h
        (.deliver caller (.start stage)))
    | none => some (s.goto h (.halted .missingStage))
  | .deliver caller event, .proceed => some (s.goto h (afterDeliver caller event))
  | .parkWait, .proceed => some (s.goto h (.clear .finisher))
  | .interruptWait, .proceed => some (s.goto h .trapReturn)
  | .enterStage _, .proceed => some (s.goto h .lower)
  | .trapReturn, .proceed => some (s.goto h .lower)
  | .lower, choice => (enterMachine choice).map (s.goto h)
  | .startReserve target stage, .proceed =>
    if (s.cell target).state = stateStopped then
      some ((s.store target stateStarting).goto h (.startWake target stage))
    else some (s.goto h (.takeTransfer .alreadyAvailable))
  | .startWake target stage, .proceed =>
    some ((s.setPending target true).goto h (.startWrite target stage))
  | .startWake target stage, .hardwareWake => some (s.goto h (.startWrite target stage))
  | .startWake target _, .fail => some (s.goto h (.startRollback target))
  | .startRollback target, .proceed =>
    some (((s.store target stateStopped).record target .wakeFailed).goto h (.takeTransfer .failed))
  | .startWrite target stage, .proceed =>
    some ((s.setStage target (some stage)).goto h (.startPublish target stage))
  | .startPublish target stage, .proceed =>
    some (((s.store target stateStartPending).record target (.accepted stage)).goto h
      (.takeTransfer (.success 0)))
  | .statusLoad target, .proceed =>
    match hartState? (s.cell target).state with
    | some state => some (s.goto h (.takeTransfer (.success state.code)))
    | none => some (s.goto h (.halted .invalidState))
  | .stopClear, .proceed => some ((s.setPending h false).goto h .stopStore)
  | .stopClear, .fail => some (s.goto h (.takeTransfer .failed))
  | .stopStore, .proceed =>
    some (((s.store h stateStopped).record h .stopped).goto h (.clear .finisher))
  | .suspendClear suspendType, .proceed =>
    some ((s.setPending h false).goto h (.suspendDeliver suspendType))
  | .suspendClear _, .fail => some (s.goto h (.takeTransfer .failed))
  | .suspendDeliver suspendType, .proceed => some (s.goto h (.suspendStore suspendType))
  | .suspendStore suspendType, .proceed =>
    some ((s.store h stateSuspended).goto h (.suspendWait suspendType))
  | .suspendWait suspendType, .proceed => some (s.goto h (afterSuspend suspendType))
  | .resumeRetentive, .proceed =>
    if (s.cell h).state = stateSuspended then
      some ((s.store h stateStarted).goto h (.takeTransfer (.success 0)))
    else some (s.goto h (.takeTransfer .failed))
  | .beginResume stage, .proceed =>
    if (s.cell h).state = stateSuspended then
      some (((s.store h stateResumePending).setTicket h (some stage)).goto h .resetCurrent)
    else some (s.goto h (.takeTransfer .failed))
  | .resetCurrent, .proceed => some (s.goto h .commitSend)
  | .commitSend, .proceed => some ((s.setPending h true).goto h .commitMark)
  | .commitSend, .fail => some (s.goto h .ticketDrop)
  | .commitMark, .proceed => some ((s.setTransfer h (s.ticket h)).goto h .commitStore)
  | .commitStore, .proceed =>
    some (((s.store h stateStarted).setTicket h none).goto h (.takeTransfer (.success 0)))
  | .ticketDrop, .proceed =>
    some (((s.store h stateSuspended).setTicket h none).goto h (.takeTransfer .failed))
  | .takeTransfer _, .proceed => some ((s.setTransfer h none).goto h .trapReturn)
  | _, _ => none

/-- A step of the machine: one hart takes its next atomic step. -/
def System.Step [DecidableEq H] (s : System H) (label : H × Choice H) (s' : System H) : Prop :=
  s.step label.1 (s.pc label.1) label.2 = some s'

/-- The machine when the boot hart has the first stage and every other hart is
in the finisher. -/
def System.Initial [DecidableEq H] (bootHart : H) (s : System H) : Prop :=
  (∃ stage, s.pc bootHart = .stageReserve stage) ∧
  (∀ h, h ≠ bootHart → s.pc h = .clear .finisher) ∧
  ∀ h, s.cell h = .new ∧ s.ticket h = none ∧ s.history h = []

/-- The harts take the given steps one after another. -/
def System.exec [DecidableEq H] (s : System H) : List (H × Choice H) → Option (System H)
  | [] => some s
  | label :: rest => (s.step label.1 (s.pc label.1) label.2).bind (·.exec rest)

theorem run_of_exec [DecidableEq H] {labels : List (H × Choice H)} :
    ∀ {s s' : System H}, s.exec labels = some s' → Run System.Step s labels s' := by
  induction labels with
  | nil =>
    intro s s' h
    cases h
    exact .nil s
  | cons label rest ih =>
    intro s s' h
    obtain ⟨s₁, hstep, hrest⟩ := Option.bind_eq_some_iff.mp h
    exact .cons hstep (ih hrest)

end RustSbi.Hart
