import RustSbi.Hart.InstructionFence
import RustSbi.Sbi.HartSet
import RustSbi.Sbi.RfenceAccounting

/-!
`remote_fence_i` over the hart lifecycle. The call reads the state word of one
hart after another, sends requests to those that can receive an interrupt and
skips the others; the harts go on meanwhile. A target executes `fence.i` before
it acknowledges, and a skipped hart executes it on its way below M-mode, unless
it was resuming and its ticket then failed to send its wake interrupt.
-/

namespace RustSbi.RemoteFence

open Ipi Ledger Transition

variable {platform : Rfence.Platform}

/-! ## The firmware -/

/-- What a `remote_fence_i` promises: the harts that its mask selects, and how
often each hart had executed `fence.i` when the call began. -/
structure Obligation (xlen : Xlen) where
  hartMask : HartMask xlen
  before : Nat → Nat

/-- A call that selects its targets, with the harts it has still to read and
what it has read. -/
structure Selection (xlen : Xlen) where
  hartMask : HartMask xlen
  ctx : Rfence.RFenceContext
  rest : List Nat
  receives : Nat → Bool
  before : Nat → Nat

/-- The lifecycle and the remote fences of all harts. A hart in a fence call or
in `deliver_current` stays where it is in the lifecycle. -/
structure Firmware (platform : Rfence.Platform) where
  life : Hart.Machine Nat
  fences : Rfence.System
  /-- `deliver_current` has run at this point of the lifecycle. -/
  delivered : Nat → Bool
  /-- The `fence.i` instructions of the hand-offs. -/
  handoffs : Nat → Nat
  selecting : Nat → Option (Selection platform.xlen)
  /-- The instruction fence that is under way. -/
  begun : Nat → Option (Obligation platform.xlen)
  /-- The instruction fences that returned success. -/
  returned : List (Obligation platform.xlen)

/-- A step of the firmware. -/
inductive Action (xlen : Xlen)
  | life (arrival : Hart.Arrival Nat)
  /-- The hart calls `send_ipi_by_fence`. -/
  | call (h : Nat) (hartMask : HartMask xlen) (ctx : Rfence.RFenceContext)
  /-- It reads whether one hart is available. -/
  | read (h : Nat)
  /-- It has read all of them. -/
  | select (h : Nat)
  /-- A step of the call, or of a handler. -/
  | fence (h : Nat) (choice : Rfence.Choice xlen)
  /-- The hart enters `deliver_current`. -/
  | deliver (h : Nat)

/-- The machine runs `deliver_current` there. -/
def delivers : Hart.Pc Nat → Bool
  | .deliver _ _ | .suspendDeliver _ => true
  | _ => false

/-- The release device takes the request: the target is not in the firmware. -/
def releases (m : Hart.Machine Nat) (h : Nat) (choice : Hart.Choice Nat) : Bool :=
  match m.harts.pc h, choice with
  | .startWake target _, .hardwareWake => !m.entered target
  | _, _ => true

/-- One step of the lifecycle with its release device, as a function. -/
def lifeStep (m : Hart.Machine Nat) : Hart.Arrival Nat → Option (Hart.Machine Nat)
  | .enter h => some { m with entered := Function.update m.entered h true }
  | .hart h choice =>
    if m.entered h && releases m h choice then
      (m.harts.step h (m.harts.pc h) choice).map fun s => { m with harts := s }
    else none

namespace Firmware

/-- How often a hart has executed `fence.i`. -/
def fenced (f : Firmware platform) (t : Nat) : Nat :=
  f.handoffs t + (f.fences.hartLocal t).issued.count .fenceI

/-- The hart is in no fence call and in no handler. -/
def outside (f : Firmware platform) (h : Nat) : Bool :=
  (f.selecting h).isNone && decide (f.fences.pc h = .idle) && decide (f.fences.handler h = .none)

/-- The hart leaves its call with a result. -/
def leave (f : Firmware platform) (h : Nat) (ret : SbiRet) : Firmware platform :=
  { f with
    life := { f.life with harts := f.life.harts.goto h (.takeTransfer ret) }
    selecting := Function.update f.selecting h none
    begun := Function.update f.begun h none }

/-- A step of the lifecycle, with the `fence.i` that it executes. -/
def lifeAction (f : Firmware platform) (life : Hart.Machine Nat) : Hart.Arrival Nat →
    Firmware platform
  | .enter _ => { f with life := life }
  | .hart h _ =>
    { f with
      life := life
      delivered := Function.update f.delivered h false
      handoffs := if f.life.harts.executesFenceI h then
        Function.update f.handoffs h (f.handoffs h + 1) else f.handoffs }

/-- The end of `send_ipi_by_fence`. -/
def finish (f : Firmware platform) (h : Nat) (fences : Rfence.System) (ret : SbiRet) :
    Firmware platform :=
  { ({ f with fences := fences }.leave h ret) with
    returned := if ret = .success 0 then (f.begun h).toList ++ f.returned else f.returned }

/-- The next step of the firmware. -/
def step (f : Firmware platform) : Action platform.xlen → Option (Firmware platform)
  | .life arrival =>
    match arrival with
    | .enter _ => (lifeStep f.life arrival).map (f.lifeAction · arrival)
    | .hart h _ =>
      if f.outside h && (!delivers (f.life.harts.pc h) || f.delivered h) then
        (lifeStep f.life arrival).map (f.lifeAction · arrival)
      else none
  | .call h hartMask ctx =>
    if f.outside h ∧ f.life.harts.pc h = .lower then
      some { f with selecting := Function.update f.selecting h (some
        ⟨hartMask, ctx, List.range platform.harts.enabled.length, fun _ => false, f.fenced⟩) }
    else none
  | .read h =>
    match f.selecting h with
    | some selection =>
      match selection.rest with
      | t :: rest =>
        let receives := f.life.entered t && Hart.canReceiveIpi (f.life.harts.cell t).state
        some { f with selecting := Function.update f.selecting h (some { selection with
          rest := rest, receives := Function.update selection.receives t receives }) }
      | [] => none
    | none => none
  | .select h =>
    match f.selecting h with
    | some selection =>
      if selection.rest = [] ∧ h < platform.harts.numHartMax then
        match targets platform.harts selection.receives selection.hartMask with
        | .ok (.ok ids) =>
          some { f with
            fences := f.fences.begin h selection.ctx ids
            selecting := Function.update f.selecting h none
            begun := Function.update f.begun h (if selection.ctx.op = .fenceI then
              some ⟨selection.hartMask, selection.before⟩ else none) }
        | .ok (.error ret) => some (f.leave h ret)
        | .error _ => none
      else none
    | none => none
  | .fence h choice =>
    if h < platform.harts.numHartMax then
      match f.fences.pc h, f.fences.handler h with
      | .idle, _ => none
      | .wait call, .none =>
        (f.fences.step platform h choice).map fun fences =>
          if fences.pc h = .idle then f.finish h fences call.result else { f with fences := fences }
      | _, _ => (f.fences.step platform h choice).map fun fences => { f with fences := fences }
    else none
  | .deliver h =>
    if h < platform.harts.numHartMax ∧ f.outside h ∧ delivers (f.life.harts.pc h) ∧
        f.delivered h = false then
      some { f with
        fences := f.fences.deliver h
        delivered := Function.update f.delivered h true }
    else none

def Step (f : Firmware platform) (action : Action platform.xlen) (f' : Firmware platform) : Prop :=
  f.step action = some f'

/-- A step in which the self-wake of a resume ticket does not fail. -/
def CommitStep (f : Firmware platform) (action : Action platform.xlen) (f' : Firmware platform) :
    Prop :=
  f.Step action f' ∧
    ∀ h, action = .life (.hart h .fail) → f.life.harts.pc h ≠ .commitSend

/-- The firmware at boot. -/
structure Initial (bootHart : Nat) (f : Firmware platform) : Prop where
  life : f.life.Initial bootHart
  fences : f.fences = .init
  selecting : ∀ h, f.selecting h = none
  begun : ∀ h, f.begun h = none
  returned : f.returned = []

end Firmware

/-- The hart is assigned to the firmware and the mask selects it. -/
def Obligation.Wants (platform : Rfence.Platform) (o : Obligation platform.xlen) (t : Nat) : Prop :=
  assigned platform.harts t = true ∧ o.hartMask.Denotes t

/-- The hart executes instructions below M-mode. -/
def Firmware.Below (f : Firmware platform) (t : Nat) : Prop :=
  f.life.harts.pc t = .lower ∧ f.outside t = true

/-- Every instruction fence that returned success was executed, since it began,
by each selected hart that is below M-mode. -/
def Firmware.NoStaleCode (f : Firmware platform) : Prop :=
  ∀ o ∈ f.returned, ∀ t, o.Wants platform t → f.Below t → o.before t < f.fenced t

/-! ## Executed instruction fences -/

/-- The hart executed an instruction fence for a request. -/
def executesFenceI (t : Nat) : Event Nat Rfence.RFenceContext → Bool
  | .executed ticket => decide (ticket.target = t ∧ ticket.data.op = .fenceI)
  | _ => false

/-- The instruction fences of a hart for requests of other calls. -/
def besides (id t : Nat) (log : List (Event Nat Rfence.RFenceContext)) : Nat :=
  log.countP fun event => executesFenceI t event && decide (event.call ≠ id)

theorem fenceI_not_mem_flush {ctx : Rfence.RFenceContext} {all : Rfence.FenceOp}
    {page : Nat → Rfence.FenceOp} (hall : all ≠ .fenceI) (hpage : ∀ addr, page addr ≠ .fenceI) :
    (Rfence.flush platform ctx all page).count .fenceI = 0 := by
  apply List.count_eq_zero_of_not_mem
  unfold Rfence.flush
  simp only
  split
  · simpa using Ne.symm hall
  · intro hmem
    obtain ⟨i, -, hi⟩ := List.mem_map.mp hmem
    exact hpage _ hi

theorem count_localHandler (ctx : Rfence.RFenceContext) :
    (Rfence.rfenceLocalHandler platform ctx).count .fenceI = if ctx.op = .fenceI then 1 else 0 := by
  unfold Rfence.rfenceLocalHandler
  cases ctx.op with
  | fenceI => rfl
  | _ =>
    rw [List.count_cons_of_ne (by simp), fenceI_not_mem_flush (by simp) (by simp), if_neg (by simp)]

theorem count_fencesOf (t : Nat) (log : List (Event Nat Rfence.RFenceContext)) :
    (Rfence.fencesOf platform t log).count .fenceI = log.countP (executesFenceI t) := by
  induction log with
  | nil => rfl
  | cons event log ih =>
    cases event with
    | executed ticket =>
      rw [Rfence.fencesOf, List.count_append, ih, List.countP_cons]
      by_cases htarget : ticket.target = t
      · simp [htarget, count_localHandler, executesFenceI]
      · simp [htarget, executesFenceI]
    | _ =>
      rw [Rfence.fencesOf, ih, List.countP_cons]
      · simp [executesFenceI]
      · simp

theorem besides_le (id t : Nat) (log : List (Event Nat Rfence.RFenceContext)) :
    besides id t log ≤ log.countP (executesFenceI t) := by
  apply List.countP_mono_left
  intro event _ hevent
  exact (Bool.and_eq_true_iff.mp hevent).1

/-- A call that was executed by a hart adds to what the hart executed besides. -/
theorem besides_lt {ticket : Ticket Nat Rfence.RFenceContext}
    {log : List (Event Nat Rfence.RFenceContext)} (hmem : .executed ticket ∈ log)
    (hop : ticket.data.op = .fenceI) :
    besides ticket.call ticket.target log < log.countP (executesFenceI ticket.target) := by
  induction log with
  | nil => cases hmem
  | cons event log ih =>
    rw [besides, List.countP_cons, List.countP_cons]
    rcases List.mem_cons.mp hmem with rfl | hmem
    · have hle := besides_le ticket.call ticket.target log
      have hexecutes : executesFenceI ticket.target (.executed ticket) = true := by
        simp [executesFenceI, hop]
      simp only [besides] at hle
      simp only [hexecutes, Event.call, ne_eq, not_true_eq_false, decide_false, Bool.and_false,
        Bool.false_eq_true, if_false, if_true]
      exact Nat.lt_succ_of_le hle
    · have hlt := ih hmem
      simp only [besides] at hlt
      cases hev : executesFenceI ticket.target event with
      | false => simpa [hev] using hlt
      | true =>
        simp only [Bool.true_and, if_true]
        split <;> omega

/-! ## Steps of the fences -/

section Fences

variable {s s' : Rfence.System} {h k : Nat}

theorem handle_other {handler : Rfence.Handler} (hstep : s.handle platform h handler = some s')
    (hk : k ≠ h) : s'.pc k = s.pc k ∧ s'.handler k = s.handler k := by
  revert hstep
  fun_cases Rfence.System.handle platform s h handler
  case case1 => rintro ⟨⟩
  all_goals
    rintro ⟨⟩
    simp [Rfence.System.goto, Rfence.System.setHandler, Rfence.System.setCell,
      Rfence.System.setLocal, Rfence.System.record, Rfence.System.issue, hk]

theorem proceed_other {pc : Rfence.Pc} {choice : Rfence.Choice platform.xlen}
    (hstep : s.proceed platform h pc choice = some s') (hk : k ≠ h) :
    s'.pc k = s.pc k ∧ s'.handler k = s.handler k := by
  revert hstep
  fun_cases Rfence.System.proceed platform s h pc choice
  case case1 | case21 => rintro ⟨⟩
  all_goals
    rintro ⟨⟩
    simp [Rfence.System.goto, Rfence.System.setHandler, Rfence.System.setCell,
      Rfence.System.setLocal, Rfence.System.record, Rfence.System.issue, Rfence.System.begin,
      Rfence.System.deliver, Rfence.System.setIpiType, hk]

/-- A step of one hart leaves the others where they are. -/
theorem fences_other {label : Nat × Rfence.Choice platform.xlen}
    (hstep : s.Step platform label s') (hk : k ≠ label.1) :
    s'.pc k = s.pc k ∧ s'.handler k = s.handler k := by
  rcases Rfence.step_cases hstep with ⟨-, hproceed⟩ | hhandle
  · exact proceed_other hproceed hk
  · exact handle_other hhandle hk

/-- The log only grows. -/
theorem fences_log {label : Nat × Rfence.Choice platform.xlen}
    (hstep : s.Step platform label s') : ∃ events, s'.log = events ++ s.log := by
  rcases Rfence.step_cases hstep with ⟨-, hproceed⟩ | hhandle
  · revert hproceed
    fun_cases Rfence.System.proceed platform s label.1 (s.pc label.1) label.2
    case case1 | case21 => rintro ⟨⟩
    all_goals
      rintro ⟨⟩
      first
        | exact ⟨[], rfl⟩
        | exact ⟨[_], rfl⟩
        | exact ⟨[_, _], rfl⟩
  · revert hhandle
    fun_cases Rfence.System.handle platform s label.1 (s.handler label.1)
    case case1 => rintro ⟨⟩
    all_goals
      rintro ⟨⟩
      first
        | exact ⟨[], rfl⟩
        | exact ⟨[_], rfl⟩

/-- Two states of one call: the number, the operation and the targets stay. -/
def SameCall (call call' : Rfence.Call) : Prop :=
  call'.id = call.id ∧ call'.ctx = call.ctx ∧
    call'.visited ++ call'.rest = call.visited ++ call.rest

/-- A step inside a call goes on in it, or ends it in the wait loop when nothing
is left to wait for. -/
theorem fences_call {label : Nat × Rfence.Choice platform.xlen} {call : Rfence.Call}
    (hstep : s.Step platform label s') (hcall : (s.pc label.1).call? = some call) :
    (∃ call', (s'.pc label.1).call? = some call' ∧ SameCall call call') ∨
      (s.pc label.1 = .wait call ∧ s.handler label.1 = .none ∧ s'.pc label.1 = .idle ∧
        (s.hartLocal label.1).rfence.isSync = true) := by
  obtain ⟨h, choice⟩ := label
  rcases Rfence.step_cases hstep with ⟨hhandler, hproceed⟩ | hhandle
  · dsimp only at hproceed hcall hhandler ⊢
    generalize hpc : s.pc h = pc at hproceed hcall
    revert hproceed
    fun_cases Rfence.System.proceed platform s h pc choice
    case case1 | case21 => rintro ⟨⟩
    case case2 | case3 | case4 | case5 | case6 => cases hcall
    case case19 call' hsync =>
      rintro ⟨⟩
      cases hcall
      exact .inr ⟨rfl, hhandler, by simp [Rfence.System.goto], hsync⟩
    case case8 call' rest hrest visit ticket =>
      rintro ⟨⟩
      cases hcall
      exact .inl ⟨visit, by simp [Rfence.System.goto, Rfence.Pc.call?], rfl, rfl, by simp [visit, hrest]⟩
    case case9 call' target rest hrest visit ticket hne =>
      rintro ⟨⟩
      cases hcall
      exact .inl ⟨visit, by simp [Rfence.System.goto, Rfence.Pc.call?], rfl, rfl, by simp [visit, hrest]⟩
    case case11 | case12 | case20 =>
      rintro ⟨⟩
      exact .inl ⟨call, by simpa [Rfence.System.setHandler, hpc] using hcall, rfl, rfl, rfl⟩
    case case16 | case17 =>
      rintro ⟨⟩
      cases hcall
      exact .inl ⟨{ call with result := .failed }, by simp [Rfence.System.goto, Rfence.Pc.call?],
        rfl, rfl, rfl⟩
    all_goals
      rintro ⟨⟩
      cases hcall
      exact .inl ⟨call, by simp [Rfence.System.goto, Rfence.Pc.call?], rfl, rfl, rfl⟩
  · dsimp only at hhandle hcall ⊢
    have hdrain : s.pc h ≠ .drain := by
      intro hdrain
      rw [hdrain] at hcall
      cases hcall
    refine .inl ⟨call, ?_, rfl, rfl, rfl⟩
    revert hhandle
    fun_cases Rfence.System.handle platform s h (s.handler h)
    case case1 => rintro ⟨⟩
    all_goals
      rintro ⟨⟩
      simpa [Rfence.System.goto, Rfence.System.setHandler, Rfence.System.setCell,
        Rfence.System.setLocal, Rfence.System.record, Rfence.System.issue, hdrain] using hcall

/-- Outside a call, only `send_ipi_by_fence` leads into one. -/
theorem fences_noCall {label : Nat × Rfence.Choice platform.xlen}
    (hstep : s.Step platform label s') (hidle : s.pc label.1 ≠ .idle)
    (hcall : (s.pc label.1).call? = none) : (s'.pc label.1).call? = none := by
  obtain ⟨h, choice⟩ := label
  have hdrain : s.pc h = .drain := by
    cases hpc : s.pc h <;> simp_all [Rfence.Pc.call?]
  rcases Rfence.step_cases hstep with ⟨-, hproceed⟩ | hhandle
  · dsimp only at hproceed ⊢
    rw [hdrain] at hproceed
    cases choice <;> cases hproceed
    exact hcall
  · dsimp only at hhandle ⊢
    revert hhandle
    fun_cases Rfence.System.handle platform s h (s.handler h)
    case case1 => rintro ⟨⟩
    all_goals
      rintro ⟨⟩
      simp [Rfence.System.goto, Rfence.System.setHandler, Rfence.System.setCell,
        Rfence.System.setLocal, Rfence.System.record, Rfence.System.issue, hdrain, Rfence.Pc.call?]

end Fences

/-! ## The invariant -/

section Invariant

variable {f f' : Firmware platform} {before : Nat → Nat} {t h : Nat}

/-- The hart has executed `fence.i` since, or will before it gets below M-mode. -/
def Firmware.Settled (f : Firmware platform) (before : Nat → Nat) (t : Nat) : Prop :=
  before t < f.fenced t ∨ f.life.harts.Owes t

/-- A call that selects its targets: what it read as unavailable is settled. -/
structure Firmware.SelectionInv (f : Firmware platform) (h : Nat)
    (selection : Selection platform.xlen) : Prop where
  lower : f.life.harts.pc h = .lower
  idle : f.fences.pc h = .idle
  handler : f.fences.handler h = .none
  bound : ∀ t, selection.before t ≤ f.fenced t
  skipped : ∀ t < platform.harts.enabled.length, t ∉ selection.rest →
    selection.receives t = false → f.Settled selection.before t

/-- An instruction fence under way: the harts it selected are among its targets
or settled. -/
def Firmware.CallInv (f : Firmware platform) (h : Nat) (o : Obligation platform.xlen) : Prop :=
  ∃ call, (f.fences.pc h).call? = some call ∧ call.ctx.op = .fenceI ∧
    (∀ t, o.before t ≤ f.handoffs t + besides call.id t f.fences.log) ∧
    ∀ t, o.Wants platform t → t ∈ call.visited ++ call.rest ∨ f.Settled o.before t

structure Firmware.Inv (f : Firmware platform) : Prop where
  machine : f.life.Inv
  exit : ∀ h, f.life.harts.ExitInv h
  resume : ∀ h, f.life.harts.ResumeInv h
  accounted : Rfence.Accounted platform.harts.numHartMax f.fences
  issued : Rfence.Issued platform f.fences
  inCall : ∀ h, (f.fences.pc h).call? ≠ none → f.life.harts.pc h = .lower
  selections : ∀ h selection, f.selecting h = some selection → f.SelectionInv h selection
  calls : ∀ h o, f.begun h = some o → f.CallInv h o
  results : ∀ o ∈ f.returned, (∀ t, o.before t ≤ f.fenced t) ∧
    ∀ t, o.Wants platform t → f.Settled o.before t

theorem fenced_eq (hissued : Rfence.Issued platform f.fences) (t : Nat) :
    f.fenced t = f.handoffs t + f.fences.log.countP (executesFenceI t) := by
  rw [Firmware.fenced, hissued t, count_fencesOf]

/-- What a step does to the fences that harts executed or owe. -/
structure Advances (f f' : Firmware platform) : Prop where
  fenced : ∀ t, f.fenced t ≤ f'.fenced t
  handoffs : ∀ t, f.handoffs t ≤ f'.handoffs t
  owes : ∀ t, f.life.harts.Owes t → f'.life.harts.Owes t ∨ f.fenced t < f'.fenced t
  log : ∃ events, f'.fences.log = events ++ f.fences.log

theorem Advances.settled (hadv : Advances f f') (hbound : before t ≤ f.fenced t)
    (hsettled : f.Settled before t) : f'.Settled before t := by
  rcases hsettled with hlt | howes
  · exact .inl (Nat.lt_of_lt_of_le hlt (hadv.fenced t))
  · rcases hadv.owes t howes with howes | hlt
    · exact .inr howes
    · exact .inl (Nat.lt_of_le_of_lt hbound hlt)

theorem besides_append (id t : Nat) (events log : List (Event Nat Rfence.RFenceContext)) :
    besides id t log ≤ besides id t (events ++ log) := by
  rw [besides, besides, List.countP_append]
  exact Nat.le_add_left _ _

theorem Firmware.CallInv.bound {o : Obligation platform.xlen}
    (hissued : Rfence.Issued platform f.fences) (hcall : f.CallInv h o) (t : Nat) :
    o.before t ≤ f.fenced t := by
  obtain ⟨call, -, -, hbound, -⟩ := hcall
  rw [fenced_eq hissued]
  have hle := besides_le call.id t f.fences.log
  have hb := hbound t
  omega

/-- A call of which the step changes nothing but what harts executed or owe. -/
theorem Advances.callInv (hadv : Advances f f') {o : Obligation platform.xlen}
    (hissued : Rfence.Issued platform f.fences) (hcall : f.CallInv h o) {call call' : Rfence.Call}
    (hbefore : (f.fences.pc h).call? = some call) (hafter : (f'.fences.pc h).call? = some call')
    (hsame : SameCall call call') : f'.CallInv h o := by
  have hbound := hcall.bound hissued
  obtain ⟨own, hown, hop, hle, hwants⟩ := hcall
  rw [hbefore, Option.some.injEq] at hown
  subst hown
  obtain ⟨hid, hctx, htargets⟩ := hsame
  obtain ⟨events, hlog⟩ := hadv.log
  refine ⟨call', hafter, hctx ▸ hop, fun t => ?_, fun t ht => ?_⟩
  · rw [hid, hlog]
    have hmono := besides_append call.id t events f.fences.log
    have hhand := hadv.handoffs t
    have hb := hle t
    omega
  · rw [htargets]
    exact (hwants t ht).imp id (hadv.settled (hbound t))

theorem Advances.callInv_same (hadv : Advances f f') {o : Obligation platform.xlen}
    (hissued : Rfence.Issued platform f.fences) (hcall : f.CallInv h o)
    (hpc : f'.fences.pc h = f.fences.pc h) : f'.CallInv h o := by
  have hsome := hcall
  obtain ⟨call, hbefore, -⟩ := hsome
  exact hadv.callInv hissued hcall hbefore (by rw [hpc, hbefore]) ⟨rfl, rfl, rfl⟩

theorem Advances.selectionInv (hadv : Advances f f') {selection : Selection platform.xlen}
    (hselection : f.SelectionInv h selection)
    (hlower : f'.life.harts.pc h = f.life.harts.pc h) (hpc : f'.fences.pc h = f.fences.pc h)
    (hhandler : f'.fences.handler h = f.fences.handler h) : f'.SelectionInv h selection where
  lower := hlower.trans hselection.lower
  idle := hpc.trans hselection.idle
  handler := hhandler.trans hselection.handler
  bound t := Nat.le_trans (hselection.bound t) (hadv.fenced t)
  skipped t ht hrest hreceives :=
    hadv.settled (hselection.bound t) (hselection.skipped t ht hrest hreceives)

theorem Advances.result (hadv : Advances f f') {o : Obligation platform.xlen}
    (ho : (∀ t, o.before t ≤ f.fenced t) ∧ ∀ t, o.Wants platform t → f.Settled o.before t) :
    (∀ t, o.before t ≤ f'.fenced t) ∧ ∀ t, o.Wants platform t → f'.Settled o.before t :=
  ⟨fun t => Nat.le_trans (ho.1 t) (hadv.fenced t),
    fun t ht => hadv.settled (ho.1 t) (ho.2 t ht)⟩

/-- A step that leaves the lifecycle of the harts and their fences as they are. -/
theorem advances_same (hharts : f'.life.harts = f.life.harts) (hhandoffs : f'.handoffs = f.handoffs)
    (hfences : f'.fences = f.fences) : Advances f f' where
  fenced t := by rw [Firmware.fenced, Firmware.fenced, hhandoffs, hfences]
  handoffs t := by rw [hhandoffs]
  owes t howes := .inl (by rw [hharts]; exact howes)
  log := ⟨[], by rw [hfences, List.nil_append]⟩

/-- A step of the fences. -/
theorem advances_fences {label : Nat × Rfence.Choice platform.xlen}
    (hissued : Rfence.Issued platform f.fences)
    (hstep : f.fences.Step platform label f'.fences)
    (howes : ∀ t, f.life.harts.Owes t → f'.life.harts.Owes t)
    (hhandoffs : f'.handoffs = f.handoffs) : Advances f f' := by
  obtain ⟨events, hlog⟩ := fences_log hstep
  refine ⟨fun t => ?_, fun t => by rw [hhandoffs], fun t ht => .inl (howes t ht), events, hlog⟩
  rw [fenced_eq hissued, fenced_eq (hissued.step hstep), hhandoffs, hlog, List.countP_append]
  omega

/-! ### Selection -/

theorem lt_of_assigned {harts : Harts} (h : assigned harts t = true) : t < harts.enabled.length := by
  simp only [assigned, Bool.and_eq_true] at h
  by_contra hge
  rw [List.getD_eq_getElem?_getD, List.getElem?_eq_none (Nat.le_of_not_lt hge)] at h
  cases h.2

/-- A hart that the mask selects is a target or was read as unavailable. -/
theorem targets_selected {harts : Harts} {receives : Nat → Bool} {xlen : Xlen}
    {hartMask : HartMask xlen} {ids : List Nat}
    (htargets : targets harts receives hartMask = .ok (.ok ids)) (hassigned : assigned harts t = true)
    (hmask : hartMask.Denotes t) : t ∈ ids ∨ receives t = false := by
  cases hreceives : receives t with
  | false => exact .inr rfl
  | true =>
    left
    have havailable : available harts receives t = true := by
      have hassigned' := hassigned
      simp only [assigned, Bool.and_eq_true] at hassigned'
      simp [available, hassigned, hreceives, of_decide_eq_true hassigned'.1]
    rcases hmask with hall | ⟨i, hbit, rfl⟩
    · rw [targets_all hall] at htargets
      cases htargets
      exact List.mem_filter.mpr ⟨List.mem_range.mpr (lt_of_assigned hassigned), havailable⟩
    · by_cases hall : hartMask.hartMaskBase = xlen.usizeMax
      · rw [targets_all hall] at htargets
        cases htargets
        exact List.mem_filter.mpr ⟨List.mem_range.mpr (lt_of_assigned hassigned), havailable⟩
      · have hne : hartMask.hartMask ≠ 0#(xlen.bits) := by
          intro hzero
          rw [hzero, BitVec.getLsbD_zero] at hbit
          cases hbit
        rw [targets_ordinary hall hne] at htargets
        simp only [Except.ok.injEq] at htargets
        cases hactive : activeMask xlen harts receives hartMask.hartMaskBase
            (Bits.setBits hartMask.hartMask) 0#(xlen.bits) with
        | error ret =>
          rw [hactive] at htargets
          cases htargets
        | ok active =>
          rw [hactive] at htargets
          cases htargets
          refine List.mem_map.mpr ⟨i, Bits.mem_setBits_iff.mpr ?_, Nat.add_comm _ _⟩
          rw [getLsbD_activeMask hactive (BitVec.lt_of_getLsbD hbit)]
          simp [Bits.mem_setBits_iff.mpr hbit, havailable]

/-! ### Steps -/

theorem lifeStep_sound {m m' : Hart.Machine Nat} {arrival : Hart.Arrival Nat}
    (hstep : lifeStep m arrival = some m') : m.Step arrival m' := by
  cases arrival with
  | enter h =>
    cases hstep
    rfl
  | hart h choice =>
    simp only [lifeStep] at hstep
    split at hstep
    · rename_i hok
      rw [Bool.and_eq_true] at hok
      obtain ⟨s, hs, rfl⟩ := Option.map_eq_some_iff.mp hstep
      refine ⟨hok.1, ?_, hs, rfl⟩
      intro target stage hpc hchoice
      subst hchoice
      simpa [releases, hpc] using hok.2
    · cases hstep

theorem outside_iff : f.outside h = true ↔
    f.selecting h = none ∧ f.fences.pc h = .idle ∧ f.fences.handler h = .none := by
  simp [Firmware.outside, Bool.and_eq_true, and_assoc]

/-- A step of the lifecycle executes a `fence.i` or leaves it owed. -/
theorem advances_life {life : Hart.Machine Nat} {choice : Hart.Choice Nat}
    (hstep : f.life.harts.CommitStep (h, choice) life.harts) :
    Advances f (f.lifeAction life (.hart h choice)) := by
  have hhandoffs : ∀ t, (f.lifeAction life (.hart h choice)).handoffs t =
      f.handoffs t + if t = h ∧ f.life.harts.executesFenceI h = true then 1 else 0 := by
    intro t
    simp only [Firmware.lifeAction]
    split
    · rename_i hexecutes
      by_cases hth : t = h
      · subst hth
        simp [hexecutes]
      · simp [hth]
    · rename_i hexecutes
      simp [hexecutes]
  have hfenced : ∀ t, (f.lifeAction life (.hart h choice)).fenced t =
      f.fenced t + if t = h ∧ f.life.harts.executesFenceI h = true then 1 else 0 := by
    intro t
    have hissued : (f.lifeAction life (.hart h choice)).fences = f.fences := rfl
    rw [Firmware.fenced, Firmware.fenced, hhandoffs, hissued]
    omega
  refine ⟨fun t => ?_, fun t => ?_, fun t howes => ?_, [], rfl⟩
  · rw [hfenced]
    exact Nat.le_add_right _ _
  · rw [hhandoffs]
    exact Nat.le_add_right _ _
  · by_cases hth : t = h
    · subst hth
      rcases Hart.owes_own hstep howes with howes' | hexecutes
      · exact .inl howes'
      · right
        rw [hfenced, if_pos ⟨rfl, hexecutes⟩]
        exact Nat.lt_succ_self _
    · exact .inl ((Hart.owes_other hstep.1 hth).mpr howes)

theorem Firmware.Inv.life (inv : f.Inv) {arrival : Hart.Arrival Nat}
    (hstep : f.CommitStep (.life arrival) f') : f'.Inv := by
  obtain ⟨hstep, hcommit⟩ := hstep
  unfold Firmware.Step at hstep
  cases arrival with
  | enter h =>
    simp only [Firmware.step] at hstep
    obtain ⟨life, hlife, rfl⟩ := Option.map_eq_some_iff.mp hstep
    have hmachine := Hart.machine_inv_step inv.machine (lifeStep_sound hlife)
    cases hlife
    have hadv : Advances f (f.lifeAction { f.life with
        entered := Function.update f.life.entered h true } (.enter h)) :=
      advances_same rfl rfl rfl
    exact ⟨hmachine, inv.exit, inv.resume, inv.accounted, inv.issued, inv.inCall,
      fun k selection hk => hadv.selectionInv (inv.selections k selection hk) rfl rfl rfl,
      fun k o hk => hadv.callInv_same inv.issued (inv.calls k o hk) rfl,
      fun o ho => hadv.result (inv.results o ho)⟩
  | hart h choice =>
    simp only [Firmware.step] at hstep
    split at hstep
    · rename_i hguard
      obtain ⟨hselecting, hidle, hhandler⟩ := outside_iff.mp (Bool.and_eq_true_iff.mp hguard).1
      obtain ⟨life, hlife, rfl⟩ := Option.map_eq_some_iff.mp hstep
      have hmachine := lifeStep_sound hlife
      have hsystem : f.life.harts.CommitStep (h, choice) life.harts := by
        refine ⟨hmachine.2.2.1, ?_⟩
        rintro ⟨hpc, hfail⟩
        dsimp only at hfail
        subst hfail
        exact hcommit h rfl hpc
      have hadv := advances_life (f := f) hsystem
      have hpc : ∀ k, k ≠ h → life.harts.pc k = f.life.harts.pc k :=
        fun k hk => Hart.step_pc_other hsystem.1 hk
      refine ⟨Hart.machine_inv_step inv.machine hmachine, fun k => ?_, fun k =>
        Hart.resumeInv_step hsystem (inv.resume k), inv.accounted, inv.issued, fun k hk => ?_,
        fun k selection hk => ?_, fun k o hk => hadv.callInv_same inv.issued (inv.calls k o hk) rfl,
        fun o ho => hadv.result (inv.results o ho)⟩
      · by_cases hkh : k = h
        · subst hkh
          exact Hart.exitInv_own inv.machine.handoff (inv.exit k) hsystem
        · exact Hart.exitInv_other inv.machine.handoff (inv.exit k) hsystem.1 hkh
      · have hkh : k ≠ h := by
          rintro rfl
          change (f.fences.pc k).call? ≠ none at hk
          rw [hidle] at hk
          exact hk rfl
        exact (hpc k hkh).trans (inv.inCall k hk)
      · have hkh : k ≠ h := by
          rintro rfl
          change f.selecting k = some selection at hk
          rw [hselecting] at hk
          cases hk
        exact hadv.selectionInv (inv.selections k selection hk) (hpc k hkh) rfl rfl
    · cases hstep

/-- A call that begins or goes on with its selection. -/
theorem Firmware.Inv.select_update (inv : f.Inv) {selection : Selection platform.xlen}
    (hselection : f.SelectionInv h selection) :
    Firmware.Inv { f with selecting := Function.update f.selecting h (some selection) } := by
  have hadv : Advances f { f with
      selecting := Function.update f.selecting h (some selection) } := advances_same rfl rfl rfl
  refine ⟨inv.machine, inv.exit, inv.resume, inv.accounted, inv.issued, inv.inCall,
    fun k selection' hk => ?_,
    fun k o hk => hadv.callInv_same inv.issued (inv.calls k o hk) rfl,
    fun o ho => hadv.result (inv.results o ho)⟩
  by_cases hkh : k = h
  · subst hkh
    have heq : selection = selection' := by simpa using hk
    subst heq
    exact hadv.selectionInv hselection rfl rfl rfl
  · have hold : f.selecting k = some selection' := by simpa [hkh] using hk
    exact hadv.selectionInv (inv.selections k selection' hold) rfl rfl rfl

theorem Firmware.Inv.call (inv : f.Inv) {hartMask : HartMask platform.xlen}
    {ctx : Rfence.RFenceContext} (hstep : f.Step (.call h hartMask ctx) f') : f'.Inv := by
  unfold Firmware.Step at hstep
  simp only [Firmware.step] at hstep
  split at hstep
  · rename_i hguard
    obtain ⟨-, hidle, hhandler⟩ := outside_iff.mp hguard.1
    cases hstep
    refine inv.select_update ⟨hguard.2, hidle, hhandler, fun _ => Nat.le_refl _, ?_⟩
    intro t ht hrest
    exact absurd (List.mem_range.mpr ht) hrest
  · cases hstep

/-- A hart that is read as unavailable owes a `fence.i`. -/
theorem Firmware.Inv.owes_of_unavailable (inv : f.Inv)
    (hread : (f.life.entered t && Hart.canReceiveIpi (f.life.harts.cell t).state) = false) :
    f.life.harts.Owes t := by
  rcases Bool.and_eq_false_iff.mp hread with hout | hstate
  · left
    rw [inv.machine.outside t hout]
    rfl
  · exact Hart.owes_of_cannot_receive inv.machine.handoff (inv.exit t) (inv.resume t) hstate

theorem Firmware.Inv.read (inv : f.Inv) (hstep : f.Step (.read h) f') : f'.Inv := by
  unfold Firmware.Step at hstep
  simp only [Firmware.step] at hstep
  split at hstep
  · rename_i selection hselecting
    split at hstep
    · rename_i t rest hrest
      cases hstep
      obtain ⟨hlower, hidle, hhandler, hbound, hskipped⟩ := inv.selections h selection hselecting
      refine inv.select_update ⟨hlower, hidle, hhandler, hbound, ?_⟩
      intro u hu hnot hreceives
      by_cases hut : u = t
      · subst hut
        dsimp only at hreceives
        rw [Function.update_self] at hreceives
        exact .inr (inv.owes_of_unavailable hreceives)
      · dsimp only at hreceives hnot
        rw [Function.update_of_ne hut] at hreceives
        refine hskipped u hu ?_ hreceives
        rw [hrest]
        exact fun hmem => (List.mem_cons.mp hmem).elim hut hnot
    · cases hstep
  · cases hstep

/-- A hart returns from its call, with the fences as they are or one step on. -/
theorem Firmware.Inv.leave (inv : f.Inv) (hlower : f.life.harts.pc h = .lower) (ret : SbiRet)
    (fences : Rfence.System) (hfences : ∀ k, k ≠ h →
      fences.pc k = f.fences.pc k ∧ fences.handler k = f.fences.handler k)
    (hidle : (fences.pc h).call? = none)
    (haccounted : Rfence.Accounted platform.harts.numHartMax fences)
    (hissued : Rfence.Issued platform fences) (returned : List (Obligation platform.xlen))
    (hadv : Advances f { ({ f with fences := fences }.leave h ret) with returned := returned })
    (hreturned : ∀ o ∈ returned, o ∈ f.returned ∨ (∀ t, o.before t ≤ f.fenced t) ∧
      ∀ t, o.Wants platform t → f.Settled o.before t) :
    Firmware.Inv { ({ f with fences := fences }.leave h ret) with returned := returned } := by
  refine ⟨Hart.machineInv_return inv.machine hlower, fun k => Hart.exitInv_return hlower (inv.exit k),
    fun k => Hart.resumeInv_return hlower (inv.resume k), haccounted, hissued, fun k hk => ?_,
    fun k selection hk => ?_, fun k o hk => ?_, fun o ho => ?_⟩
  · have hkh : k ≠ h := by
      rintro rfl
      exact hk hidle
    change (fences.pc k).call? ≠ none at hk
    rw [(hfences k hkh).1] at hk
    exact (Hart.pc_return_other hkh).trans (inv.inCall k hk)
  · have hkh : k ≠ h := by
      rintro rfl
      simp [Firmware.leave] at hk
    have hold : f.selecting k = some selection := by simpa [Firmware.leave, hkh] using hk
    exact hadv.selectionInv (inv.selections k selection hold) (Hart.pc_return_other hkh)
      (hfences k hkh).1 (hfences k hkh).2
  · have hkh : k ≠ h := by
      rintro rfl
      simp [Firmware.leave] at hk
    have hold : f.begun k = some o := by simpa [Firmware.leave, hkh] using hk
    exact hadv.callInv_same inv.issued (inv.calls k o hold) (hfences k hkh).1
  · rcases hreturned o ho with hold | hnew
    · exact hadv.result (inv.results o hold)
    · exact hadv.result hnew

/-- A step of the fences at a hart that stays where it is in the lifecycle. -/
theorem Firmware.Inv.fences_step (inv : f.Inv) {choice : Rfence.Choice platform.xlen}
    (hstep : f.fences.Step platform (h, choice) f'.fences) (hlife : f'.life = f.life)
    (hhandoffs : f'.handoffs = f.handoffs) (hreturned : f'.returned = f.returned)
    (hlower : (f'.fences.pc h).call? ≠ none → f.life.harts.pc h = .lower)
    (hselecting : ∀ k selection, f'.selecting k = some selection →
      k ≠ h ∧ f.selecting k = some selection)
    (hbegun : Advances f f' → ∀ k o, f'.begun k = some o →
      (k ≠ h ∧ f.begun k = some o) ∨ (k = h ∧ f'.CallInv h o)) : f'.Inv := by
  have hadv : Advances f f' :=
    advances_fences inv.issued hstep (fun t howes => by rw [hlife]; exact howes) hhandoffs
  have hother : ∀ k, k ≠ h → _ := fun k hk => fences_other hstep hk
  refine ⟨hlife ▸ inv.machine, fun k => hlife ▸ inv.exit k, fun k => hlife ▸ inv.resume k,
    inv.accounted.step hstep, inv.issued.step hstep, fun k hk => ?_, fun k selection hk => ?_,
    fun k o hk => ?_, fun o ho => hadv.result (inv.results o (hreturned ▸ ho))⟩
  · rw [hlife]
    by_cases hkh : k = h
    · subst hkh
      exact hlower hk
    · rw [(hother k hkh).1] at hk
      exact inv.inCall k hk
  · obtain ⟨hkh, hold⟩ := hselecting k selection hk
    exact hadv.selectionInv (inv.selections k selection hold) (by rw [hlife]) (hother k hkh).1
      (hother k hkh).2
  · rcases hbegun hadv k o hk with ⟨hkh, hold⟩ | ⟨rfl, hnew⟩
    · exact hadv.callInv_same inv.issued (inv.calls k o hold) (hother k hkh).1
    · exact hnew

/-- No call is under way at a hart that is outside. -/
theorem Firmware.Inv.begun_none (inv : f.Inv) (hidle : f.fences.pc h = .idle) : f.begun h = none := by
  cases hbegun : f.begun h with
  | none => rfl
  | some o =>
    obtain ⟨call, hcall, -⟩ := inv.calls h o hbegun
    rw [hidle] at hcall
    cases hcall

/-- A call that has just begun: its number is new, and the harts that its mask
selects are among its targets or were read as unavailable. -/
theorem Firmware.Inv.callInv_begin (inv : f.Inv) {selection : Selection platform.xlen}
    (hselecting : f.selecting h = some selection) (hrest : selection.rest = []) {ids : List Nat}
    (htargets : targets platform.harts selection.receives selection.hartMask = .ok (.ok ids))
    (hop : selection.ctx.op = .fenceI) (hadv : Advances f f')
    (hhandoffs : f'.handoffs = f.handoffs)
    (hfences : f'.fences = f.fences.begin h selection.ctx ids) :
    f'.CallInv h ⟨selection.hartMask, selection.before⟩ := by
  obtain ⟨-, -, -, hbound, hskipped⟩ := inv.selections h selection hselecting
  refine ⟨⟨f.fences.calls, selection.ctx, [], ids, .success 0⟩, ?_, hop, fun t => ?_, fun t ht => ?_⟩
  · rw [hfences]
    simp [Rfence.System.begin, Rfence.System.goto, Rfence.System.record, Rfence.Pc.call?]
  · have hfresh : besides f.fences.calls t f'.fences.log =
        f.fences.log.countP (executesFenceI t) := by
      rw [hfences]
      simp only [Rfence.System.begin, Rfence.System.record, besides]
      rw [List.countP_cons_of_neg (by simp [executesFenceI])]
      apply List.countP_congr
      intro event hevent
      have hlt : event.call < f.fences.calls := inv.accounted.inv.fresh event hevent
      simp [Nat.ne_of_lt hlt]
    have hb := hbound t
    rw [fenced_eq inv.issued] at hb
    dsimp only
    rw [hfresh, hhandoffs]
    exact hb
  · rcases targets_selected htargets ht.1 ht.2 with hmem | hreceives
    · exact .inl (by simpa using hmem)
    · have hnot : t ∉ selection.rest := by
        rw [hrest]
        exact List.not_mem_nil
      exact .inr (hadv.settled (hbound t)
        (hskipped t (lt_of_assigned ht.1) hnot hreceives))

theorem Firmware.Inv.select (inv : f.Inv) (hstep : f.Step (.select h) f') : f'.Inv := by
  unfold Firmware.Step at hstep
  simp only [Firmware.step] at hstep
  split at hstep
  · rename_i selection hselecting
    obtain ⟨hlower, hidle, hhandler, hbound, hskipped⟩ := inv.selections h selection hselecting
    split at hstep
    · rename_i hguard
      obtain ⟨hrest, hlt⟩ := hguard
      split at hstep
      · rename_i ids htargets
        cases hstep
        have hfences : f.fences.Step platform
            (h, .fence selection.hartMask selection.ctx selection.receives)
            (f.fences.begin h selection.ctx ids) := by
          refine ⟨hlt, ?_⟩
          simp [Rfence.System.step, hhandler, hidle, Rfence.System.proceed, htargets]
        refine inv.fences_step hfences rfl rfl rfl (fun _ => hlower) (fun k selection' hk => ?_)
          fun hadv k o hk => ?_
        · have hkh : k ≠ h := by
            rintro rfl
            simp at hk
          exact ⟨hkh, by simpa [hkh] using hk⟩
        · by_cases hkh : k = h
          · subst hkh
            dsimp only at hk
            rw [Function.update_self] at hk
            split at hk
            · rename_i hop
              cases hk
              exact .inr ⟨rfl, inv.callInv_begin hselecting hrest htargets hop hadv rfl rfl⟩
            · cases hk
          · exact .inl ⟨hkh, by simpa [hkh] using hk⟩
      · rename_i ret _
        cases hstep
        have hadv : Advances f { (f.leave h ret) with returned := f.returned } :=
          ⟨fun _ => Nat.le_refl _, fun _ => Nat.le_refl _,
            fun t howes => .inl (Hart.owes_return hlower howes), [], rfl⟩
        exact inv.leave hlower ret f.fences (fun _ _ => ⟨rfl, rfl⟩) (by rw [hidle]; rfl)
          inv.accounted inv.issued f.returned hadv fun o ho => .inl ho
      · cases hstep
    · cases hstep
  · cases hstep

theorem Firmware.Inv.deliver (inv : f.Inv) (hstep : f.Step (.deliver h) f') : f'.Inv := by
  unfold Firmware.Step at hstep
  simp only [Firmware.step] at hstep
  split at hstep
  · rename_i hguard
    obtain ⟨hlt, houtside, hdelivers, -⟩ := hguard
    obtain ⟨hselecting, hidle, hhandler⟩ := outside_iff.mp houtside
    cases hstep
    have hfences : f.fences.Step platform (h, .deliver) (f.fences.deliver h) := by
      refine ⟨hlt, ?_⟩
      simp [Rfence.System.step, hhandler, hidle, Rfence.System.proceed]
    refine inv.fences_step hfences rfl rfl rfl (fun hcall => ?_) (fun k selection hk => ?_)
      fun _ k o hk => ?_
    · refine absurd ?_ hcall
      simp only [Rfence.System.deliver, Rfence.System.goto, Function.update_self]
      split <;> rfl
    · refine ⟨?_, hk⟩
      rintro rfl
      rw [hselecting] at hk
      cases hk
    · refine .inl ⟨?_, hk⟩
      rintro rfl
      rw [inv.begun_none hidle] at hk
      cases hk
  · cases hstep

/-- An instruction fence that is about to return success was executed by each of
its targets. -/
theorem Firmware.Inv.settled_of_wait (inv : f.Inv) {o : Obligation platform.xlen}
    (hbegun : f.begun h = some o) {call : Rfence.Call} (hpc : f.fences.pc h = .wait call)
    (hsync : (f.fences.hartLocal h).rfence.isSync = true) (hresult : call.result = .success 0) :
    (∀ t, o.before t ≤ f.fenced t) ∧ ∀ t, o.Wants platform t → f.Settled o.before t := by
  have hcall := inv.calls h o hbegun
  refine ⟨hcall.bound inv.issued, fun t ht => ?_⟩
  obtain ⟨own, hown, hop, hle, hwants⟩ := hcall
  rw [hpc] at hown
  cases hown
  rcases hwants t ht with hmem | hsettled
  · left
    have hok := inv.accounted.pcOk h
    rw [hpc] at hok
    have hvisited : t ∈ call.visited := by simpa [hok.2 hresult] using hmem
    have hactive : (f.fences.ledger platform.harts.numHartMax).active h = some call.toLedger := by
      change (f.fences.pc h).call?.map Rfence.Call.toLedger = _
      rw [hpc]
      rfl
    have hexecuted : .executed (call.toLedger.ticket h t) ∈ f.fences.log :=
      inv.accounted.inv.executed hactive (inv.accounted.settled_of_isSync hpc hsync)
        (decide_eq_true hresult) hvisited
    have hlt : besides call.id t f.fences.log < f.fences.log.countP (executesFenceI t) :=
      besides_lt hexecuted hop
    rw [fenced_eq inv.issued]
    have hb := hle t
    omega
  · exact hsettled

/-- A call goes on, or a handler does. -/
theorem Firmware.Inv.fence_stay (inv : f.Inv) {choice : Rfence.Choice platform.xlen}
    {fences : Rfence.System} (hstep : f.fences.Step platform (h, choice) fences)
    (hidle : f.fences.pc h ≠ .idle)
    (hstay : ∀ call, f.fences.pc h = .wait call → f.fences.handler h = .none → fences.pc h ≠ .idle) :
    Firmware.Inv { f with fences := fences } := by
  refine inv.fences_step hstep rfl rfl rfl (fun hcall => ?_) (fun k selection hk => ?_)
    fun hadv k o hk => ?_
  · cases hbefore : (f.fences.pc h).call? with
    | none => exact absurd (fences_noCall hstep hidle hbefore) hcall
    | some call => exact inv.inCall h (by rw [hbefore]; exact Option.some_ne_none call)
  · refine ⟨?_, hk⟩
    rintro rfl
    exact hidle (inv.selections k selection hk).idle
  · by_cases hkh : k = h
    · subst hkh
      have hcall := inv.calls k o hk
      obtain ⟨call, hbefore, -⟩ := inv.calls k o hk
      rcases fences_call hstep hbefore with ⟨call', hafter, hsame⟩ | ⟨hwait, hhandler, hended, -⟩
      · exact .inr ⟨rfl, hadv.callInv inv.issued hcall hbefore hafter hsame⟩
      · exact absurd hended (hstay call hwait hhandler)
    · exact .inl ⟨hkh, hk⟩

/-- A call returns. -/
theorem Firmware.Inv.finish (inv : f.Inv) {choice : Rfence.Choice platform.xlen}
    {fences : Rfence.System} (hstep : f.fences.Step platform (h, choice) fences)
    {call : Rfence.Call} (hpc : f.fences.pc h = .wait call) (hidle : fences.pc h = .idle) :
    (f.finish h fences call.result).Inv := by
  have hbefore : (f.fences.pc h).call? = some call := by
    rw [hpc]
    rfl
  have hlower : f.life.harts.pc h = .lower :=
    inv.inCall h (by rw [hbefore]; exact Option.some_ne_none call)
  have hsync : (f.fences.hartLocal h).rfence.isSync = true := by
    rcases fences_call hstep hbefore with ⟨call', hafter, -⟩ | ⟨-, -, -, hsync⟩
    · rw [hidle] at hafter
      cases hafter
    · exact hsync
  have hadv : Advances f (f.finish h fences call.result) :=
    advances_fences inv.issued hstep (fun t howes => Hart.owes_return hlower howes) rfl
  refine inv.leave hlower call.result fences (fun k hk => fences_other hstep hk)
    (by rw [hidle]; rfl) (inv.accounted.step hstep) (inv.issued.step hstep) _ hadv fun o ho => ?_
  split at ho
  · rename_i hresult
    rcases List.mem_append.mp ho with hnew | hold
    · have hbegun : f.begun h = some o := by simpa using hnew
      exact .inr (inv.settled_of_wait hbegun hpc hsync hresult)
    · exact .inl hold
  · exact .inl ho

theorem Firmware.Inv.fence (inv : f.Inv) {choice : Rfence.Choice platform.xlen}
    (hstep : f.Step (.fence h choice) f') : f'.Inv := by
  unfold Firmware.Step at hstep
  simp only [Firmware.step] at hstep
  split at hstep
  · rename_i hlt
    split at hstep
    · cases hstep
    · rename_i call hpc hhandler
      obtain ⟨fences, hfences, rfl⟩ := Option.map_eq_some_iff.mp hstep
      split
      · rename_i hidle
        exact inv.finish ⟨hlt, hfences⟩ hpc hidle
      · rename_i hidle
        exact inv.fence_stay ⟨hlt, hfences⟩ (by rw [hpc]; simp) fun _ _ _ => hidle
    · rename_i hnotIdle hnotWait
      obtain ⟨fences, hfences, rfl⟩ := Option.map_eq_some_iff.mp hstep
      refine inv.fence_stay ⟨hlt, hfences⟩ (fun hidle => ?_) fun call hpc hhandler => ?_
      · exact hnotIdle hidle
      · exact absurd hhandler (hnotWait call hpc)
  · cases hstep

theorem firmware_inv_step (inv : f.Inv) {action : Action platform.xlen}
    (hstep : f.CommitStep action f') : f'.Inv := by
  cases action with
  | life arrival => exact inv.life hstep
  | call h hartMask ctx => exact inv.call hstep.1
  | read h => exact inv.read hstep.1
  | select h => exact inv.select hstep.1
  | fence h choice => exact inv.fence hstep.1
  | deliver h => exact inv.deliver hstep.1

theorem firmware_inv_initial {bootHart : Nat} (hinit : f.Initial bootHart) : f.Inv where
  machine := Hart.machine_inv_initial hinit.life
  exit := Hart.exitInv_initial hinit.life.1
  resume := Hart.resumeInv_initial hinit.life.1
  accounted := hinit.fences ▸ Rfence.accounted_init _
  issued := hinit.fences ▸ fun _ => rfl
  inCall h hcall := by
    rw [hinit.fences] at hcall
    exact absurd rfl hcall
  selections h selection hk := by
    rw [hinit.selecting h] at hk
    cases hk
  calls h o hk := by
    rw [hinit.begun h] at hk
    cases hk
  results o ho := by
    rw [hinit.returned] at ho
    cases ho

end Invariant

/-- In every run in which no resume ticket fails to send its wake interrupt, a
hart that the mask of a successful `remote_fence_i` selects is below M-mode only
after it executed `fence.i` since the call began, whether it was a target of the
call or was skipped. -/
theorem remoteFenceI_no_stale_code {bootHart : Nat} {f : Firmware platform}
    (hreach : Reachable (Firmware.Initial bootHart) Firmware.CommitStep f) : f.NoStaleCode := by
  have inv : f.Inv :=
    hreach.invariant (fun _ => firmware_inv_initial) fun _ _ _ inv hstep => firmware_inv_step inv hstep
  intro o ho t hwants hbelow
  rcases (inv.results o ho).2 t hwants with hlt | howes
  · exact hlt
  · exact absurd howes (Hart.not_owes_of_lower hbelow.1)

/-! ## Runs of two harts -/

/-- The steps of the firmware one after another. -/
def Firmware.exec (f : Firmware platform) : List (Action platform.xlen) → Option (Firmware platform)
  | [] => some f
  | action :: rest => (f.step action).bind (·.exec rest)

/-- The step is a device failure. -/
def Action.fails {xlen : Xlen} : Action xlen → Bool
  | .life (.hart _ .fail) => true
  | _ => false

theorem run_of_exec {actions : List (Action platform.xlen)} :
    ∀ {f f' : Firmware platform}, f.exec actions = some f' →
      Run Firmware.Step f actions f' := by
  induction actions with
  | nil =>
    intro f f' h
    cases h
    exact .nil f
  | cons action rest ih =>
    intro f f' h
    obtain ⟨f₁, hstep, hrest⟩ := Option.bind_eq_some_iff.mp h
    exact .cons hstep (ih hrest)

theorem commitRun_of_run {actions : List (Action platform.xlen)} {f f' : Firmware platform}
    (hrun : Run Firmware.Step f actions f')
    (hok : (actions.all fun action => !action.fails) = true) :
    Run Firmware.CommitStep f actions f' := by
  induction hrun with
  | nil f => exact .nil f
  | @cons f f₁ f' action actions hstep _ ih =>
    rw [List.all_cons, Bool.and_eq_true] at hok
    refine .cons ⟨hstep, fun h haction => ?_⟩ (ih hok.2)
    rw [haction] at hok
    cases hok.1

/-- Two harts at boot. -/
def twoAtBoot : Firmware Rfence.twoHarts where
  life :=
    { harts :=
        { cell := fun _ => .new
          pc := fun h => if h = 0 then .stageReserve ⟨0x80200000, 1, .supervisor⟩ else
            .clear .finisher
          ticket := fun _ => none
          pending := fun _ => false
          history := fun _ => [] }
      entered := fun _ => true }
  fences := .init
  delivered := fun _ => false
  handoffs := fun _ => 0
  selecting := fun _ => none
  begun := fun _ => none
  returned := []

theorem twoAtBoot_initial : twoAtBoot.Initial 0 :=
  ⟨⟨⟨⟨_, rfl⟩, fun _ hne => if_neg hne, fun _ => ⟨rfl, rfl, rfl⟩⟩, rfl⟩, rfl, fun _ => rfl,
    fun _ => rfl, rfl⟩

/-- Some steps of the lifecycle of one hart. -/
def proceeds (h n : Nat) : List (Action .rv32) := List.replicate n (.life (.hart h .proceed))

/-- Hart 0 boots and starts hart 1, which suspends and reserves its resume; hart
0 then fences the instructions of hart 1, which it finds resuming, and returns. -/
def skipsResuming : List (Action .rv32) :=
  proceeds 0 7 ++ .deliver 0 :: proceeds 0 2 ++
    .life (.hart 0 (.hartStart 1 ⟨0x80200000, 7, .supervisor⟩)) :: proceeds 0 6 ++
    proceeds 1 4 ++ .deliver 1 :: proceeds 1 2 ++
    .life (.hart 1 (.hartSuspend (.nonRetentive ⟨0x80300000, 2, .supervisor⟩))) :: proceeds 1 1 ++
    .deliver 1 :: proceeds 1 4 ++
    [.call 0 ⟨2#32, 0⟩ ⟨0, 0, 0, 0, .fenceI⟩, .read 0, .read 0, .select 0, .fence 0 .proceed,
      .fence 0 .proceed] ++ proceeds 1 1

set_option maxRecDepth 16000 in
/-- The skipped hart resumes: it executes `fence.i` before it runs. -/
theorem remoteFenceI_resumes : ∃ f : Firmware Rfence.twoHarts,
    Reachable (Firmware.Initial 0) Firmware.CommitStep f ∧ f.returned.length = 1 ∧ f.Below 1 ∧
      f.NoStaleCode := by
  obtain ⟨f, hexec, hreturned, hlower, houtside⟩ : ∃ f,
      twoAtBoot.exec (skipsResuming ++ proceeds 1 5) = some f ∧ f.returned.length = 1 ∧
        f.life.harts.pc 1 = .lower ∧ f.outside 1 = true := ⟨_, rfl, rfl, rfl, rfl⟩
  have hreach : Reachable (Firmware.Initial 0) Firmware.CommitStep f :=
    ⟨twoAtBoot, _, twoAtBoot_initial, commitRun_of_run (run_of_exec hexec) rfl⟩
  exact ⟨f, hreach, hreturned, ⟨hlower, houtside⟩, remoteFenceI_no_stale_code hreach⟩

set_option maxRecDepth 16000 in
/-- The ticket of the skipped hart fails to send: the hart goes on below M-mode
without a `fence.i` since the call began. -/
theorem failed_resume_runs_stale_code : ∃ f : Firmware Rfence.twoHarts,
    Reachable (Firmware.Initial 0) Firmware.Step f ∧ ¬ f.NoStaleCode := by
  obtain ⟨f, hexec, hlower, houtside, o, hreturned, hmask, hbefore⟩ : ∃ f,
      twoAtBoot.exec (skipsResuming ++ .life (.hart 1 .fail) :: proceeds 1 3) = some f ∧
        f.life.harts.pc 1 = .lower ∧ f.outside 1 = true ∧
        ∃ o, f.returned = [o] ∧ o.hartMask = ⟨2#32, 0⟩ ∧ o.before 1 = f.fenced 1 :=
    ⟨_, rfl, rfl, rfl, _, rfl, rfl, rfl⟩
  refine ⟨f, ⟨twoAtBoot, _, twoAtBoot_initial, run_of_exec hexec⟩, fun hfresh => ?_⟩
  have hwants : o.Wants Rfence.twoHarts 1 :=
    ⟨by decide, .inr ⟨1, by rw [hmask]; decide, by rw [hmask]⟩⟩
  have hlt := hfresh o (by rw [hreturned]; exact List.mem_cons_self) 1 hwants ⟨hlower, houtside⟩
  rw [hbefore] at hlt
  exact Nat.lt_irrefl _ hlt

end RustSbi.RemoteFence
