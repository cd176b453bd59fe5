import RustSbi.Sbi.HartMask
import RustSbi.Lib.Ledger
import RustSbi.Lib.Transition

/-!
Remote fences of the prototyper: the queue and the wait count of each hart, the
caller's side `send_ipi_by_fence`, the target's side in the interrupt handler
and in the polling of a caller that waits, and the interleaving of their atomic
steps on all harts. Numbers of calls and the event log are not part of the
firmware; they tell one request from another.
-/

namespace RustSbi.Rfence

open Ipi Ledger Transition

/-! ## Fence operations -/

/-- `RFenceType`; the last four need the hypervisor feature. -/
inductive RFenceType
  | fenceI
  | sfenceVma
  | sfenceVmaAsid
  | hfenceGvmaVmid
  | hfenceGvma
  | hfenceVvmaAsid
  | hfenceVvma
  deriving DecidableEq, Repr

/-- `RFenceContext`. -/
structure RFenceContext where
  startAddr : Nat
  size : Nat
  asid : Nat
  vmid : Nat
  op : RFenceType
  deriving DecidableEq, Repr

/-- What the local handler does: it counts a PMU firmware event and issues
fence instructions. -/
inductive FenceOp
  | pmuIncrement (firmwareEvent : Nat)
  | fenceI
  | sfenceVmaAll
  | sfenceVmaAddr (addr : Nat)
  | sfenceVmaAsid (asid : Nat)
  | sfenceVmaAddrAsid (addr asid : Nat)
  | hfenceGvmaVmid (vmid : Nat)
  | hfenceGvmaAddrVmid (addr vmid : Nat)
  | hfenceGvmaAll
  | hfenceGvmaAddr (addr : Nat)
  | hfenceVvmaAsid (asid : Nat)
  | hfenceVvmaAddrAsid (addr asid : Nat)
  | hfenceVvmaAll
  | hfenceVvmaAddr (addr : Nat)
  deriving DecidableEq, Repr

/-- The platform: its word size, its harts, and `PAGE_SIZE` and
`TLB_FLUSH_LIMIT` of the build configuration. -/
structure Platform where
  xlen : Xlen
  harts : Harts
  pageSize : Nat
  tlbFlushLimit : Nat

variable {platform : Platform}

/-- The fence of a whole address space, or of each page of the range. -/
def flush (platform : Platform) (ctx : RFenceContext) (all : FenceOp) (page : Nat → FenceOp) :
    List FenceOp :=
  let fullFlush := (ctx.startAddr = 0 ∧ ctx.size = 0) ∨ ctx.size = platform.xlen.usizeMax ∨
    (platform.tlbFlushLimit < ctx.size ∧ ctx.size ≠ platform.xlen.usizeMax)
  if fullFlush then [all]
  else
    let pages := (ctx.size + (platform.pageSize - 1)) / platform.pageSize
    (List.range pages).map fun i =>
      page ((ctx.startAddr + i * platform.pageSize) % platform.xlen.words)

/-- `rfence_local_handler`. -/
def rfenceLocalHandler (platform : Platform) (ctx : RFenceContext) : List FenceOp :=
  match ctx.op with
  | .fenceI => [.pmuIncrement 9, .fenceI]
  | .sfenceVma => .pmuIncrement 11 :: flush platform ctx .sfenceVmaAll .sfenceVmaAddr
  | .sfenceVmaAsid =>
    .pmuIncrement 13 ::
      flush platform ctx (.sfenceVmaAsid ctx.asid) (.sfenceVmaAddrAsid · ctx.asid)
  | .hfenceGvmaVmid =>
    .pmuIncrement 17 ::
      flush platform ctx (.hfenceGvmaVmid ctx.vmid) (.hfenceGvmaAddrVmid · ctx.vmid)
  | .hfenceGvma => .pmuIncrement 15 :: flush platform ctx .hfenceGvmaAll .hfenceGvmaAddr
  | .hfenceVvmaAsid =>
    .pmuIncrement 21 ::
      flush platform ctx (.hfenceVvmaAsid ctx.asid) (.hfenceVvmaAddrAsid · ctx.asid)
  | .hfenceVvma => .pmuIncrement 19 :: flush platform ctx .hfenceVvmaAll .hfenceVvmaAddr

/-! ## The fence cell of a hart -/

/-- `QUEUE_CAP`. -/
def queueCap : Nat := 16

/-- A queued `(RFenceContext, usize)`, with the number of the call it belongs to. -/
structure Entry where
  ctx : RFenceContext
  source : Nat
  call : Nat
  deriving DecidableEq, Repr

/-- `RFenceCell`. -/
structure RFenceCell where
  queue : List Entry
  waitSyncCount : BitVec 32

namespace RFenceCell

/-- `RFenceCell::new`. -/
def new : RFenceCell := ⟨[], 0#32⟩

/-- `RFenceCell::try_push` when the lock is free. -/
def tryPush (cell : RFenceCell) (entry : Entry) : Option RFenceCell :=
  if queueCap ≤ cell.queue.length then none
  else some { cell with queue := cell.queue ++ [entry] }

/-- `LocalRFenceCell::is_sync`. -/
def isSync (cell : RFenceCell) : Bool := cell.waitSyncCount == 0#32

/-- `LocalRFenceCell::add`. -/
def add (cell : RFenceCell) : RFenceCell := { cell with waitSyncCount := cell.waitSyncCount + 1#32 }

/-- `LocalRFenceCell::get`. -/
def get (cell : RFenceCell) : Option (Entry × RFenceCell) :=
  match cell.queue with
  | [] => none
  | entry :: rest => some (entry, { cell with queue := rest })

/-- `RemoteRFenceCell::cancel`, with the entry that it removes. -/
def cancel (cell : RFenceCell) (sourceHart : Nat) : Option (Entry × RFenceCell) :=
  match cell.queue.findIdx? (fun entry => entry.source == sourceHart) with
  | none => none
  | some index =>
    cell.queue[index]?.map fun entry =>
      (entry, { cell with queue := cell.queue.eraseIdx index })

/-- `RemoteRFenceCell::sub`. -/
def sub (cell : RFenceCell) : RFenceCell := { cell with waitSyncCount := cell.waitSyncCount - 1#32 }

end RFenceCell

/-! ## Harts -/

/-- `IPI_TYPE_SSOFT`. -/
def ipiTypeSsoft : BitVec 8 := 1#8 <<< 0

/-- `IPI_TYPE_FENCE`. -/
def ipiTypeFence : BitVec 8 := 1#8 <<< 1

/-- The fields of `HartLocal` that fences and interrupts use, with the pending
supervisor software interrupt of the hart and the fences it has issued. -/
structure HartLocal where
  rfence : RFenceCell
  ipiType : BitVec 8
  supervisorSoft : Bool
  issued : List FenceOp

/-- `HartLocal::new`. -/
def HartLocal.new : HartLocal := ⟨.new, 0#8, false, []⟩

/-- The variables of `send_ipi_by_fence`. The targets already visited are kept
beside those that the iterator has still to give. -/
structure Call where
  id : Nat
  ctx : RFenceContext
  visited : List Nat
  rest : List Nat
  result : SbiRet
  deriving DecidableEq, Repr

/-- Where a hart is. -/
inductive Pc
  /-- Outside the code of this module. -/
  | idle
  /-- In the loop of `rfence_handler`. -/
  | drain
  /-- At the head of the target loop of `send_ipi_by_fence`. -/
  | next (call : Call)
  /-- In `remote.set`, with the request counted. -/
  | push (call : Call) (target : Nat)
  /-- Before `set_ipi_type`. -/
  | mark (call : Call) (target : Nat)
  /-- Before `self.send_ipi`. -/
  | send (call : Call) (target : Nat)
  /-- Before `remote.cancel`. -/
  | cancel (call : Call) (target : Nat)
  /-- After a cancellation that removed the request, before `sub`. -/
  | uncount (call : Call) (entry : Entry) (target : Nat)
  /-- At the head of the `is_sync` loop. -/
  | wait (call : Call)
  deriving DecidableEq, Repr

/-- How far a call of `rfence_poll` or `rfence_single_handler` has come. -/
inductive Handler
  | none
  /-- In `rfence_poll`, before the load of the pending types. -/
  | poll
  /-- Before `local_rf.get`. -/
  | get
  /-- With a request popped, before `rfence_local_handler`. -/
  | execute (entry : Entry)
  /-- After it, before `sub`. -/
  | acknowledge (entry : Entry)
  deriving DecidableEq, Repr

/-- What the environment decides about a step. -/
inductive Choice (xlen : Xlen)
  /-- The hart calls `send_ipi_by_fence`; `receives` says which harts can
  receive an interrupt at that time. -/
  | fence (hartMask : HartMask xlen) (ctx : RFenceContext) (receives : Nat → Bool)
  /-- The hart enters `deliver_current`. -/
  | deliver
  /-- The hart marks a supervisor software interrupt pending for another. -/
  | markSoft (target : Nat)
  | proceed
  /-- Another hart holds the lock of the queue. -/
  | locked
  /-- The interrupt device reports a failure. -/
  | fail

/-- All harts of the machine. -/
structure System where
  hartLocal : Nat → HartLocal
  pc : Nat → Pc
  handler : Nat → Handler
  calls : Nat
  /-- What has happened, newest first. -/
  log : List (Event Nat RFenceContext)

namespace System

def goto (s : System) (h : Nat) (pc : Pc) : System := { s with pc := Function.update s.pc h pc }

def setHandler (s : System) (h : Nat) (handler : Handler) : System :=
  { s with handler := Function.update s.handler h handler }

def setLocal (s : System) (h : Nat) (hartLocal : HartLocal) : System :=
  { s with hartLocal := Function.update s.hartLocal h hartLocal }

/-- A write of the fence cell of a hart. -/
def setCell (s : System) (h : Nat) (cell : RFenceCell) : System :=
  s.setLocal h { s.hartLocal h with rfence := cell }

/-- `set_ipi_type`. -/
def setIpiType (s : System) (h : Nat) (eventId : BitVec 8) : System :=
  s.setLocal h { s.hartLocal h with ipiType := (s.hartLocal h).ipiType ||| eventId }

/-- The hart issues the instructions of `rfence_local_handler`. -/
def issue (platform : Platform) (s : System) (h : Nat) (ctx : RFenceContext) : System :=
  s.setLocal h { s.hartLocal h with
    issued := (s.hartLocal h).issued ++ rfenceLocalHandler platform ctx }

def record (s : System) (event : Event Nat RFenceContext) : System :=
  { s with log := event :: s.log }

end System

/-- The request that an entry stands for in the queue of a hart. -/
def Entry.ticket (entry : Entry) (target : Nat) : Ticket Nat RFenceContext :=
  ⟨entry.call, entry.source, target, entry.ctx⟩

/-- The entry that a call of `source` pushes. -/
def Call.entry (call : Call) (source : Nat) : Entry := ⟨call.ctx, source, call.id⟩

/-! ## Steps -/

/-- The step of a hart inside `rfence_poll` or `rfence_single_handler`. -/
def System.handle (platform : Platform) (s : System) (h : Nat) : Handler → Option System
  | .none => none
  | .poll =>
    if (s.hartLocal h).ipiType &&& ipiTypeFence ≠ 0#8 then some (s.setHandler h .get)
    else some (s.setHandler h .none)
  | .get =>
    match (s.hartLocal h).rfence.get with
    | some (entry, cell) => some ((s.setCell h cell).setHandler h (.execute entry))
    | none =>
      -- an empty queue ends the loop of `rfence_handler`
      some ((s.setHandler h .none).goto h (if s.pc h = .drain then .idle else s.pc h))
  | .execute entry =>
    some (((s.issue platform h entry.ctx).record (.executed (entry.ticket h))).setHandler h
      (.acknowledge entry))
  | .acknowledge entry =>
    some ((s.setCell entry.source (s.hartLocal entry.source).rfence.sub).setHandler h .none)

/-- `deliver_current` until it enters `rfence_handler`. -/
def System.deliver (s : System) (h : Nat) : System :=
  let ipiType := (s.hartLocal h).ipiType
  (s.setLocal h { s.hartLocal h with
    ipiType := 0#8
    supervisorSoft := (s.hartLocal h).supervisorSoft || (ipiType &&& ipiTypeSsoft ≠ 0#8) }).goto h
      (if ipiType &&& ipiTypeFence ≠ 0#8 then .drain else .idle)

/-- The first step of `send_ipi_by_fence`, in which it selects its targets. -/
def System.begin (s : System) (h : Nat) (ctx : RFenceContext) (ids : List Nat) : System :=
  { (s.goto h (.next ⟨s.calls, ctx, [], ids, .success 0⟩)).record (.began s.calls h ctx ids) with
    calls := s.calls + 1 }

/-- The next atomic step of hart `h` when no handler runs on it. -/
def System.proceed (platform : Platform) (s : System) (h : Nat) :
    Pc → Choice platform.xlen → Option System
  | .idle, .fence hartMask ctx receives =>
    match targets platform.harts receives hartMask with
    | .error _ => none
    | .ok (.error _) => some s
    | .ok (.ok ids) => some (s.begin h ctx ids)
  | .idle, .deliver => some (s.deliver h)
  | .idle, .markSoft target => some (s.setIpiType target ipiTypeSsoft)
  | .drain, .proceed => some (s.setHandler h .get)
  | .next call, .proceed =>
    match call.rest with
    | [] => some (s.goto h (.wait call))
    | target :: rest =>
      let visit := { call with visited := call.visited ++ [target], rest := rest }
      let ticket := (call.entry h).ticket target
      if target = h then
        some ((((s.issue platform h call.ctx).record (.requested ticket)).record
          (.executed ticket)).goto h (.next visit))
      else
        some (((s.setCell h (s.hartLocal h).rfence.add).record (.requested ticket)).goto h
          (.push visit target))
  | .push call target, .proceed =>
    match (s.hartLocal target).rfence.tryPush (call.entry h) with
    | some cell => some ((s.setCell target cell).goto h (.mark call target))
    | none => some (s.setHandler h .poll)
  | .push _ _, .locked => some (s.setHandler h .poll)
  | .mark call target, .proceed =>
    some ((s.setIpiType target ipiTypeFence).goto h (.send call target))
  | .send call _, .proceed => some (s.goto h (.next call))
  | .send call target, .fail => some (s.goto h (.cancel call target))
  | .cancel call target, .proceed =>
    match (s.hartLocal target).rfence.cancel h with
    | some (entry, cell) =>
      some (((s.setCell target cell).record (.cancelled (entry.ticket target))).goto h
        (.uncount { call with result := .failed } entry target))
    | none => some (s.goto h (.wait { call with result := .failed }))
  | .uncount call _ _, .proceed =>
    some ((s.setCell h (s.hartLocal h).rfence.sub).goto h (.wait call))
  | .wait call, .proceed =>
    if (s.hartLocal h).rfence.isSync then
      some ((s.record (.returned call.id (call.result = .success 0))).goto h .idle)
    else some (s.setHandler h .poll)
  | _, _ => none

/-- The next atomic step of hart `h`. -/
def System.step (platform : Platform) (s : System) (h : Nat) (choice : Choice platform.xlen) :
    Option System :=
  match s.handler h, choice with
  | .none, _ => s.proceed platform h (s.pc h) choice
  | handler, .proceed => s.handle platform h handler
  | _, _ => none

/-- A step of the machine: one of its harts takes its next atomic step. -/
def System.Step (platform : Platform) (s : System) (label : Nat × Choice platform.xlen)
    (s' : System) : Prop :=
  label.1 < platform.harts.numHartMax ∧ s.step platform label.1 label.2 = some s'

/-- A step is one of the handler that runs on the hart, or else one of its own. -/
theorem step_cases {s s' : System} {label : Nat × Choice platform.xlen}
    (hstep : s.Step platform label s') :
    (s.handler label.1 = .none ∧
      s.proceed platform label.1 (s.pc label.1) label.2 = some s') ∨
      s.handle platform label.1 (s.handler label.1) = some s' := by
  replace hstep := hstep.2
  unfold System.step at hstep
  split at hstep
  · rename_i hhandler
    exact .inl ⟨hhandler, hstep⟩
  · exact .inr hstep
  · cases hstep

/-- The machine after `hart_local::init`. -/
def System.init : System := ⟨fun _ => .new, fun _ => .idle, fun _ => .none, 0, []⟩

/-- The harts take the given steps one after another. -/
def System.exec (platform : Platform) (s : System) :
    List (Nat × Choice platform.xlen) → Option System
  | [] => some s
  | label :: rest =>
    if label.1 < platform.harts.numHartMax then
      (s.step platform label.1 label.2).bind (·.exec platform rest)
    else none

theorem run_of_exec {labels : List (Nat × Choice platform.xlen)} :
    ∀ {s s' : System}, s.exec platform labels = some s' → Run (System.Step platform) s labels s' := by
  induction labels with
  | nil =>
    intro s s' h
    cases h
    exact .nil s
  | cons label rest ih =>
    intro s s' h
    unfold System.exec at h
    split at h
    · rename_i hlt
      obtain ⟨s₁, hstep, hrest⟩ := Option.bind_eq_some_iff.mp h
      exact .cons ⟨hlt, hstep⟩ (ih hrest)
    · cases h

end RustSbi.Rfence
