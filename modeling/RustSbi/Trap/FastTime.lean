import RustSbi.Trap.Precise

/-!
Reads of `time` that trap. The normal entry saves the registers in two parts: before the
callee-saved ones it tries a fast read of the device counter, and only then hands the complete
frame to the dispatcher, whose illegal-instruction handler decodes the read again. Both leave the
same hart and the same firmware events.
-/

namespace RustSbi.Trap

variable {xlen : Xlen} {σ : Type}

/-! ## Time sources -/

/-- `TimerDevice`, as it answers during the trap. -/
structure TimerDevice (xlen : Xlen) where
  readTime : Option (BitVec 64)
  readTimeLow : Option (Word xlen)
  /-- On RV32 only. -/
  readTimeHigh : Option (Word xlen)

/-- `CSR_TIME`. -/
def csrTime : BitVec 16 := 0xC01#16

/-- `CSR_TIMEH`. -/
def csrTimeh : BitVec 16 := 0xC81#16

/-- `device_counter_word`. -/
def deviceCounterWord (timer : Option (TimerDevice xlen)) (csr : BitVec 16) : Option (Word xlen) :=
  match timer with
  | none => none
  | some timer =>
    if csr = csrTime then timer.readTimeLow
    else if xlen = .rv32 ∧ csr = csrTimeh then timer.readTimeHigh
    else none

/-- `machine_time`. -/
def machineTime (timer : Option (TimerDevice xlen)) : Option (BitVec 64) :=
  timer.bind TimerDevice.readTime

/-- What the trap handler runs on, with the counters that the hart implements and the `mtval` of a
read of one that it lacks. -/
structure CounterEnv (xlen : Xlen) extends Env xlen where
  counter : BitVec 16 → Option (Word xlen)
  illegalTval : Word xlen

/-- `read_csr_guarded`. -/
def readCsrGuarded (env : CounterEnv xlen) (csr : BitVec 16) : Op xlen (Option (Word xlen)) :=
  ExceptT.mk fun hart =>
    match env.counter csr with
    | some value => (.ok (some value), hart)
    | none => (.ok none, hart.recovered env.toEnv 2#(xlen.bits) env.illegalTval)

/-- `counter_word`. -/
def counterWord (env : CounterEnv xlen) (timer : Option (TimerDevice xlen)) (csr : BitVec 16) :
    Op xlen (Word xlen) :=
  match deviceCounterWord timer csr with
  | some value => pure value
  | none =>
    if csr = csrTime then do
      match ← readCsrGuarded env csr with
      | some value => pure value
      | none => supported ((machineTime timer).map fun time => time.setWidth xlen.bits)
    else if xlen = .rv32 ∧ csr = csrTimeh then do
      match ← readCsrGuarded env csr with
      | some value => pure value
      | none => supported ((machineTime timer).map fun time : BitVec 64 => (time >>> 32).setWidth xlen.bits)
    else throw .unsupportedInstruction

/-! ## The read of a counter -/

/-- `CsrReadOp`. -/
structure CsrReadOp where
  csr : BitVec 16
  rd : BitVec 5

/-- The functions of the `riscv_decode` crate, with what it decodes as `Csrrs`. -/
structure CsrDecoder extends Decoder where
  csrrs : BitVec 32 → Option CsrReadOp

/-- The encoding is `csrrs rd, csr, x0`. -/
def isCsrRead (raw : BitVec 32) : Bool := raw &&& 0x000ff07f#32 == 0x2073#32

/-- `(raw >> 7) & 31`. -/
def rdField (raw : BitVec 32) : BitVec 5 := ((raw >>> 7) &&& 31#32).setWidth 5

/-- `(raw >> 20) as u16`. -/
def csrField (raw : BitVec 32) : BitVec 16 := (raw >>> 20).setWidth 16

/-- `decode_csr_read`. -/
def decodeCsrRead (decoder : CsrDecoder) (raw : BitVec 32) : Option CsrReadOp :=
  if isCsrRead raw then decoder.csrrs raw else none

/-- `mepc::write`. -/
def setMepc (mepc : Word xlen) : Op xlen Unit :=
  modify fun hart => { hart with facts := { hart.facts with mepc := mepc } }

/-- The body of `emulate_csr_read`. -/
def csrReadBody (env : CounterEnv xlen) (decoder : CsrDecoder) (timer : Option (TimerDevice xlen))
    (raw : BitVec 32) (facts : TrapFacts xlen) : Op xlen Nat := do
  let (raw, len) ←
    if raw &&& 3#32 = 3#32 then pure (raw, 4) else fetch env.toEnv decoder.toDecoder facts.mepc
  let op ← supported (decodeCsrRead decoder raw)
  let value ← counterWord env timer op.csr
  setX op.rd value
  return len

/-- `emulate_csr_read`. -/
def emulateCsrRead (env : CounterEnv xlen) (decoder : CsrDecoder)
    (timer : Option (TimerDevice xlen)) : Op xlen Unit := do
  rejectMachineOrigin
  let frame := (← get).frame
  let raw := frame.mtval.setWidth 32
  match if isCsrRead raw then deviceCounterWord timer (csrField raw) else none with
  | some value => do
    setX (rdField raw) value
    setMepc (frame.mepc + 4#(xlen.bits))
  | none => withTrapFacts (csrReadBody env decoder timer raw)

/-! ## Events -/

/-- `TrapCounters`: what a sink of firmware events does with those of the handlers below. -/
structure TrapCounters (σ : Type) where
  recordIllegalInstruction : σ → σ
  recordMisalignedLoad : σ → σ
  recordMisalignedStore : σ → σ

/-- The hart in its trap handler, with the sink of firmware events. -/
structure Machine (xlen : Xlen) (σ : Type) where
  hart : Hart xlen
  events : σ

namespace Machine

/-- An event goes to the sink, if one is published. -/
def report (counters : Option (TrapCounters σ)) (record : TrapCounters σ → σ → σ)
    (m : Machine xlen σ) : Machine xlen σ :=
  match counters with
  | some counters => { m with events := record counters m.events }
  | none => m

/-- An emulation, after which a failure is redirected. -/
def emulateOrRedirect (op : Op xlen Unit) (m : Machine xlen σ) : Option (Machine xlen σ) :=
  match op.run m.hart with
  | (.ok (), hart) => some { m with hart := hart }
  | (.error error, hart) => (redirectOrFatal hart (some error)).map fun hart => { m with hart := hart }

/-- `illegal_instruction`. -/
def illegalInstruction (env : CounterEnv xlen) (decoder : CsrDecoder)
    (timer : Option (TimerDevice xlen)) (counters : Option (TrapCounters σ)) (m : Machine xlen σ) :
    Option (Machine xlen σ) :=
  (m.report counters (·.recordIllegalInstruction)).emulateOrRedirect
    (emulateCsrRead env decoder timer)

/-- The event of a misaligned access. -/
def recordMisaligned (counters : TrapCounters σ) : Access → σ → σ
  | .load => counters.recordMisalignedLoad
  | .store => counters.recordMisalignedStore

/-- `misaligned`. -/
def misaligned (env : CounterEnv xlen) (decoder : CsrDecoder) (counters : Option (TrapCounters σ))
    (m : Machine xlen σ) (access : Access) : Option (Machine xlen σ) :=
  (m.report counters (recordMisaligned · access)).emulateOrRedirect
    (emulate env.toEnv decoder.toDecoder access)

/-- The handlers of interrupts, of `ECALL_FROM_S` and of the access faults. -/
structure Handlers (xlen : Xlen) (σ : Type) where
  interrupt : Machine xlen σ → Option (Machine xlen σ)
  sbiEcall : Machine xlen σ → Option (Machine xlen σ)
  accessFault : Machine xlen σ → Access → Option (Machine xlen σ)

/-- `ILLEGAL_INSTRUCTION`. -/
def illegalInstructionCause (xlen : Xlen) : Word xlen := 2#(xlen.bits)

/-- `ECALL_FROM_S`. -/
def ecallFromS (xlen : Xlen) : Word xlen := 9#(xlen.bits)

/-- `LOAD_FAULT` or `STORE_FAULT`. -/
def faultCause (xlen : Xlen) : Access → Word xlen
  | .load => 5#(xlen.bits)
  | .store => 7#(xlen.bits)

/-- `trap_dispatch`; `none` is the fail-stop. -/
def trapDispatch (env : CounterEnv xlen) (decoder : CsrDecoder) (timer : Option (TimerDevice xlen))
    (counters : Option (TrapCounters σ)) (handlers : Handlers xlen σ) (m : Machine xlen σ) :
    Option (Machine xlen σ) :=
  let code := m.hart.frame.mcause
  if code.getLsbD (xlen.bits - 1) then handlers.interrupt m
  else if m.hart.frame.trappedFromMachine then none
  else if code = ecallFromS xlen then handlers.sbiEcall m
  else if code = illegalInstructionCause xlen then
    m.illegalInstruction env decoder timer counters
  else if code = misalignedCause xlen .load then m.misaligned env decoder counters .load
  else if code = misalignedCause xlen .store then m.misaligned env decoder counters .store
  else if code = faultCause xlen .load then handlers.accessFault m .load
  else if code = faultCause xlen .store then handlers.accessFault m .store
  else (redirectOrFatal m.hart none).map fun hart => { m with hart := hart }

/-! ## The dispatcher of the hart alone -/

section Project

variable (env : CounterEnv xlen) (decoder : CsrDecoder) (timer : Option (TimerDevice xlen))
  (counters : Option (TrapCounters σ)) (handlers : Handlers xlen σ)

/-- The handlers on a hart whose sink holds `events`. -/
def hartHandlers (events : σ) : Trap.Handlers xlen where
  interrupt hart := (handlers.interrupt ⟨hart, events⟩).map (·.hart)
  exception code :=
    if code = ecallFromS xlen then some fun hart => (handlers.sbiEcall ⟨hart, events⟩).map (·.hart)
    else if code = illegalInstructionCause xlen then
      some fun hart => (illegalInstruction env decoder timer counters ⟨hart, events⟩).map (·.hart)
    else if code = faultCause xlen .load then
      some fun hart => (handlers.accessFault ⟨hart, events⟩ .load).map (·.hart)
    else if code = faultCause xlen .store then
      some fun hart => (handlers.accessFault ⟨hart, events⟩ .store).map (·.hart)
    else none

@[simp] theorem report_hart (record : TrapCounters σ → σ → σ) (m : Machine xlen σ) :
    (m.report counters record).hart = m.hart := by
  cases counters <;> rfl

theorem misaligned_hart (m : Machine xlen σ) (access : Access) :
    (m.misaligned env decoder counters access).map (·.hart) =
      Trap.misaligned env.toEnv decoder.toDecoder m.hart access := by
  unfold misaligned emulateOrRedirect Trap.misaligned
  rw [report_hart]
  rcases (emulate env.toEnv decoder.toDecoder access).run m.hart with ⟨error | _, hart⟩
  · dsimp only
    rw [Option.map_map]
    exact congrFun Option.map_id _
  · rfl

theorem trapDispatch_hart (m : Machine xlen σ) :
    (m.trapDispatch env decoder timer counters handlers).map (·.hart) =
      Trap.trapDispatch env.toEnv decoder.toDecoder
        (hartHandlers env decoder timer counters handlers m.events) m.hart := by
  have hdistinct : ecallFromS xlen ≠ misalignedCause xlen .load ∧
      ecallFromS xlen ≠ misalignedCause xlen .store ∧
      illegalInstructionCause xlen ≠ misalignedCause xlen .load ∧
      illegalInstructionCause xlen ≠ misalignedCause xlen .store ∧
      illegalInstructionCause xlen ≠ ecallFromS xlen ∧
      misalignedCause xlen .store ≠ misalignedCause xlen .load := by
    cases xlen <;> decide
  obtain ⟨hecallLoad, hecallStore, hillegalLoad, hillegalStore, hillegalEcall, hstoreLoad⟩ := hdistinct
  unfold trapDispatch Trap.trapDispatch hartHandlers
  dsimp only
  split
  next => rfl
  next =>
    split
    next => rfl
    next =>
      generalize hcode : m.hart.frame.mcause = code
      by_cases hecall : code = ecallFromS xlen
      · simp only [hecall, hecallLoad, hecallStore, if_true, if_false]
      by_cases hillegal : code = illegalInstructionCause xlen
      · simp only [hillegal, hillegalEcall, hillegalLoad, hillegalStore, if_true, if_false]
      by_cases hload : code = misalignedCause xlen .load
      · simp only [hload, hecallLoad.symm, hillegalLoad.symm, if_true, if_false, misaligned_hart]
      by_cases hstore : code = misalignedCause xlen .store
      · simp only [hstore, hstoreLoad, hecallStore.symm, hillegalStore.symm, if_true, if_false,
          misaligned_hart]
      simp only [hecall, hillegal, hload, hstore, if_false]
      split
      next => rfl
      next =>
        split
        next => rfl
        next =>
          rw [Option.map_map]
          exact congrFun Option.map_id _

end Project

/-! ## The fast path -/

/-- `0 | 1 | 5..=7 | 10..=17 | 28..=31`. -/
def isFastDestination (rd : BitVec 5) : Bool :=
  rd = 0#5 || rd = 1#5 || (5#5 ≤ rd && rd ≤ 7#5) || (10#5 ≤ rd && rd ≤ 17#5) ||
    (28#5 ≤ rd && rd ≤ 31#5)

/-- `try_fast_emulate_time`. -/
def tryFastEmulateTime (timer : Option (TimerDevice xlen)) (counters : Option (TrapCounters σ))
    (m : Machine xlen σ) : Bool × Machine xlen σ :=
  let frame := m.hart.frame
  let inst := frame.mtval.setWidth 32
  let rd := rdField inst
  if frame.mcause ≠ illegalInstructionCause xlen ∨
      frame.mstatus &&& 0x1800#(xlen.bits) = 0x1800#(xlen.bits) ∨ ¬ isCsrRead inst ∨
      ¬ isFastDestination rd then (false, m)
  else
    match deviceCounterWord timer (csrField inst) with
    | none => (false, m)
    | some value =>
      let m := m.report counters (·.recordIllegalInstruction)
      let hart := { m.hart with frame := frame.writeX rd value }
      (true, { m with
        hart := { hart with facts := { hart.facts with mepc := frame.mepc + 4#(xlen.bits) } } })

end Machine

/-! ## The entry -/

/-- The slots of `s0` to `s11` in the frame. -/
def calleeSaved (slot : Fin 31) : Bool :=
  slot.val = 7 || slot.val = 8 || (17 ≤ slot.val && slot.val ≤ 26)

/-- The slots of one register file, and the others of another. -/
@[irreducible] def select (slots : Fin 31 → Bool) (x x' : Vector (Word xlen) 31) : Vector (Word xlen) 31 :=
  Vector.ofFn fun i => if slots i then x[i] else x'[i]

/-- The frame after the stores of `s0` to `s11`. -/
def TrapFrame.saveCalleeSaved (frame : TrapFrame xlen) (x : Vector (Word xlen) 31) :
    TrapFrame xlen :=
  { frame with x := select calleeSaved x frame.x }

/-- The machine after the stores of `s0` to `s11`. -/
def Machine.saveCalleeSaved (m : Machine xlen σ) (x : Vector (Word xlen) 31) : Machine xlen σ :=
  { m with hart := { m.hart with frame := m.hart.frame.saveCalleeSaved x } }

/-- What a trap interrupts, and what it returns to. -/
structure Context (xlen : Xlen) (σ : Type) where
  x : Vector (Word xlen) 31
  facts : TrapFacts xlen
  supervisor : SupervisorCsrs xlen
  memory : Word xlen → BitVec 8
  events : σ

/-- The frame before the stores of `s0` to `s11`: their slots hold what was on the stack. -/
def Context.enter (context : Context xlen σ) (stack : Vector (Word xlen) 31) : Machine xlen σ where
  hart :=
    { frame := ⟨select calleeSaved stack context.x, context.facts.mepc, context.facts.mstatus,
        context.facts.mcause, context.facts.mtval⟩
      facts := context.facts
      supervisor := context.supervisor
      memory := context.memory }
  events := context.events

/-- The loads of the registers and `mret`. -/
def Machine.leave (m : Machine xlen σ) : Context xlen σ :=
  ⟨m.hart.frame.x, m.hart.facts, m.hart.supervisor, m.hart.memory, m.events⟩

/-- `trap_entry` of a trap from below M-mode; `none` is the fail-stop. -/
def trapEntry (env : CounterEnv xlen) (decoder : CsrDecoder) (timer : Option (TimerDevice xlen))
    (counters : Option (TrapCounters σ)) (handlers : Machine.Handlers xlen σ)
    (stack : Vector (Word xlen) 31) (context : Context xlen σ) : Option (Context xlen σ) :=
  let general := fun m : Machine xlen σ =>
    ((m.saveCalleeSaved context.x).trapDispatch env decoder timer counters handlers).map (·.leave)
  let m := context.enter stack
  if context.facts.mcause = Machine.illegalInstructionCause xlen then
    match m.tryFastEmulateTime timer counters with
    -- `s0` to `s11` are still in their registers
    | (true, m) => some (m.saveCalleeSaved context.x).leave
    | (false, m) => general m
  else general m

/-! ## The fast path is the general path -/

theorem isFastDestination_slot {rd : BitVec 5} (hfast : Machine.isFastDestination rd = true)
    (hrd : rd ≠ 0#5) : calleeSaved ⟨rd.toNat - 1, TrapFrame.slot_lt hrd⟩ = false := by
  have hne : rd.toNat ≠ 0 := fun h => hrd (BitVec.eq_of_toNat_eq h)
  simp only [Machine.isFastDestination, Bool.or_eq_true, Bool.and_eq_true, decide_eq_true_eq,
    BitVec.le_def, BitVec.reduceToNat] at hfast
  simp only [calleeSaved, Bool.or_eq_false_iff, Bool.and_eq_false_iff, decide_eq_false_iff_not]
  rcases hfast with ((((rfl | rfl) | h) | h) | h)
  · exact absurd rfl hrd
  · decide
  · omega
  · omega
  · omega

theorem TrapFrame.writeX_saveCalleeSaved {frame : TrapFrame xlen} {x : Vector (Word xlen) 31}
    {rd : BitVec 5} {value : Word xlen} (hfast : Machine.isFastDestination rd = true) :
    (frame.saveCalleeSaved x).writeX rd value = (frame.writeX rd value).saveCalleeSaved x := by
  unfold TrapFrame.writeX
  split
  next => rfl
  next hrd =>
    have hslot := isFastDestination_slot hfast hrd
    simp only [TrapFrame.saveCalleeSaved, TrapFrame.mk.injEq, and_true]
    refine Vector.ext fun i hi => ?_
    simp only [select, Vector.getElem_set, Vector.getElem_ofFn, Fin.getElem_fin]
    by_cases heq : rd.toNat - 1 = i
    · subst heq
      simp [hslot]
    · simp [heq]

section FastPath

variable {env : CounterEnv xlen} {decoder : CsrDecoder} {timer : Option (TimerDevice xlen)}
  {counters : Option (TrapCounters σ)} {handlers : Machine.Handlers xlen σ} {m m' : Machine xlen σ}

theorem run_emulateCsrRead_device {hart : Hart xlen} {value : Word xlen}
    (horigin : hart.frame.trappedFromMachine = false)
    (hread : isCsrRead (hart.frame.mtval.setWidth 32) = true)
    (hvalue : deviceCounterWord timer (csrField (hart.frame.mtval.setWidth 32)) = some value) :
    (emulateCsrRead env decoder timer).run hart = (.ok (), { hart with
      frame := hart.frame.writeX (rdField (hart.frame.mtval.setWidth 32)) value
      facts := { hart.facts with mepc := hart.frame.mepc + 4#(xlen.bits) } }) := by
  have hreject : (rejectMachineOrigin : Op xlen Unit).run hart = (.ok (), hart) := by
    unfold rejectMachineOrigin
    rw [ExceptT.run_mk, horigin]
    rfl
  have hget : (get : Op xlen (Hart xlen)).run hart = (.ok hart, hart) := rfl
  unfold emulateCsrRead
  rw [run_bind_ok hreject, run_bind_ok hget]
  simp only [if_pos hread, hvalue]
  rfl

/-- What the dispatcher does with an illegal instruction from below M-mode. -/
theorem trapDispatch_illegal (hcause : m.hart.frame.mcause = Machine.illegalInstructionCause xlen)
    (horigin : m.hart.frame.trappedFromMachine = false) :
    m.trapDispatch env decoder timer counters handlers =
      m.illegalInstruction env decoder timer counters := by
  have hinterrupt : (Machine.illegalInstructionCause xlen).getLsbD (xlen.bits - 1) = false := by
    cases xlen <;> decide
  have hecall : Machine.illegalInstructionCause xlen ≠ Machine.ecallFromS xlen := by
    cases xlen <;> decide
  unfold Machine.trapDispatch
  simp only [hcause, hinterrupt, horigin, hecall, Bool.false_eq_true, if_false, if_true]

theorem illegalInstruction_device {value : Word xlen}
    (horigin : m.hart.frame.trappedFromMachine = false)
    (hread : isCsrRead (m.hart.frame.mtval.setWidth 32) = true)
    (hvalue : deviceCounterWord timer (csrField (m.hart.frame.mtval.setWidth 32)) = some value) :
    m.illegalInstruction env decoder timer counters =
      some { m.report counters (·.recordIllegalInstruction) with hart := { m.hart with
        frame := m.hart.frame.writeX (rdField (m.hart.frame.mtval.setWidth 32)) value
        facts := { m.hart.facts with mepc := m.hart.frame.mepc + 4#(xlen.bits) } } } := by
  unfold Machine.illegalInstruction Machine.emulateOrRedirect
  rw [Machine.report_hart, run_emulateCsrRead_device horigin hread hvalue]

/-- The fast path declines and changes nothing, or reads a counter that the device provides. -/
theorem tryFastEmulateTime_cases (timer : Option (TimerDevice xlen))
    (counters : Option (TrapCounters σ)) (m : Machine xlen σ) :
    m.tryFastEmulateTime timer counters = (false, m) ∨
    ∃ value, m.hart.frame.mcause = Machine.illegalInstructionCause xlen ∧
      m.hart.frame.trappedFromMachine = false ∧
      isCsrRead (m.hart.frame.mtval.setWidth 32) = true ∧
      Machine.isFastDestination (rdField (m.hart.frame.mtval.setWidth 32)) = true ∧
      deviceCounterWord timer (csrField (m.hart.frame.mtval.setWidth 32)) = some value ∧
      m.tryFastEmulateTime timer counters =
        (true, { m.report counters (·.recordIllegalInstruction) with hart := { m.hart with
          frame := m.hart.frame.writeX (rdField (m.hart.frame.mtval.setWidth 32)) value
          facts := { m.hart.facts with mepc := m.hart.frame.mepc + 4#(xlen.bits) } } }) := by
  have hmpp : (0x1800#(xlen.bits)) = 3#(xlen.bits) <<< 11 := by cases xlen <;> rfl
  by_cases hmatch : m.hart.frame.mcause = Machine.illegalInstructionCause xlen ∧
      m.hart.frame.trappedFromMachine = false ∧
      isCsrRead (m.hart.frame.mtval.setWidth 32) = true ∧
      Machine.isFastDestination (rdField (m.hart.frame.mtval.setWidth 32)) = true
  · obtain ⟨hcause, horigin, hread, hfast⟩ := hmatch
    have hstatus : ¬ m.hart.frame.mstatus &&& 0x1800#(xlen.bits) = 0x1800#(xlen.bits) := by
      rw [hmpp]
      simpa [TrapFrame.trappedFromMachine] using horigin
    cases hvalue : deviceCounterWord timer (csrField (m.hart.frame.mtval.setWidth 32)) with
    | none =>
      refine .inl ?_
      simp [Machine.tryFastEmulateTime, hcause, hstatus, hread, hfast, hvalue]
    | some value =>
      refine .inr ⟨value, hcause, horigin, hread, hfast, rfl, ?_⟩
      simp only [Machine.tryFastEmulateTime, hcause, hstatus, hread, hfast, hvalue,
        Machine.report_hart,
        ne_eq, not_true_eq_false, or_self, if_false]
  · refine .inl ?_
    have hdeclines : m.hart.frame.mcause ≠ Machine.illegalInstructionCause xlen ∨
        m.hart.frame.mstatus &&& 0x1800#(xlen.bits) = 0x1800#(xlen.bits) ∨
        ¬ isCsrRead (m.hart.frame.mtval.setWidth 32) ∨
        ¬ Machine.isFastDestination (rdField (m.hart.frame.mtval.setWidth 32)) := by
      by_contra hnot
      simp only [not_or, not_not, ne_eq] at hnot
      obtain ⟨hcause, hstatus, hread, hfast⟩ := hnot
      refine hmatch ⟨hcause, ?_, hread, hfast⟩
      rw [hmpp] at hstatus
      simpa [TrapFrame.trappedFromMachine] using hstatus
    simp only [Machine.tryFastEmulateTime, if_pos hdeclines]

theorem Machine.saveCalleeSaved_report (x : Vector (Word xlen) 31)
    (record : TrapCounters σ → σ → σ) :
    (m.saveCalleeSaved x).report counters record = (m.report counters record).saveCalleeSaved x := by
  cases counters <;> simp only [Machine.report, Machine.saveCalleeSaved]

/-- A trap that the fast path handles is left as the dispatcher leaves it. -/
theorem trapDispatch_of_fast (x : Vector (Word xlen) 31)
    (hfast : m.tryFastEmulateTime timer counters = (true, m')) :
    (m.saveCalleeSaved x).trapDispatch env decoder timer counters handlers =
      some (m'.saveCalleeSaved x) := by
  rcases tryFastEmulateTime_cases timer counters m with hdeclined |
    ⟨value, hcause, horigin, hread, hdestination, hvalue, htaken⟩
  · rw [hdeclined] at hfast
    exact absurd (Prod.mk.inj hfast).1 Bool.false_ne_true
  · rw [htaken, Prod.mk.injEq] at hfast
    obtain ⟨-, rfl⟩ := hfast
    rw [trapDispatch_illegal (m := m.saveCalleeSaved x) hcause horigin,
      illegalInstruction_device (m := m.saveCalleeSaved x) horigin hread hvalue,
      Machine.saveCalleeSaved_report]
    simp only [Machine.saveCalleeSaved, ← TrapFrame.writeX_saveCalleeSaved hdestination]
    rfl

theorem fast_declined_unchanged (hfast : m.tryFastEmulateTime timer counters = (false, m')) :
    m' = m := by
  rcases tryFastEmulateTime_cases timer counters m with hdeclined | ⟨_, _, _, _, _, _, htaken⟩
  · rw [hdeclined] at hfast
    exact (Prod.mk.inj hfast).2.symm
  · rw [htaken] at hfast
    exact absurd (Prod.mk.inj hfast).1.symm Bool.false_ne_true

end FastPath

section Main

variable (env : CounterEnv xlen) (decoder : CsrDecoder) (timer : Option (TimerDevice xlen))
  (counters : Option (TrapCounters σ)) (handlers : Machine.Handlers xlen σ)

/-- Whatever is in the frame and whatever `s0` to `s11` hold, the fast path leaves the registers, the
trap registers and the events as the dispatcher does on the complete frame, or changes nothing. -/
theorem fast_time_agrees (m : Machine xlen σ) (x : Vector (Word xlen) 31) :
    match m.tryFastEmulateTime timer counters with
    | (true, m') =>
      (m.saveCalleeSaved x).trapDispatch env decoder timer counters handlers =
        some (m'.saveCalleeSaved x)
    | (false, m') => m' = m := by
  split
  next m' hfast => exact trapDispatch_of_fast x hfast
  next m' hfast => exact fast_declined_unchanged hfast

/-- `rdtime a0` of a user, with a device counter at 7. -/
example :
    let m : Machine .rv64 Unit := ⟨⟨⟨Vector.replicate 31 0, 0x1000, 0, 2, 0xc0102573⟩,
      ⟨0x1000, 2, 0xc0102573, 0⟩, ⟨0, 0, 0, 0⟩, fun _ => 0⟩, ()⟩
    let after := m.tryFastEmulateTime (some ⟨none, some 7, none⟩) none
    after.1 = true ∧ after.2.hart.frame.readX 10#5 = 7 ∧ after.2.hart.facts.mepc = 0x1004 := by
  decide +kernel

/-- Once all registers are saved, the frame holds those of the interrupted context. -/
theorem Context.enter_saveCalleeSaved (context : Context xlen σ) (stack : Vector (Word xlen) 31) :
    ((context.enter stack).saveCalleeSaved context.x).hart.frame.x = context.x := by
  refine Vector.ext fun i hi => ?_
  simp only [Machine.saveCalleeSaved, TrapFrame.saveCalleeSaved, Context.enter, select,
    Vector.getElem_ofFn, Fin.getElem_fin]
  split <;> rfl

/-- The entry returns to the context that the dispatcher makes of the complete frame, whether it
tried the fast path or not and whatever was on the stack. -/
theorem trapEntry_eq_dispatch (stack : Vector (Word xlen) 31) (context : Context xlen σ) :
    trapEntry env decoder timer counters handlers stack context =
      (Machine.trapDispatch env decoder timer counters handlers
        ⟨⟨⟨context.x, context.facts.mepc, context.facts.mstatus, context.facts.mcause,
          context.facts.mtval⟩, context.facts, context.supervisor, context.memory⟩,
          context.events⟩).map (·.leave) := by
  have hframe : (context.enter stack).saveCalleeSaved context.x =
      ⟨⟨⟨context.x, context.facts.mepc, context.facts.mstatus, context.facts.mcause,
        context.facts.mtval⟩, context.facts, context.supervisor, context.memory⟩,
        context.events⟩ := by
    have hregisters := context.enter_saveCalleeSaved stack
    simp only [Machine.saveCalleeSaved, TrapFrame.saveCalleeSaved, Context.enter] at hregisters ⊢
    rw [hregisters]
  rw [← hframe]
  unfold trapEntry
  dsimp only
  split
  next =>
    split
    next m hfast => rw [trapDispatch_of_fast context.x hfast, Option.map_some]
    next m hfast => rw [fast_declined_unchanged hfast]
  next => rfl

end Main

end RustSbi.Trap
