import RustSbi.Target
import RustSbi.Lib.Bits

/-!
Trap handling of the Runtime for misaligned loads and stores: the trap frame,
guarded accesses at the privilege of the trapped context, the fetch and decoding
of the trapped instruction, its emulation, and the redirection of the trap to
the supervisor. Addresses and registers wrap as in a release build. The instruction
decoder is a third-party crate and a parameter here.
-/

namespace RustSbi.Trap

variable {xlen : Xlen}

/-- A register of the hart. -/
abbrev Word (xlen : Xlen) := BitVec xlen.bits

/-- `trap::Error`. -/
inductive Error (xlen : Xlen)
  | unsupportedInstruction
  | memoryFault (cause tval : Word xlen)
  | machineOrigin
  deriving DecidableEq

/-! ## Status registers -/

/-- The `MPP` field of `mstatus`: 0 for U, 1 for S, 3 for M. -/
def mpp (mstatus : Word xlen) : BitVec 2 := mstatus.extractLsb' 11 2

/-- The bits of `mstatus` that `sstatus` shows. -/
def sstatusMask : (xlen : Xlen) → Word xlen
  | .rv32 => 0x800de762#32
  | .rv64 => 0x80000003000de762#64

/-- `SSTATUS_SIE`. -/
def sstatusSie (xlen : Xlen) : Word xlen := 1#(xlen.bits) <<< 1

/-- `SSTATUS_SPIE`. -/
def sstatusSpie (xlen : Xlen) : Word xlen := 1#(xlen.bits) <<< 5

/-- The `SPP` bit of `sstatus`. -/
def sstatusSpp (xlen : Xlen) : Word xlen := 1#(xlen.bits) <<< 8

/-- `MPRV_BIT`. -/
def mprvBit (xlen : Xlen) : Word xlen := 1#(xlen.bits) <<< 17

/-- `MXR_BIT`. -/
def mxrBit (xlen : Xlen) : Word xlen := 1#(xlen.bits) <<< 19

/-- The machine trap registers, as `TrapFacts` captures them. -/
structure TrapFacts (xlen : Xlen) where
  mepc : Word xlen
  mcause : Word xlen
  mtval : Word xlen
  mstatus : Word xlen

/-- The supervisor trap registers; `sstatus` is a view of `mstatus`. -/
structure SupervisorCsrs (xlen : Xlen) where
  sepc : Word xlen
  scause : Word xlen
  stval : Word xlen
  stvec : Word xlen

/-! ## The trap frame -/

/-- `TrapFrame`: the registers `x1` to `x31` and copies of the trap registers. -/
structure TrapFrame (xlen : Xlen) where
  x : Vector (Word xlen) 31
  mepc : Word xlen
  mstatus : Word xlen
  mcause : Word xlen
  mtval : Word xlen

namespace TrapFrame

theorem slot_lt {id : BitVec 5} (h : id ≠ 0#5) : id.toNat - 1 < 31 := by
  have hlt := id.isLt
  have hne : id.toNat ≠ 0 := fun hzero => h (BitVec.eq_of_toNat_eq hzero)
  omega

/-- `TrapFrame::read_x`. -/
def readX (frame : TrapFrame xlen) (id : BitVec 5) : Word xlen :=
  if h : id = 0#5 then 0#(xlen.bits) else frame.x.get ⟨id.toNat - 1, slot_lt h⟩

/-- `TrapFrame::write_x`. -/
def writeX (frame : TrapFrame xlen) (id : BitVec 5) (value : Word xlen) : TrapFrame xlen :=
  if h : id = 0#5 then frame
  else { frame with x := frame.x.set (id.toNat - 1) value (slot_lt h) }

/-- `TrapFrame::trapped_from_machine`. -/
def trappedFromMachine (frame : TrapFrame xlen) : Bool :=
  frame.mstatus &&& (3#(xlen.bits) <<< 11) == 3#(xlen.bits) <<< 11

end TrapFrame

/-! ## Guest memory -/

inductive Fault
  | access
  | page
  deriving DecidableEq, Repr

/-- What an access of one byte at a virtual address may fault with: a fetch, a
load or a store, at a privilege, with the `SUM` and `MXR` bits of `mstatus`. -/
structure Translation (xlen : Xlen) where
  fetch : BitVec 2 → Word xlen → Option Fault
  load : BitVec 2 → Bool → Bool → Word xlen → Option Fault
  store : BitVec 2 → Bool → Word xlen → Option Fault

namespace Translation

variable (tr : Translation xlen)

/-- A load of a byte with `MPRV` set, under a value of `mstatus`. -/
def loadAs (mstatus addr : Word xlen) : Option Fault :=
  tr.load (mpp mstatus) (mstatus.getLsbD 18) (mstatus.getLsbD 19) addr

/-- A store of a byte with `MPRV` set, under a value of `mstatus`. -/
def storeAs (mstatus addr : Word xlen) : Option Fault :=
  tr.store (mpp mstatus) (mstatus.getLsbD 18) addr

end Translation

/-- The exception code of a faulting load. -/
def loadCause (xlen : Xlen) : Fault → Word xlen
  | .access => 5#(xlen.bits)
  | .page => 13#(xlen.bits)

/-- The exception code of a faulting store. -/
def storeCause (xlen : Xlen) : Fault → Word xlen
  | .access => 7#(xlen.bits)
  | .page => 15#(xlen.bits)

/-- The hart in its trap handler, with the memory that the trapped context sees. -/
structure Hart (xlen : Xlen) where
  frame : TrapFrame xlen
  facts : TrapFacts xlen
  supervisor : SupervisorCsrs xlen
  memory : Word xlen → BitVec 8

/-- A step of the trap handler; an error keeps what was done before it. -/
abbrev Op (xlen : Xlen) (α : Type) := ExceptT (Error xlen) (StateM (Hart xlen)) α

/-! ## Guarded accesses -/

/-- What the trap handler runs on: the guest's translation, and the address of
the guarded instruction. -/
structure Env (xlen : Xlen) where
  tr : Translation xlen
  guardPc : Word xlen

/-- `mstatus` while a guarded instruction runs. -/
def guardStatus (mstatus : Word xlen) : Word xlen := mstatus ||| (mprvBit xlen ||| mxrBit xlen)

/-- The hart after a guarded instruction that faulted: the nested trap has
overwritten the trap registers, `recovery_entry` has skipped the instruction,
and the guard has put `mstatus`, `mscratch` and `mtvec` back. -/
def Hart.recovered (env : Env xlen) (hart : Hart xlen) (cause tval : Word xlen) : Hart xlen :=
  { hart with facts := ⟨env.guardPc + 4#(xlen.bits), cause, tval, hart.facts.mstatus⟩ }

/-- One guarded instruction: it faults, or has an effect and a value. -/
def guarded {α : Type} (env : Env xlen) (fault : Hart xlen → Option (Word xlen × Word xlen))
    (effect : Hart xlen → α × Hart xlen) : Op xlen α :=
  ExceptT.mk fun hart =>
    match fault hart with
    | some (cause, tval) => (.error (.memoryFault cause tval), hart.recovered env cause tval)
    | none => (.ok (effect hart).1, (effect hart).2)

/-- `read_u8`. -/
def readU8 (env : Env xlen) (addr : Word xlen) : Op xlen (BitVec 8) :=
  guarded env
    (fun hart => (env.tr.loadAs (guardStatus hart.facts.mstatus) addr).map (loadCause xlen · , addr))
    (fun hart => (hart.memory addr, hart))

/-- `read_u16`: an aligned halfword faults as a whole, at its own address. -/
def readU16 (env : Env xlen) (addr : Word xlen) : Op xlen (BitVec 16) :=
  guarded env
    (fun hart =>
      ((env.tr.loadAs (guardStatus hart.facts.mstatus) addr).or
        (env.tr.loadAs (guardStatus hart.facts.mstatus) (addr + 1#(xlen.bits)))).map
          (loadCause xlen · , addr))
    (fun hart => (hart.memory (addr + 1#(xlen.bits)) ++ hart.memory addr, hart))

/-- `write_u8`. -/
def writeU8 (env : Env xlen) (addr data : Word xlen) : Op xlen Unit :=
  guarded env
    (fun hart => (env.tr.storeAs (guardStatus hart.facts.mstatus) addr).map
      (storeCause xlen · , addr))
    (fun hart => ((), { hart with memory := Function.update hart.memory addr (data.setWidth 8) }))

/-! ## Decoding -/

/-- `ValueKind`. -/
inductive ValueKind
  | signed8
  | unsigned8
  | signed16
  | unsigned16
  | signed32
  | unsigned32
  | signed64
  deriving DecidableEq, Repr

namespace ValueKind

/-- `ValueKind::width`. -/
def width : ValueKind → Nat
  | signed8 => 1
  | unsigned8 => 1
  | signed16 => 2
  | unsigned16 => 2
  | signed32 => 4
  | unsigned32 => 4
  | signed64 => 8

/-- `ValueKind::extend`. -/
def extend (kind : ValueKind) (raw : Word xlen) : Word xlen :=
  match kind with
  | signed8 => (raw.setWidth 8).signExtend xlen.bits
  | unsigned8 => (raw.setWidth 8).setWidth xlen.bits
  | signed16 => (raw.setWidth 16).signExtend xlen.bits
  | unsigned16 => (raw.setWidth 16).setWidth xlen.bits
  | signed32 => (raw.setWidth 32).signExtend xlen.bits
  | unsigned32 => (raw.setWidth 32).setWidth xlen.bits
  | signed64 => raw

end ValueKind

/-- The instructions of `riscv_decode::Instruction` that the Runtime knows. -/
inductive Instruction
  | lb (rd : BitVec 5)
  | lbu (rd : BitVec 5)
  | lh (rd : BitVec 5)
  | lhu (rd : BitVec 5)
  | lw (rd : BitVec 5)
  | lwu (rd : BitVec 5)
  | ld (rd : BitVec 5)
  | sb (rs2 : BitVec 5)
  | sh (rs2 : BitVec 5)
  | sw (rs2 : BitVec 5)
  | sd (rs2 : BitVec 5)
  | other
  deriving DecidableEq, Repr

/-- The functions of the `riscv_decode` crate. -/
structure Decoder where
  decode : BitVec 32 → Option Instruction
  instructionLength : BitVec 16 → Nat

/-- `LoadOp`. -/
structure LoadOp where
  rd : BitVec 5
  kind : ValueKind

/-- `StoreOp`. -/
structure StoreOp where
  rs2 : BitVec 5
  kind : ValueKind

/-- `decode_load`. -/
def decodeLoad (decoder : Decoder) (raw : BitVec 32) : Option LoadOp :=
  match decoder.decode raw with
  | some (.lb rd) => some ⟨rd, .signed8⟩
  | some (.lbu rd) => some ⟨rd, .unsigned8⟩
  | some (.lh rd) => some ⟨rd, .signed16⟩
  | some (.lhu rd) => some ⟨rd, .unsigned16⟩
  | some (.lw rd) => some ⟨rd, .signed32⟩
  | some (.lwu rd) => some ⟨rd, .unsigned32⟩
  | some (.ld rd) => some ⟨rd, .signed64⟩
  | _ => none

/-- `decode_store`. -/
def decodeStore (decoder : Decoder) (raw : BitVec 32) : Option StoreOp :=
  match decoder.decode raw with
  | some (.sb rs2) => some ⟨rs2, .unsigned8⟩
  | some (.sh rs2) => some ⟨rs2, .unsigned16⟩
  | some (.sw rs2) => some ⟨rs2, .unsigned32⟩
  | some (.sd rs2) => some ⟨rs2, .signed64⟩
  | _ => none

/-- The instruction as decoded, or `Error::UnsupportedInstruction`. -/
def supported {α : Type} (op : Option α) : Op xlen α :=
  match op with
  | some op => pure op
  | none => throw .unsupportedInstruction

/-! ## Fetch and data access -/

/-- `recovery::fetch` after the first halfword. -/
def fetchRest (env : Env xlen) (decoder : Decoder) (mepc : Word xlen) (low : BitVec 16) :
    Op xlen (BitVec 32 × Nat) :=
  if decoder.instructionLength low = 2 then return (low.setWidth 32, 2)
  else do
    let high ← readU16 env (mepc + 2#(xlen.bits))
    return (low.setWidth 32 ||| high.setWidth 32 <<< 16, 4)

/-- `recovery::fetch`. -/
def recoveryFetch (env : Env xlen) (decoder : Decoder) (mepc : Word xlen) :
    Op xlen (BitVec 32 × Nat) := do
  let low ← readU16 env mepc
  fetchRest env decoder mepc low

/-- `map_fetch_fault`. -/
def mapFetchFault : Error xlen → Error xlen
  | .memoryFault cause tval =>
    .memoryFault (if cause = 5#(xlen.bits) then 1#(xlen.bits)
      else if cause = 13#(xlen.bits) then 12#(xlen.bits) else cause) tval
  | other => other

/-- `emulate::fetch`. -/
def fetch (env : Env xlen) (decoder : Decoder) (mepc : Word xlen) : Op xlen (BitVec 32 × Nat) :=
  ExceptT.mk fun hart =>
    match (recoveryFetch env decoder mepc).run hart with
    | (.ok instruction, hart') => (.ok instruction, hart')
    | (.error error, hart') => (.error (mapFetchFault error), hart')

/-- The loop of `read_value` over byte offsets. -/
def readBytes (env : Env xlen) (addr : Word xlen) : List Nat → Word xlen → Op xlen (Word xlen)
  | [], data => return data
  | i :: rest, data => do
    let byte ← readU8 env (addr + BitVec.ofNat xlen.bits i)
    readBytes env addr rest (data <<< 8 ||| byte.setWidth xlen.bits)

/-- `read_value`. -/
def readValue (env : Env xlen) (addr : Word xlen) (kind : ValueKind) : Op xlen (Word xlen) :=
  readBytes env addr (List.range kind.width).reverse 0#(xlen.bits)

/-- The loop of `write_value` over byte offsets. -/
def writeBytes (env : Env xlen) (addr value : Word xlen) : List Nat → Op xlen Unit
  | [] => return ()
  | i :: rest => do
    -- a release build takes the shift amount modulo the word size
    writeU8 env (addr + BitVec.ofNat xlen.bits i)
      (value >>> (8 * i % xlen.bits) &&& 0xff#(xlen.bits))
    writeBytes env addr value rest

/-- `write_value`. -/
def writeValue (env : Env xlen) (addr value : Word xlen) (kind : ValueKind) : Op xlen Unit :=
  writeBytes env addr value (List.range kind.width)

/-! ## Emulation -/

/-- `reject_machine_origin`. -/
def rejectMachineOrigin : Op xlen Unit :=
  ExceptT.mk fun hart =>
    (if hart.frame.trappedFromMachine then .error .machineOrigin else .ok (), hart)

/-- `with_trap_facts`: the body runs with the captured trap registers, which are
put back after it, with `mepc` past the instruction when the body succeeded. -/
def withTrapFacts (body : TrapFacts xlen → Op xlen Nat) : Op xlen Unit :=
  ExceptT.mk fun hart =>
    let facts := hart.facts
    match (body facts).run hart with
    | (.ok len, hart') =>
      (.ok (), { hart' with
        facts := { facts with mepc := facts.mepc + BitVec.ofNat xlen.bits len } })
    | (.error error, hart') => (.error error, { hart' with facts := facts })

/-- `frame.write_x` of the handler. -/
def setX (id : BitVec 5) (value : Word xlen) : Op xlen Unit :=
  modify fun hart => { hart with frame := hart.frame.writeX id value }

/-- `frame.read_x` of the handler. -/
def getX (id : BitVec 5) : Op xlen (Word xlen) := return (← get).frame.readX id

/-- The body of `emulate_load`. -/
def loadBody (env : Env xlen) (decoder : Decoder) (facts : TrapFacts xlen) : Op xlen Nat := do
  let (raw, len) ← fetch env decoder facts.mepc
  let op ← supported (decodeLoad decoder raw)
  let rawValue ← readValue env facts.mtval op.kind
  setX op.rd (op.kind.extend rawValue)
  return len

/-- `emulate_load`. -/
def emulateLoad (env : Env xlen) (decoder : Decoder) : Op xlen Unit := do
  rejectMachineOrigin
  withTrapFacts (loadBody env decoder)

/-- The body of `emulate_store`. -/
def storeBody (env : Env xlen) (decoder : Decoder) (facts : TrapFacts xlen) : Op xlen Nat := do
  let (raw, len) ← fetch env decoder facts.mepc
  let op ← supported (decodeStore decoder raw)
  let value ← getX op.rs2
  writeValue env facts.mtval value op.kind
  return len

/-- `emulate_store`. -/
def emulateStore (env : Env xlen) (decoder : Decoder) : Op xlen Unit := do
  rejectMachineOrigin
  withTrapFacts (storeBody env decoder)

/-! ## Redirection -/

/-- A write of `sstatus`, which reaches only the bits that it shows. -/
def writeSstatus (mstatus bits : Word xlen) : Word xlen :=
  (mstatus &&& ~~~sstatusMask xlen) ||| (bits &&& sstatusMask xlen)

/-- `spie ← sie` and `sie ← 0`. -/
def stackSie (mstatus : Word xlen) : Word xlen :=
  let bits := mstatus &&& sstatusMask xlen
  writeSstatus mstatus
    ((bits &&& ~~~(sstatusSie xlen ||| sstatusSpie xlen)) ||| (bits &&& sstatusSie xlen) <<< 4)

/-- `sstatus::set_spp`. -/
def setSpp (mstatus : Word xlen) (supervisor : Bool) : Word xlen :=
  if supervisor then mstatus ||| sstatusSpp xlen else mstatus &&& ~~~sstatusSpp xlen

/-- `mstatus::set_mpp(MPP::Supervisor)`. -/
def setMppSupervisor (mstatus : Word xlen) : Word xlen :=
  (mstatus &&& ~~~(3#(xlen.bits) <<< 11)) ||| 1#(xlen.bits) <<< 11

/-- `stvec::read().address()`. -/
def stvecAddress (stvec : Word xlen) : Word xlen := stvec &&& ~~~3#(xlen.bits)

/-- `redirect_trap`. -/
def redirectTrap (hart : Hart xlen) (secondary : Option (Word xlen × Word xlen)) :
    Except (Error xlen) (Hart xlen) :=
  if mpp hart.facts.mstatus = 3#2 then .error .machineOrigin
  else
    let (cause, tval) := secondary.getD (hart.facts.mcause, hart.facts.mtval)
    let mstatus := setSpp (stackSie hart.facts.mstatus) (mpp hart.facts.mstatus = 1#2)
    .ok { hart with
      supervisor := ⟨hart.facts.mepc, cause, tval, hart.supervisor.stvec⟩
      facts := { hart.facts with
        mstatus := setMppSupervisor mstatus
        mepc := stvecAddress hart.supervisor.stvec } }

/-- `redirect_or_fatal`; `none` is the fail-stop. -/
def redirectOrFatal (hart : Hart xlen) (error : Option (Error xlen)) : Option (Hart xlen) :=
  let secondary :=
    match error with
    | some (.memoryFault cause tval) => some (cause, tval)
    | _ => none
  match redirectTrap hart secondary with
  | .ok hart' => some hart'
  | .error _ => none

/-! ## Dispatch -/

inductive Access
  | load
  | store
  deriving DecidableEq, Repr

/-- The emulation that `misaligned` runs. -/
def emulate (env : Env xlen) (decoder : Decoder) : Access → Op xlen Unit
  | .load => emulateLoad env decoder
  | .store => emulateStore env decoder

/-- `misaligned`. -/
def misaligned (env : Env xlen) (decoder : Decoder) (hart : Hart xlen) (access : Access) :
    Option (Hart xlen) :=
  match (emulate env decoder access).run hart with
  | (.ok (), hart') => some hart'
  | (.error error, hart') => redirectOrFatal hart' (some error)

/-- The exception code of a misaligned access: `LOAD_MISALIGNED` or
`STORE_MISALIGNED`. -/
def misalignedCause (xlen : Xlen) : Access → Word xlen
  | .load => 4#(xlen.bits)
  | .store => 6#(xlen.bits)

/-- The handlers of interrupts and of the other exceptions that have one. -/
structure Handlers (xlen : Xlen) where
  interrupt : Hart xlen → Option (Hart xlen)
  exception : Word xlen → Option (Hart xlen → Option (Hart xlen))

/-- `trap_dispatch`; `none` is the fail-stop. -/
def trapDispatch (env : Env xlen) (decoder : Decoder) (handlers : Handlers xlen)
    (hart : Hart xlen) : Option (Hart xlen) :=
  let code := hart.frame.mcause
  if code.getLsbD (xlen.bits - 1) then handlers.interrupt hart
  else if hart.frame.trappedFromMachine then none
  else if code = misalignedCause xlen .load then misaligned env decoder hart .load
  else if code = misalignedCause xlen .store then misaligned env decoder hart .store
  else
    match handlers.exception code with
    | some handler => handler hart
    | none => redirectOrFatal hart none

end RustSbi.Trap
