import RustSbi.Trap.Emulate

/-!
Precision of misaligned emulation. A trap ends in one of two ways: the emulation
completes, or the trap is redirected to the supervisor with the interrupted
context intact. The guarded accesses of the Runtime set `MXR` for data and fetch
the instruction with loads, so a completed emulation is what the trapped context
could have done itself exactly when its own permissions allow every access.
-/

namespace RustSbi.Trap

variable {xlen : Xlen}

/-! ## The instruction set -/

/-- The length of a 16- or 32-bit encoding, by its first halfword. -/
def isaLength (low : BitVec 16) : Nat := if low.extractLsb' 0 2 = 3#2 then 4 else 2

/-- The integer loads and stores of RV64. -/
def isaMemory (raw : BitVec 32) : Option Instruction :=
  let rd := raw.extractLsb' 7 5
  let rs2 := raw.extractLsb' 20 5
  if raw.extractLsb' 0 7 = 0x03#7 then
    match (raw.extractLsb' 12 3).toNat with
    | 0 => some (.lb rd)
    | 1 => some (.lh rd)
    | 2 => some (.lw rd)
    | 3 => some (.ld rd)
    | 4 => some (.lbu rd)
    | 5 => some (.lhu rd)
    | 6 => some (.lwu rd)
    | _ => none
  else if raw.extractLsb' 0 7 = 0x23#7 then
    match (raw.extractLsb' 12 3).toNat with
    | 0 => some (.sb rs2)
    | 1 => some (.sh rs2)
    | 2 => some (.sw rs2)
    | 3 => some (.sd rs2)
    | _ => none
  else none

/-- The instruction is one of the base instruction set of the hart. -/
def Instruction.inBase (xlen : Xlen) : Instruction → Bool
  | ld _ => xlen = .rv64
  | lwu _ => xlen = .rv64
  | sd _ => xlen = .rv64
  | _ => true

/-- What the `riscv_decode` crate documents: it gives the length of an encoding,
decodes the loads and stores of RV64 whatever the target is, and decodes no
other encoding, compressed ones included, to one of these instructions. -/
structure Decoder.Documented (decoder : Decoder) : Prop where
  length : ∀ low, decoder.instructionLength low = 2 ↔ low.extractLsb' 0 2 ≠ 3#2
  known : ∀ raw instruction, isaMemory raw = some instruction → decoder.decode raw = some instruction
  only : ∀ raw instruction, decoder.decode raw = some instruction → instruction ≠ .other →
    isaMemory raw = some instruction

/-- The kind is one of a signed load. -/
def ValueKind.isSigned : ValueKind → Bool
  | signed8 => true
  | signed16 => true
  | signed32 => true
  | signed64 => true
  | _ => false

/-- The register value of a load of little-endian bytes. -/
def isaValue (kind : ValueKind) (bytes : List (BitVec 8)) : Word xlen :=
  let value := BitVec.ofNat (8 * kind.width) (Nat.ofDigits 256 (bytes.map BitVec.toNat))
  if kind.isSigned then value.signExtend xlen.bits else value.setWidth xlen.bits

/-- The memory after a store of the low `width` bytes of a value. -/
def isaStored (memory : Word xlen → BitVec 8) (addr value : Word xlen) (width : Nat)
    (a : Word xlen) : BitVec 8 :=
  if (a - addr).toNat < width then value.extractLsb' (8 * (a - addr).toNat) 8 else memory a

namespace Hart

/-- The address of a byte from the trapped instruction on. -/
def pcByte (hart : Hart xlen) (i : Nat) : Word xlen := hart.facts.mepc + BitVec.ofNat xlen.bits i

/-- The address of a byte of the access that trapped. -/
def dataByte (hart : Hart xlen) (i : Nat) : Word xlen := hart.facts.mtval + BitVec.ofNat xlen.bits i

/-- The first halfword of the trapped instruction. -/
def low (hart : Hart xlen) : BitVec 16 :=
  hart.memory (hart.pcByte 1) ++ hart.memory (hart.pcByte 0)

/-- The second halfword. -/
def high (hart : Hart xlen) : BitVec 16 :=
  hart.memory (hart.pcByte 3) ++ hart.memory (hart.pcByte 2)

/-- The 32 bits at the trapped instruction. -/
def instruction (hart : Hart xlen) : BitVec 32 := hart.high ++ hart.low

/-- The hart past its instruction. -/
def advanced (hart : Hart xlen) : Hart xlen :=
  { hart with facts := { hart.facts with mepc := hart.pcByte (isaLength hart.low) } }

end Hart

/-! ## Outcomes -/

/-- The load that an instruction is. -/
def Instruction.load? : Instruction → Option LoadOp
  | lb rd => some ⟨rd, .signed8⟩
  | lbu rd => some ⟨rd, .unsigned8⟩
  | lh rd => some ⟨rd, .signed16⟩
  | lhu rd => some ⟨rd, .unsigned16⟩
  | lw rd => some ⟨rd, .signed32⟩
  | lwu rd => some ⟨rd, .unsigned32⟩
  | ld rd => some ⟨rd, .signed64⟩
  | _ => none

/-- The store that an instruction is. -/
def Instruction.store? : Instruction → Option StoreOp
  | sb rs2 => some ⟨rs2, .unsigned8⟩
  | sh rs2 => some ⟨rs2, .unsigned16⟩
  | sw rs2 => some ⟨rs2, .unsigned32⟩
  | sd rs2 => some ⟨rs2, .signed64⟩
  | _ => none

/-- The instruction accesses `width` bytes in the way that trapped. -/
def Instruction.accesses (instruction : Instruction) : Access → Option Nat
  | .load => instruction.load?.map fun op => op.kind.width
  | .store => instruction.store?.map fun op => op.kind.width

/-- A byte access of the kind that trapped, under a value of `mstatus`. -/
def Translation.dataAs (tr : Translation xlen) (access : Access) (mstatus addr : Word xlen) :
    Option Fault :=
  match access with
  | .load => tr.loadAs mstatus addr
  | .store => tr.storeAs mstatus addr

/-- The exception code of a faulting access of the kind that trapped. -/
def dataCause (xlen : Xlen) : Access → Fault → Word xlen
  | .load => loadCause xlen
  | .store => storeCause xlen

/-- The exception code of a faulting fetch. -/
def fetchCause (xlen : Xlen) : Fault → Word xlen
  | .access => 1#(xlen.bits)
  | .page => 12#(xlen.bits)

/-- The fault of a guarded load of the halfword at an offset from the instruction. -/
def Hart.halfwordFault (tr : Translation xlen) (hart : Hart xlen) (offset : Nat) : Option Fault :=
  (tr.loadAs (guardStatus hart.facts.mstatus) (hart.pcByte offset)).or
    (tr.loadAs (guardStatus hart.facts.mstatus) (hart.pcByte (offset + 1)))

/-- What the instruction does: the values of a load or a store that completes. -/
def Hart.result (hart : Hart xlen) : Instruction → Access → Hart xlen
  | instruction, .load =>
    match instruction.load? with
    | some op =>
      let bytes := (List.range op.kind.width).map fun i => hart.memory (hart.dataByte i)
      { hart.advanced with frame := hart.frame.writeX op.rd (isaValue op.kind bytes) }
    | none => hart
  | instruction, .store =>
    match instruction.store? with
    | some op =>
      let value := hart.frame.readX op.rs2
      { hart.advanced with
        memory := isaStored hart.memory hart.facts.mtval value op.kind.width }
    | none => hart

/-- The trapped context could have made every access of its instruction itself. -/
structure Hart.MayAccess (tr : Translation xlen) (hart : Hart xlen) (access : Access)
    (instruction : Instruction) (width : Nat) : Prop where
  base : instruction.inBase xlen = true
  fetch : ∀ i < isaLength hart.low, tr.fetch (mpp hart.facts.mstatus) (hart.pcByte i) = none
  data : ∀ i < width, tr.dataAs access hart.facts.mstatus (hart.dataByte i) = none

/-- The instruction has completed as the instruction set says for accesses
that the trapped context may make. -/
def Completed (tr : Translation xlen) (hart : Hart xlen) (access : Access)
    (hart' : Hart xlen) : Prop :=
  ∃ instruction width, isaMemory hart.instruction = some instruction ∧
    instruction.accesses access = some width ∧ hart.MayAccess tr access instruction width ∧
    hart' = hart.result instruction access

/-- The exception that a redirected trap reports. -/
inductive Reported (tr : Translation xlen) (hart : Hart xlen) (access : Access) :
    Word xlen → Word xlen → Prop
  /-- The trap itself. -/
  | original : Reported tr hart access hart.facts.mcause hart.facts.mtval
  /-- A fault of the fetch, at the halfword that could not be fetched. -/
  | fetch (offset : Nat) (fault : Fault) (hoffset : offset = 0 ∨ offset = 2)
      (hfault : hart.halfwordFault tr offset = some fault) :
      Reported tr hart access (fetchCause xlen fault) (hart.pcByte offset)
  /-- A fault of the access, at the byte that faults. -/
  | byte (instruction : Instruction) (width i : Nat) (fault : Fault)
      (hmemory : isaMemory hart.instruction = some instruction)
      (haccess : instruction.accesses access = some width) (hi : i < width)
      (hfault : tr.dataAs access (guardStatus hart.facts.mstatus) (hart.dataByte i) = some fault) :
      Reported tr hart access (dataCause xlen access fault) (hart.dataByte i)

/-- The trap has gone to the supervisor, which can resume the interrupted context. -/
structure Redirected (tr : Translation xlen) (hart : Hart xlen) (access : Access)
    (hart' : Hart xlen) : Prop where
  registers : hart'.frame = hart.frame
  reported : Reported tr hart access hart'.supervisor.scause hart'.supervisor.stval
  vector : hart'.facts.mepc = stvecAddress hart.supervisor.stvec ∧
    hart'.supervisor.stvec = hart.supervisor.stvec
  /-- `mret` enters the supervisor with interrupts off. -/
  entry : mpp hart'.facts.mstatus = 1#2 ∧ hart'.facts.mstatus.getLsbD 1 = false
  /-- A later `sret` takes the pc from `sepc`, the privilege from `SPP` and
  `SIE` from `SPIE`. -/
  resume : hart'.supervisor.sepc = hart.facts.mepc ∧
    (if hart'.facts.mstatus.getLsbD 8 then 1#2 else 0#2) = mpp hart.facts.mstatus ∧
    hart'.facts.mstatus.getLsbD 5 = hart.facts.mstatus.getLsbD 1
  /-- Only a store has written, and only bytes below the one that faulted. -/
  memory : ∀ a, hart'.memory a ≠ hart.memory a → access = .store ∧
    ∃ i j, j < i ∧ a = hart.dataByte j ∧ hart'.supervisor.stval = hart.dataByte i

/-- The emulation of a misaligned access runs to its end. -/
def Completes (env : Env xlen) (decoder : Decoder) (hart : Hart xlen) (access : Access) : Prop :=
  ((emulate env decoder access).run hart).1 = .ok ()

/-- The trap has exactly one of the two outcomes. -/
def Precise (env : Env xlen) (decoder : Decoder) (handlers : Handlers xlen) (hart : Hart xlen)
    (access : Access) : Prop :=
  ∃ hart', trapDispatch env decoder handlers hart = some hart' ∧
    ((Completes env decoder hart access ∧ Completed env.tr hart access hart') ∨
      (¬ Completes env decoder hart access ∧ Redirected env.tr hart access hart'))

/-- Every guarded access of the emulation succeeds. -/
structure Hart.Reaches (tr : Translation xlen) (hart : Hart xlen) (access : Access)
    (instruction : Instruction) (width : Nat) : Prop where
  memory : isaMemory hart.instruction = some instruction
  accesses : instruction.accesses access = some width
  fetch : hart.halfwordFault tr 0 = none ∧ hart.halfwordFault tr 2 = none
  data : ∀ i < width, tr.dataAs access (guardStatus hart.facts.mstatus) (hart.dataByte i) = none

/-- A misaligned trap of a supervisor or a user that the entry has just saved. -/
structure Hart.Trapped (hart : Hart xlen) (access : Access) : Prop where
  frame : hart.frame.mepc = hart.facts.mepc ∧ hart.frame.mstatus = hart.facts.mstatus ∧
    hart.frame.mcause = hart.facts.mcause ∧ hart.frame.mtval = hart.facts.mtval
  cause : hart.facts.mcause = misalignedCause xlen access
  lower : mpp hart.facts.mstatus = 0#2 ∨ mpp hart.facts.mstatus = 1#2

/-! ## Running the handler -/

section Run

variable {α β : Type} {env : Env xlen} {hart : Hart xlen}

theorem run_bind_ok {p : Op xlen α} {f : α → Op xlen β} {a : α} {hart' : Hart xlen}
    (h : p.run hart = (.ok a, hart')) : (p >>= f).run hart = (f a).run hart' := by
  change ExceptT.bindCont f (p.run hart).1 (p.run hart).2 = _
  rw [h]
  rfl

theorem run_bind_error {p : Op xlen α} {f : α → Op xlen β} {e : Error xlen} {hart' : Hart xlen}
    (h : p.run hart = (.error e, hart')) : (p >>= f).run hart = (.error e, hart') := by
  change ExceptT.bindCont f (p.run hart).1 (p.run hart).2 = _
  rw [h]
  rfl

theorem run_guarded_fault {fault : Hart xlen → Option (Word xlen × Word xlen)}
    {effect : Hart xlen → α × Hart xlen} {cause tval : Word xlen}
    (h : fault hart = some (cause, tval)) :
    (guarded env fault effect).run hart =
      (.error (.memoryFault cause tval), hart.recovered env cause tval) := by
  unfold guarded
  rw [ExceptT.run_mk, h]

theorem run_guarded_ok {fault : Hart xlen → Option (Word xlen × Word xlen)}
    {effect : Hart xlen → α × Hart xlen} (h : fault hart = none) :
    (guarded env fault effect).run hart = (.ok (effect hart).1, (effect hart).2) := by
  unfold guarded
  rw [ExceptT.run_mk, h]

theorem pcByte_add (hart : Hart xlen) (offset k : Nat) :
    hart.pcByte offset + BitVec.ofNat xlen.bits k = hart.pcByte (offset + k) := by
  rw [Hart.pcByte, Hart.pcByte, BitVec.add_assoc, ← BitVec.ofNat_add]

theorem run_readU16_fault {offset : Nat} {fault : Fault}
    (h : hart.halfwordFault env.tr offset = some fault) :
    (readU16 env (hart.pcByte offset)).run hart =
      (.error (.memoryFault (loadCause xlen fault) (hart.pcByte offset)),
        hart.recovered env (loadCause xlen fault) (hart.pcByte offset)) := by
  apply run_guarded_fault
  rw [pcByte_add]
  exact congrArg (Option.map _) h

theorem run_readU16_ok {offset : Nat} (h : hart.halfwordFault env.tr offset = none) :
    (readU16 env (hart.pcByte offset)).run hart =
      (.ok (hart.memory (hart.pcByte (offset + 1)) ++ hart.memory (hart.pcByte offset)), hart) := by
  rw [readU16, run_guarded_ok]
  · rw [pcByte_add]
  · rw [pcByte_add]
    exact congrArg (Option.map _) h

theorem mapFetchFault_load (fault : Fault) (tval : Word xlen) :
    mapFetchFault (.memoryFault (loadCause xlen fault) tval) =
      .memoryFault (fetchCause xlen fault) tval := by
  cases xlen <;> cases fault <;> rfl

theorem pcByte_zero (hart : Hart xlen) : hart.pcByte 0 = hart.facts.mepc := by
  simp [Hart.pcByte]

theorem instruction_eq (hart : Hart xlen) :
    hart.low.setWidth 32 ||| hart.high.setWidth 32 <<< 16 = hart.instruction := by
  unfold Hart.instruction
  generalize hart.low = low
  generalize hart.high = high
  ext i hi
  rw [BitVec.getElem_append]
  by_cases hlow : i < 16
  · simp [hlow]
  · simp [hlow, BitVec.getLsbD_of_ge low i (by omega), BitVec.getLsbD_eq_getElem (by omega : i - 16 < 16)]

theorem isaLength_eq_two {decoder : Decoder} (hdoc : decoder.Documented) (low : BitVec 16) :
    decoder.instructionLength low = 2 ↔ isaLength low = 2 := by
  rw [hdoc.length, isaLength]
  split <;> simp_all

theorem run_fetch_of_error {decoder : Decoder} {e : Error xlen} {hart' : Hart xlen}
    (h : (recoveryFetch env decoder hart.facts.mepc).run hart = (.error e, hart')) :
    (fetch env decoder hart.facts.mepc).run hart = (.error (mapFetchFault e), hart') := by
  unfold fetch
  rw [ExceptT.run_mk, h]

theorem run_fetch_of_ok {decoder : Decoder} {r : BitVec 32 × Nat} {hart' : Hart xlen}
    (h : (recoveryFetch env decoder hart.facts.mepc).run hart = (.ok r, hart')) :
    (fetch env decoder hart.facts.mepc).run hart = (.ok r, hart') := by
  unfold fetch
  rw [ExceptT.run_mk, h]

theorem run_recoveryFetch (decoder : Decoder) (h : hart.halfwordFault env.tr 0 = none) :
    (recoveryFetch env decoder hart.facts.mepc).run hart =
      (fetchRest env decoder hart.facts.mepc hart.low).run hart := by
  unfold recoveryFetch
  rw [← pcByte_zero, run_bind_ok (run_readU16_ok h)]
  rfl

theorem run_fetch_low_fault (decoder : Decoder) {fault : Fault}
    (h : hart.halfwordFault env.tr 0 = some fault) :
    (fetch env decoder hart.facts.mepc).run hart =
      (.error (.memoryFault (fetchCause xlen fault) (hart.pcByte 0)),
        hart.recovered env (loadCause xlen fault) (hart.pcByte 0)) := by
  rw [← mapFetchFault_load]
  apply run_fetch_of_error
  unfold recoveryFetch
  rw [← pcByte_zero]
  exact run_bind_error (run_readU16_fault h)

theorem run_fetch_short {decoder : Decoder} (hdoc : decoder.Documented)
    (h : hart.halfwordFault env.tr 0 = none) (hlen : isaLength hart.low = 2) :
    (fetch env decoder hart.facts.mepc).run hart = (.ok (hart.low.setWidth 32, 2), hart) := by
  apply run_fetch_of_ok
  rw [run_recoveryFetch decoder h, fetchRest, if_pos ((isaLength_eq_two hdoc _).mpr hlen)]
  rfl

theorem fetchRest_long {decoder : Decoder} (hdoc : decoder.Documented)
    (hlen : isaLength hart.low = 4) :
    fetchRest env decoder hart.facts.mepc hart.low = do
      let high ← readU16 env (hart.pcByte 2)
      return (hart.low.setWidth 32 ||| high.setWidth 32 <<< 16, 4) := by
  have hlong : ¬ decoder.instructionLength hart.low = 2 := by
    rw [isaLength_eq_two hdoc, hlen]
    decide
  rw [fetchRest, if_neg hlong]
  rfl

theorem run_fetch_high_fault {decoder : Decoder} (hdoc : decoder.Documented) {fault : Fault}
    (h : hart.halfwordFault env.tr 0 = none) (hlen : isaLength hart.low = 4)
    (hhigh : hart.halfwordFault env.tr 2 = some fault) :
    (fetch env decoder hart.facts.mepc).run hart =
      (.error (.memoryFault (fetchCause xlen fault) (hart.pcByte 2)),
        hart.recovered env (loadCause xlen fault) (hart.pcByte 2)) := by
  rw [← mapFetchFault_load]
  apply run_fetch_of_error
  rw [run_recoveryFetch decoder h, fetchRest_long hdoc hlen]
  exact run_bind_error (run_readU16_fault hhigh)

theorem run_fetch_long {decoder : Decoder} (hdoc : decoder.Documented)
    (h : hart.halfwordFault env.tr 0 = none) (hlen : isaLength hart.low = 4)
    (hhigh : hart.halfwordFault env.tr 2 = none) :
    (fetch env decoder hart.facts.mepc).run hart = (.ok (hart.instruction, 4), hart) := by
  apply run_fetch_of_ok
  rw [run_recoveryFetch decoder h, fetchRest_long hdoc hlen, run_bind_ok (run_readU16_ok hhigh),
    ← instruction_eq]
  rfl

/-! ## Data accesses -/

theorem run_readBytes_ok {offsets : List Nat}
    (h : ∀ i ∈ offsets, env.tr.loadAs (guardStatus hart.facts.mstatus) (hart.dataByte i) = none)
    (data : Word xlen) :
    (readBytes env hart.facts.mtval offsets data).run hart =
      (.ok (offsets.foldl (fun data i =>
        data <<< 8 ||| (hart.memory (hart.dataByte i)).setWidth xlen.bits) data), hart) := by
  induction offsets generalizing data with
  | nil => rfl
  | cons i rest ih =>
    have hbyte : (readU8 env (hart.dataByte i)).run hart = (.ok (hart.memory (hart.dataByte i)), hart) :=
      run_guarded_ok (by rw [h i List.mem_cons_self]; rfl)
    exact (run_bind_ok hbyte).trans (ih (fun j hj => h j (List.mem_cons_of_mem i hj)) _)

theorem run_readBytes_fault (offsets : List Nat) (data : Word xlen)
    (h : ∃ i ∈ offsets, env.tr.loadAs (guardStatus hart.facts.mstatus) (hart.dataByte i) ≠ none) :
    ∃ i ∈ offsets, ∃ fault,
      env.tr.loadAs (guardStatus hart.facts.mstatus) (hart.dataByte i) = some fault ∧
      (readBytes env hart.facts.mtval offsets data).run hart =
        (.error (.memoryFault (loadCause xlen fault) (hart.dataByte i)),
          hart.recovered env (loadCause xlen fault) (hart.dataByte i)) := by
  induction offsets generalizing data with
  | nil => simp at h
  | cons i rest ih =>
    cases hi : env.tr.loadAs (guardStatus hart.facts.mstatus) (hart.dataByte i) with
    | some fault =>
      have hbyte : (readU8 env (hart.dataByte i)).run hart =
          (.error (.memoryFault (loadCause xlen fault) (hart.dataByte i)),
            hart.recovered env (loadCause xlen fault) (hart.dataByte i)) :=
        run_guarded_fault (by rw [hi]; rfl)
      exact ⟨i, List.mem_cons_self, fault, hi, run_bind_error hbyte⟩
    | none =>
      have hbyte : (readU8 env (hart.dataByte i)).run hart =
          (.ok (hart.memory (hart.dataByte i)), hart) := run_guarded_ok (by rw [hi]; rfl)
      obtain ⟨j, hj, hfault⟩ := h
      rcases List.mem_cons.mp hj with rfl | hj
      · exact (hfault hi).elim
      · obtain ⟨k, hk, fault, hfault, hrun⟩ := ih
          (data <<< 8 ||| (hart.memory (hart.dataByte i)).setWidth xlen.bits) ⟨j, hj, hfault⟩
        exact ⟨k, List.mem_cons_of_mem i hk, fault, hfault, (run_bind_ok hbyte).trans hrun⟩

/-- The byte that `write_value` stores at an offset. -/
def storedByte (value : Word xlen) (i : Nat) : BitVec 8 :=
  (value >>> (8 * i % xlen.bits) &&& 0xff#(xlen.bits)).setWidth 8

/-- The hart after the bytes at some offsets are stored. -/
def Hart.stored (hart : Hart xlen) (value : Word xlen) (offsets : List Nat) : Hart xlen :=
  let store memory i := Function.update memory (hart.dataByte i) (storedByte value i)
  { hart with memory := offsets.foldl store hart.memory }

theorem run_writeU8_ok {i : Nat} (value : Word xlen)
    (h : env.tr.storeAs (guardStatus hart.facts.mstatus) (hart.dataByte i) = none) :
    (writeU8 env (hart.dataByte i) (value >>> (8 * i % xlen.bits) &&& 0xff#(xlen.bits))).run hart =
      (.ok (), hart.stored value [i]) :=
  run_guarded_ok (by rw [h]; rfl)

theorem run_writeU8_fault {i : Nat} (value : Word xlen) {fault : Fault}
    (h : env.tr.storeAs (guardStatus hart.facts.mstatus) (hart.dataByte i) = some fault) :
    (writeU8 env (hart.dataByte i) (value >>> (8 * i % xlen.bits) &&& 0xff#(xlen.bits))).run hart =
      (.error (.memoryFault (storeCause xlen fault) (hart.dataByte i)),
        hart.recovered env (storeCause xlen fault) (hart.dataByte i)) :=
  run_guarded_fault (by rw [h]; rfl)

theorem run_writeBytes_ok {offsets : List Nat} (value : Word xlen)
    (h : ∀ i ∈ offsets, env.tr.storeAs (guardStatus hart.facts.mstatus) (hart.dataByte i) = none) :
    (writeBytes env hart.facts.mtval value offsets).run hart =
      (.ok (), hart.stored value offsets) := by
  induction offsets generalizing hart with
  | nil => rfl
  | cons i rest ih =>
    have hbyte := run_writeU8_ok value (h i List.mem_cons_self)
    have hrest := @ih (hart.stored value [i]) fun j hj => h j (List.mem_cons_of_mem i hj)
    exact (run_bind_ok hbyte).trans hrest

theorem run_writeBytes_fault (offsets : List Nat) (value : Word xlen)
    (h : ∃ i ∈ offsets, env.tr.storeAs (guardStatus hart.facts.mstatus) (hart.dataByte i) ≠ none) :
    ∃ before i after fault, offsets = before ++ i :: after ∧
      env.tr.storeAs (guardStatus hart.facts.mstatus) (hart.dataByte i) = some fault ∧
      (writeBytes env hart.facts.mtval value offsets).run hart =
        (.error (.memoryFault (storeCause xlen fault) (hart.dataByte i)),
          (hart.stored value before).recovered env (storeCause xlen fault) (hart.dataByte i)) := by
  induction offsets generalizing hart with
  | nil => simp at h
  | cons i rest ih =>
    cases hi : env.tr.storeAs (guardStatus hart.facts.mstatus) (hart.dataByte i) with
    | some fault =>
      exact ⟨[], i, rest, fault, rfl, hi, run_bind_error (run_writeU8_fault value hi)⟩
    | none =>
      obtain ⟨j, hj, hfault⟩ := h
      rcases List.mem_cons.mp hj with rfl | hj
      · exact (hfault hi).elim
      · obtain ⟨before, k, after, fault, hsplit, hfault, hrun⟩ :=
          @ih (hart.stored value [i]) ⟨j, hj, hfault⟩
        exact ⟨i :: before, k, after, fault, by rw [hsplit]; rfl, hfault,
          (run_bind_ok (run_writeU8_ok value hi)).trans hrun⟩

/-! ## Values -/

theorem dataByte_sub {i : Nat} (hi : i < xlen.words) :
    (hart.dataByte i - hart.facts.mtval).toNat = i := by
  rw [Hart.dataByte, BitVec.add_comm, BitVec.add_sub_cancel, BitVec.toNat_ofNat]
  exact Nat.mod_eq_of_lt hi

theorem storedByte_eq {value : Word xlen} {i : Nat} (hi : 8 * i < xlen.bits) :
    storedByte value i = value.extractLsb' (8 * i) 8 := by
  rw [storedByte, Nat.mod_eq_of_lt hi]
  ext j hj
  have hff : (255#(xlen.bits)).getLsbD j = true := by
    cases xlen <;> interval_cases j <;> decide
  simp [hff]

theorem stored_range {value : Word xlen} {width : Nat} (hwidth : 8 * width ≤ xlen.bits) :
    (hart.stored value (List.range width)).memory =
      isaStored hart.memory hart.facts.mtval value width := by
  have hword : xlen.bits < xlen.words := by cases xlen <;> decide
  induction width with
  | zero => rfl
  | succ width ih =>
    have hlast : (hart.dataByte width - hart.facts.mtval).toNat = width := dataByte_sub (by omega)
    funext a
    simp only [Hart.stored, List.range_succ, List.foldl_append, List.foldl_cons, List.foldl_nil]
    have hold : List.foldl _ hart.memory (List.range width) = _ := ih (by omega)
    rw [hold]
    by_cases ha : a = hart.dataByte width
    · subst ha
      rw [Function.update_self, isaStored, hlast, if_pos (Nat.lt_succ_self width),
        storedByte_eq (by omega)]
    · rw [Function.update_of_ne ha, isaStored, isaStored]
      have hne : (a - hart.facts.mtval).toNat ≠ width := by
        intro heq
        apply ha
        rw [← BitVec.sub_add_cancel a hart.facts.mtval, Hart.dataByte, ← heq, BitVec.ofNat_toNat,
          BitVec.setWidth_eq, BitVec.add_comm]
      have hiff : (a - hart.facts.mtval).toNat < width + 1 ↔ (a - hart.facts.mtval).toNat < width := by
        omega
      simp only [hiff]

theorem shift_or_byte (n : Nat) (byte : BitVec 8) :
    BitVec.ofNat xlen.bits n <<< 8 ||| byte.setWidth xlen.bits =
      BitVec.ofNat xlen.bits (byte.toNat + 256 * n) := by
  have hsum : byte.toNat + 256 * n = 2 ^ 8 * n + byte.toNat := by omega
  apply BitVec.eq_of_getLsbD_eq
  intro j hj
  rw [hsum, BitVec.getLsbD_ofNat, Nat.testBit_two_pow_mul_add n byte.isLt j]
  by_cases hlow : j < 8
  · simp [hj, hlow, BitVec.testBit_toNat]
  · have hsub : j - 8 < xlen.bits := by omega
    have hge : 8 ≤ j := by omega
    have hbyte : byte.toNat.testBit j = false := by
      rw [BitVec.testBit_toNat, BitVec.getLsbD_of_ge byte j hge]
    simp [hj, hsub, hge, hbyte, hlow, BitVec.getElem_eq_testBit_toNat, Nat.testBit_mod_two_pow]

theorem foldl_bytes (bytes : List (BitVec 8)) :
    bytes.reverse.foldl (fun (data : Word xlen) byte => data <<< 8 ||| byte.setWidth xlen.bits)
      0#(xlen.bits) = BitVec.ofNat xlen.bits (Nat.ofDigits 256 (bytes.map BitVec.toNat)) := by
  induction bytes with
  | nil => rfl
  | cons byte bytes ih =>
    rw [List.reverse_cons, List.foldl_append, ih]
    simp only [List.foldl_cons, List.foldl_nil, shift_or_byte, List.map_cons, Nat.ofDigits_cons]

theorem extend_eq (kind : ValueKind) (hwidth : 8 * kind.width ≤ xlen.bits) (bytes : List (BitVec 8)) :
    kind.extend (BitVec.ofNat xlen.bits (Nat.ofDigits 256 (bytes.map BitVec.toNat))) =
      (isaValue kind bytes : Word xlen) := by
  generalize hn : Nat.ofDigits 256 (bytes.map BitVec.toNat) = n
  unfold isaValue
  rw [hn]
  cases kind with
  | signed64 =>
    cases xlen with
    | rv32 => exact absurd hwidth (by decide)
    | rv64 => exact (BitVec.signExtend_eq (BitVec.ofNat 64 n)).symm
  | _ =>
    simp only [ValueKind.extend, ValueKind.width, ValueKind.isSigned] at *
    rw [BitVec.setWidth_ofNat_of_le hwidth]
    rfl

/-! ## Redirection -/

theorem getLsbD_stackSie (mstatus : Word xlen) :
    (stackSie mstatus).getLsbD 1 = false ∧ (stackSie mstatus).getLsbD 5 = mstatus.getLsbD 1 := by
  have hbits : 5 < xlen.bits := by cases xlen <;> decide
  have h1 : 1 < xlen.bits := by omega
  have hsie : (sstatusMask xlen)[1] = true := by
    rw [← BitVec.getLsbD_eq_getElem]
    cases xlen <;> decide
  have hspie : (sstatusMask xlen)[5] = true := by
    rw [← BitVec.getLsbD_eq_getElem]
    cases xlen <;> decide
  constructor
  · simp [stackSie, writeSstatus, sstatusSie, sstatusSpie, h1, hsie]
  · simp [stackSie, writeSstatus, sstatusSie, sstatusSpie, hbits, h1, hsie, hspie]

theorem redirect_mstatus (mstatus : Word xlen) (supervisor : Bool) :
    mpp (setMppSupervisor (setSpp (stackSie mstatus) supervisor)) = 1#2 ∧
    (setMppSupervisor (setSpp (stackSie mstatus) supervisor)).getLsbD 1 = false ∧
    (setMppSupervisor (setSpp (stackSie mstatus) supervisor)).getLsbD 8 = supervisor ∧
    (setMppSupervisor (setSpp (stackSie mstatus) supervisor)).getLsbD 5 = mstatus.getLsbD 1 := by
  have hsie := getLsbD_stackSie mstatus
  generalize stackSie mstatus = status at hsie ⊢
  have hbits : 12 < xlen.bits := by cases xlen <;> decide
  refine ⟨?_, ?_, ?_, ?_⟩
  · apply BitVec.eq_of_getLsbD_eq
    intro i hi
    have h11 : 11 < xlen.bits := by omega
    have h1 : 1 < xlen.bits := by omega
    have hthree : (3#(xlen.bits))[1] = true := by
      rw [← BitVec.getLsbD_eq_getElem]
      cases xlen <;> decide
    interval_cases i
    · simp [mpp, setMppSupervisor, h11]
    · simp [mpp, setMppSupervisor, hbits, hthree]
  · rw [← hsie.1]
    have h1 : 1 < xlen.bits := by omega
    cases supervisor <;> simp [setMppSupervisor, setSpp, sstatusSpp, h1]
  · have h8 : 8 < xlen.bits := by omega
    cases supervisor <;> simp [setMppSupervisor, setSpp, sstatusSpp, h8]
  · rw [← hsie.2]
    have h5 : 5 < xlen.bits := by omega
    cases supervisor <;> simp [setMppSupervisor, setSpp, sstatusSpp, h5]

/-- What a redirection after an error reports. -/
def Hart.report (hart : Hart xlen) : Error xlen → Word xlen × Word xlen
  | .memoryFault cause tval => (cause, tval)
  | _ => (hart.facts.mcause, hart.facts.mtval)

/-- A redirection from a hart whose trap registers are those of the trap. -/
theorem redirectOrFatal_eq (hart : Hart xlen) (hlower : mpp hart.facts.mstatus ≠ 3#2) (e : Error xlen) :
    redirectOrFatal hart (some e) = some { hart with
      supervisor := ⟨hart.facts.mepc, (hart.report e).1, (hart.report e).2, hart.supervisor.stvec⟩
      facts := { hart.facts with
        mstatus := setMppSupervisor
          (setSpp (stackSie hart.facts.mstatus) (mpp hart.facts.mstatus = 1#2))
        mepc := stvecAddress hart.supervisor.stvec } } := by
  cases e <;> simp [redirectOrFatal, redirectTrap, hlower, Hart.report]

/-! ## Emulation -/

theorem load?_of_decode (decoder : Decoder) (raw : BitVec 32) :
    decodeLoad decoder raw = (decoder.decode raw).bind Instruction.load? := by
  unfold decodeLoad
  cases decoder.decode raw with
  | none => rfl
  | some instruction => cases instruction <;> rfl

theorem store?_of_decode (decoder : Decoder) (raw : BitVec 32) :
    decodeStore decoder raw = (decoder.decode raw).bind Instruction.store? := by
  unfold decodeStore
  cases decoder.decode raw with
  | none => rfl
  | some instruction => cases instruction <;> rfl

/-- The decoder agrees with the instruction set on what is not `other`. -/
theorem Decoder.Documented.bind_eq {decoder : Decoder} (hdoc : decoder.Documented)
    {pick : Instruction → Option α} (hother : pick .other = none) (raw : BitVec 32) :
    (decoder.decode raw).bind pick = (isaMemory raw).bind pick := by
  cases hmem : isaMemory raw with
  | some instruction => rw [hdoc.known raw instruction hmem]
  | none =>
    cases hdecode : decoder.decode raw with
    | none => rfl
    | some instruction =>
      by_cases hne : instruction = .other
      · rw [hne]
        exact hother
      · have hsome := hdoc.only raw instruction hdecode hne
        rw [hmem] at hsome
        cases hsome

theorem isaMemory_low {raw : BitVec 32} {instruction : Instruction}
    (h : isaMemory raw = some instruction) : raw.extractLsb' 0 2 = 3#2 := by
  have hlow : raw.extractLsb' 0 2 = (raw.extractLsb' 0 7).extractLsb' 0 2 := by
    ext i hi
    simp
  rw [hlow]
  unfold isaMemory at h
  by_cases hload : raw.extractLsb' 0 7 = 0x03#7
  · rw [hload]
    rfl
  · by_cases hstore : raw.extractLsb' 0 7 = 0x23#7
    · rw [hstore]
      rfl
    · simp [hload, hstore] at h

theorem isaLength_of_isaMemory {instruction : Instruction}
    (h : isaMemory hart.instruction = some instruction) : isaLength hart.low = 4 := by
  have hlow : hart.low.extractLsb' 0 2 = hart.instruction.extractLsb' 0 2 := by
    unfold Hart.instruction
    generalize hart.low = low
    generalize hart.high = high
    apply BitVec.eq_of_getLsbD_eq
    intro i hi
    have hlow : i < 16 := by omega
    have happend : (high ++ low).getLsbD i = low.getLsbD i := by
      rw [BitVec.getLsbD_append, if_pos hlow]
    simp only [BitVec.getLsbD_extractLsb', Nat.zero_add, happend]
  rw [isaLength, hlow, isaMemory_low h, if_pos rfl]

theorem isaLength_cases (low : BitVec 16) : isaLength low = 2 ∨ isaLength low = 4 := by
  unfold isaLength
  split <;> simp

theorem isaMemory_short (h : isaLength hart.low = 2) :
    isaMemory (hart.low.setWidth 32) = none := by
  cases hmem : isaMemory (hart.low.setWidth 32) with
  | none => rfl
  | some instruction =>
    have hlow : hart.low.extractLsb' 0 2 = (hart.low.setWidth 32).extractLsb' 0 2 := by
      generalize hart.low = low
      apply BitVec.eq_of_getLsbD_eq
      intro i hi
      have hword : i < 32 := by omega
      simp [hi, hword]
    rw [isaLength, hlow, isaMemory_low hmem] at h
    simp at h

/-- How an emulation stops: only the memory below a faulting byte has changed,
and what the redirection will report is an exception of the trapped instruction. -/
structure Failed (tr : Translation xlen) (hart : Hart xlen) (access : Access) (e : Error xlen)
    (hart' : Hart xlen) : Prop where
  frame : hart'.frame = hart.frame
  supervisor : hart'.supervisor = hart.supervisor
  reported : Reported tr hart access (hart.report e).1 (hart.report e).2
  memory : ∀ a, hart'.memory a ≠ hart.memory a → access = .store ∧
    ∃ i j, j < i ∧ a = hart.dataByte j ∧ (hart.report e).2 = hart.dataByte i

theorem Failed.of_recovered {access : Access} {e : Error xlen} {cause tval : Word xlen}
    (h : Reported env.tr hart access (hart.report e).1 (hart.report e).2) :
    Failed env.tr hart access e (hart.recovered env cause tval) where
  frame := rfl
  supervisor := rfl
  reported := h
  memory _ ha := (ha rfl).elim

theorem Failed.unsupported {tr : Translation xlen} {access : Access} :
    Failed tr hart access .unsupportedInstruction hart where
  frame := rfl
  supervisor := rfl
  reported := .original
  memory _ ha := (ha rfl).elim

/-- The trapped instruction can be fetched with guarded loads and is one that
the emulation picks. -/
structure Hart.Decodes (tr : Translation xlen) (hart : Hart xlen) (pick : Instruction → Option α)
    (instruction : Instruction) (op : α) : Prop where
  memory : isaMemory hart.instruction = some instruction
  pick : pick instruction = some op
  fetch : hart.halfwordFault tr 0 = none ∧ hart.halfwordFault tr 2 = none

/-- The fetch and the decoding that both emulations begin with. -/
def fetchOp (env : Env xlen) (decoder : Decoder) (pick : Instruction → Option α)
    (rest : α → Nat → Op xlen β) (mepc : Word xlen) : Op xlen β := do
  let (raw, len) ← fetch env decoder mepc
  let op ← supported ((decoder.decode raw).bind pick)
  rest op len

/-- Either the rest of the emulation runs on the same hart, or it has failed there. -/
theorem run_fetchOp {decoder : Decoder} (hdoc : decoder.Documented) (access : Access)
    (pick : Instruction → Option α) (hother : pick .other = none) (rest : α → Nat → Op xlen β) :
    (∃ instruction op, hart.Decodes env.tr pick instruction op ∧
      (fetchOp env decoder pick rest hart.facts.mepc).run hart = (rest op 4).run hart) ∨
    ((∀ instruction op, ¬ hart.Decodes env.tr pick instruction op) ∧
      ∃ e hart', (fetchOp env decoder pick rest hart.facts.mepc).run hart = (.error e, hart') ∧
        Failed env.tr hart access e hart') := by
  unfold fetchOp
  cases hlow : hart.halfwordFault env.tr 0 with
  | some fault =>
    refine .inr ⟨fun instruction op h => ?_, _, _,
      run_bind_error (run_fetch_low_fault decoder hlow), .of_recovered (.fetch 0 fault (.inl rfl) hlow)⟩
    rw [h.fetch.1] at hlow
    cases hlow
  | none =>
    rcases isaLength_cases hart.low with hlen | hlen
    · refine .inr ⟨fun instruction op h => ?_, .unsupportedInstruction, hart, ?_, .unsupported⟩
      · rw [isaLength_of_isaMemory h.memory] at hlen
        cases hlen
      · rw [run_bind_ok (run_fetch_short hdoc hlow hlen)]
        simp only [hdoc.bind_eq hother, isaMemory_short hlen]
        rfl
    · cases hhigh : hart.halfwordFault env.tr 2 with
      | some fault =>
        refine .inr ⟨fun instruction op h => ?_, _, _,
          run_bind_error (run_fetch_high_fault hdoc hlow hlen hhigh),
          .of_recovered (.fetch 2 fault (.inr rfl) hhigh)⟩
        rw [h.fetch.2] at hhigh
        cases hhigh
      | none =>
        rw [run_bind_ok (run_fetch_long hdoc hlow hlen hhigh)]
        simp only [hdoc.bind_eq hother]
        cases hmem : isaMemory hart.instruction with
        | none =>
          refine .inr ⟨fun instruction op h => ?_, .unsupportedInstruction, hart, rfl, .unsupported⟩
          rw [h.memory] at hmem
          cases hmem
        | some instruction =>
          cases hpick : pick instruction with
          | none =>
            refine .inr ⟨fun instruction' op h => ?_, .unsupportedInstruction, hart, ?_, .unsupported⟩
            · obtain rfl : instruction' = instruction := Option.some.inj (h.memory.symm.trans hmem)
              rw [h.pick] at hpick
              cases hpick
            · rw [Option.bind_some, hpick]
              rfl
          | some op =>
            refine .inl ⟨instruction, op, ⟨hmem, hpick, hlow, hhigh⟩, ?_⟩
            rw [Option.bind_some, hpick]
            rfl

/-- What the body of an emulation does. -/
inductive Emulated (tr : Translation xlen) (hart : Hart xlen) (access : Access) :
    Except (Error xlen) Nat × Hart xlen → Prop
  | done {instruction : Instruction} {width : Nat} {hart' : Hart xlen}
      (reaches : hart.Reaches tr access instruction width)
      (result : instruction.inBase xlen = true →
        { hart' with facts := hart.advanced.facts } = hart.result instruction access) :
      Emulated tr hart access (.ok 4, hart')
  | failed {e : Error xlen} {hart' : Hart xlen}
      (unreached : ∀ instruction width, ¬ hart.Reaches tr access instruction width)
      (failed : Failed tr hart access e hart') :
      Emulated tr hart access (.error e, hart')

theorem accesses_width {instruction : Instruction} {access : Access} {width : Nat}
    (hbase : instruction.inBase xlen = true) (h : instruction.accesses access = some width) :
    8 * width ≤ xlen.bits := by
  cases access <;> cases instruction <;> cases h <;> cases xlen <;>
    first | cases hbase; done | simp [ValueKind.width, Xlen.bits]

theorem loadBody_eq (env : Env xlen) (decoder : Decoder) (facts : TrapFacts xlen) :
    loadBody env decoder facts = fetchOp env decoder Instruction.load?
      (fun op len => do
        let rawValue ← readValue env facts.mtval op.kind
        setX op.rd (op.kind.extend rawValue)
        return len) facts.mepc := by
  unfold loadBody fetchOp
  simp only [load?_of_decode]

theorem storeBody_eq (env : Env xlen) (decoder : Decoder) (facts : TrapFacts xlen) :
    storeBody env decoder facts = fetchOp env decoder Instruction.store?
      (fun op len => do
        let value ← getX op.rs2
        writeValue env facts.mtval value op.kind
        return len) facts.mepc := by
  unfold storeBody fetchOp
  simp only [store?_of_decode]

/-- The accesses of the trapped instruction all succeed, or one of them faults. -/
theorem data_cases (tr : Translation xlen) (hart : Hart xlen) (access : Access) (width : Nat) :
    (∀ i < width, tr.dataAs access (guardStatus hart.facts.mstatus) (hart.dataByte i) = none) ∨
    ∃ i < width, tr.dataAs access (guardStatus hart.facts.mstatus) (hart.dataByte i) ≠ none := by
  by_cases h : ∃ i < width,
      tr.dataAs access (guardStatus hart.facts.mstatus) (hart.dataByte i) ≠ none
  · exact .inr h
  · exact .inl fun i hi => by_contra fun hne => h ⟨i, hi, hne⟩

/-- The emulation reaches one instruction at most. -/
theorem Hart.Reaches.data_of {tr : Translation xlen} {access : Access}
    {instruction instruction' : Instruction} {width width' : Nat}
    (h : hart.Reaches tr access instruction' width')
    (hmem : isaMemory hart.instruction = some instruction)
    (haccess : instruction.accesses access = some width) {i : Nat} (hi : i < width) :
    tr.dataAs access (guardStatus hart.facts.mstatus) (hart.dataByte i) = none := by
  obtain rfl : instruction = instruction' := Option.some.inj (hmem.symm.trans h.memory)
  obtain rfl : width = width' := Option.some.inj (haccess.symm.trans h.accesses)
  exact h.data i hi

theorem result_load {instruction : Instruction} {op : LoadOp} (h : instruction.load? = some op) :
    hart.result instruction .load = { hart.advanced with
      frame := hart.frame.writeX op.rd (isaValue op.kind
        ((List.range op.kind.width).map fun i => hart.memory (hart.dataByte i))) } := by
  simp only [Hart.result, h]

theorem result_store {instruction : Instruction} {op : StoreOp} (h : instruction.store? = some op) :
    hart.result instruction .store = { hart.advanced with
      memory := isaStored hart.memory hart.facts.mtval (hart.frame.readX op.rs2) op.kind.width } := by
  simp only [Hart.result, h]

theorem emulated_load {decoder : Decoder} (hdoc : decoder.Documented) :
    Emulated env.tr hart .load ((loadBody env decoder hart.facts).run hart) := by
  rw [loadBody_eq]
  rcases run_fetchOp hdoc .load Instruction.load? rfl _ with
    ⟨instruction, op, hdec, hrun⟩ | ⟨hnone, e, hart', hrun, hfailed⟩
  · rw [hrun]
    have haccess : instruction.accesses .load = some op.kind.width :=
      congrArg (Option.map _) hdec.pick
    rcases data_cases env.tr hart .load op.kind.width with hdata | ⟨i, hi, hfault⟩
    · have hread : (readValue env hart.facts.mtval op.kind).run hart = _ :=
        run_readBytes_ok (fun i hi => hdata i (by simpa using hi)) 0#(xlen.bits)
      rw [run_bind_ok hread]
      refine .done ⟨hdec.memory, haccess, hdec.fetch, hdata⟩ fun hbase => ?_
      have hvalue := extend_eq op.kind (accesses_width hbase haccess)
        ((List.range op.kind.width).map fun i => hart.memory (hart.dataByte i))
      rw [← foldl_bytes, ← List.map_reverse, List.foldl_map] at hvalue
      rw [result_load hdec.pick, ← hvalue]
      rfl
    · obtain ⟨k, hk, fault, hfault, hread⟩ := run_readBytes_fault
        (List.range op.kind.width).reverse 0#(xlen.bits) ⟨i, by simpa using hi, hfault⟩
      have hk : k < op.kind.width := by simpa using hk
      have hread : (readValue env hart.facts.mtval op.kind).run hart = _ := hread
      rw [run_bind_error hread]
      refine .failed (fun instruction' width h => ?_)
        (.of_recovered (.byte instruction op.kind.width k fault hdec.memory haccess hk hfault))
      rw [← Translation.dataAs.eq_1, h.data_of hdec.memory haccess hk] at hfault
      cases hfault
  · rw [hrun]
    refine .failed (fun instruction width h => ?_) hfailed
    obtain ⟨op, hop, -⟩ := Option.map_eq_some_iff.mp h.accesses
    exact hnone instruction op ⟨h.memory, hop, h.fetch⟩

/-- The bytes below a faulting one are those of a prefix of the offsets. -/
theorem stored_ne {value : Word xlen} {offsets : List Nat} {a : Word xlen}
    (h : (hart.stored value offsets).memory a ≠ hart.memory a) :
    ∃ j ∈ offsets, a = hart.dataByte j := by
  induction offsets using List.reverseRecOn with
  | nil => exact (h rfl).elim
  | append_singleton offsets j ih =>
    simp only [Hart.stored, List.foldl_append, List.foldl_cons, List.foldl_nil] at h
    by_cases ha : a = hart.dataByte j
    · exact ⟨j, by simp, ha⟩
    · rw [Function.update_of_ne ha] at h
      obtain ⟨k, hk, hak⟩ := ih h
      exact ⟨k, List.mem_append_left _ hk, hak⟩

theorem range_split {n i : Nat} {before after : List Nat} (h : List.range n = before ++ i :: after) :
    i < n ∧ ∀ j ∈ before, j < i := by
  have hsorted : (List.range n).Pairwise (· < ·) := List.pairwise_lt_range
  have hmem : i ∈ List.range n := by simp [h]
  rw [h, List.pairwise_append] at hsorted
  exact ⟨List.mem_range.mp hmem, fun j hj => hsorted.2.2 j hj i List.mem_cons_self⟩

theorem emulated_store {decoder : Decoder} (hdoc : decoder.Documented) :
    Emulated env.tr hart .store ((storeBody env decoder hart.facts).run hart) := by
  rw [storeBody_eq]
  rcases run_fetchOp hdoc .store Instruction.store? rfl _ with
    ⟨instruction, op, hdec, hrun⟩ | ⟨hnone, e, hart', hrun, hfailed⟩
  · rw [hrun]
    have haccess : instruction.accesses .store = some op.kind.width :=
      congrArg (Option.map _) hdec.pick
    have hget : (getX op.rs2).run hart = (.ok (hart.frame.readX op.rs2), hart) := rfl
    rw [run_bind_ok hget]
    rcases data_cases env.tr hart .store op.kind.width with hdata | ⟨i, hi, hfault⟩
    · have hwrite : (writeValue env hart.facts.mtval (hart.frame.readX op.rs2) op.kind).run hart = _ :=
        run_writeBytes_ok _ fun i hi => hdata i (List.mem_range.mp hi)
      rw [run_bind_ok hwrite]
      refine .done ⟨hdec.memory, haccess, hdec.fetch, hdata⟩ fun hbase => ?_
      rw [result_store hdec.pick, ← stored_range (accesses_width hbase haccess)]
      rfl
    · obtain ⟨before, k, after, fault, hsplit, hfault, hwrite⟩ := run_writeBytes_fault
        (List.range op.kind.width) (hart.frame.readX op.rs2)
        ⟨i, List.mem_range.mpr hi, hfault⟩
      obtain ⟨hk, hbefore⟩ := range_split hsplit
      have hwrite : (writeValue env hart.facts.mtval (hart.frame.readX op.rs2) op.kind).run hart = _ :=
        hwrite
      rw [run_bind_error hwrite]
      refine .failed (fun instruction' width h => ?_) ⟨rfl, rfl, ?_, fun a ha => ⟨rfl, ?_⟩⟩
      · have hnone := h.data_of hdec.memory haccess hk
        rw [Translation.dataAs, hfault] at hnone
        cases hnone
      · exact .byte instruction op.kind.width k fault hdec.memory haccess hk hfault
      · obtain ⟨j, hj, haj⟩ := stored_ne ha
        exact ⟨k, j, hbefore j hj, haj, rfl⟩
  · rw [hrun]
    refine .failed (fun instruction width h => ?_) hfailed
    obtain ⟨op, hop, -⟩ := Option.map_eq_some_iff.mp h.accesses
    exact hnone instruction op ⟨h.memory, hop, h.fetch⟩

/-! ## The trap -/

/-- The body that an emulation runs. -/
def body (env : Env xlen) (decoder : Decoder) : Access → TrapFacts xlen → Op xlen Nat
  | .load => loadBody env decoder
  | .store => storeBody env decoder

theorem emulated (env : Env xlen) (hart : Hart xlen) {decoder : Decoder}
    (hdoc : decoder.Documented) (access : Access) :
    Emulated env.tr hart access ((body env decoder access hart.facts).run hart) := by
  cases access with
  | load => exact emulated_load hdoc
  | store => exact emulated_store hdoc

theorem trappedFromMachine_eq_false {access : Access} (htrap : hart.Trapped access) :
    hart.frame.trappedFromMachine = false := by
  have hne : mpp hart.facts.mstatus ≠ 3#2 := by
    rcases htrap.lower with h | h <;> rw [h] <;> decide
  unfold TrapFrame.trappedFromMachine
  rw [htrap.frame.2.1, beq_eq_false_iff_ne]
  intro heq
  apply hne
  have hmask : ∀ k, (3#(xlen.bits) <<< 11).getLsbD k = true → hart.facts.mstatus.getLsbD k = true := by
    intro k hk
    have hbit := congrArg (BitVec.getLsbD · k) heq
    simpa only [BitVec.getLsbD_and, hk, Bool.and_true] using hbit
  have h11 := hmask 11 (by cases xlen <;> decide)
  have h12 := hmask 12 (by cases xlen <;> decide)
  apply BitVec.eq_of_getLsbD_eq
  intro i hi
  rw [mpp, BitVec.getLsbD_extractLsb']
  interval_cases i
  · rw [h11]
    rfl
  · rw [h12]
    rfl

theorem run_emulate {access : Access} (htrap : hart.Trapped access) (decoder : Decoder) :
    (emulate env decoder access).run hart =
      (withTrapFacts (body env decoder access)).run hart := by
  have hreject : (rejectMachineOrigin : Op xlen Unit).run hart = (.ok (), hart) := by
    unfold rejectMachineOrigin
    rw [ExceptT.run_mk, trappedFromMachine_eq_false htrap]
    rfl
  cases access with
  | load => exact run_bind_ok hreject
  | store => exact run_bind_ok hreject

theorem trapDispatch_eq {access : Access} (htrap : hart.Trapped access) (decoder : Decoder)
    (handlers : Handlers xlen) :
    trapDispatch env decoder handlers hart = misaligned env decoder hart access := by
  have hcode := htrap.frame.2.2.1.trans htrap.cause
  unfold trapDispatch
  rw [hcode, trappedFromMachine_eq_false htrap]
  cases access <;> cases xlen <;> rfl

theorem Failed.redirected {tr : Translation xlen} {access : Access} {e : Error xlen}
    {hart' : Hart xlen} (h : Failed tr hart access e hart') (htrap : hart.Trapped access) :
    ∃ hart'', redirectOrFatal { hart' with facts := hart.facts } (some e) = some hart'' ∧
      Redirected tr hart access hart'' := by
  have hlower : mpp hart.facts.mstatus ≠ 3#2 := by
    rcases htrap.lower with h | h <;> rw [h] <;> decide
  have hreport : ({ hart' with facts := hart.facts } : Hart xlen).report e = hart.report e := by
    cases e <;> rfl
  have hstvec : hart'.supervisor.stvec = hart.supervisor.stvec :=
    congrArg SupervisorCsrs.stvec h.supervisor
  obtain ⟨hmpp, hsie, hspp, hspie⟩ :=
    redirect_mstatus hart.facts.mstatus (mpp hart.facts.mstatus = 1#2)
  refine ⟨_, redirectOrFatal_eq { hart' with facts := hart.facts } hlower e, ?_⟩
  simp only [hreport]
  exact {
    registers := h.frame
    reported := h.reported
    vector := ⟨congrArg stvecAddress hstvec, hstvec⟩
    entry := ⟨hmpp, hsie⟩
    resume := by
      refine ⟨rfl, ?_, hspie⟩
      rw [hspp]
      rcases htrap.lower with hu | hs
      · simp [hu]
      · simp [hs]
    memory := h.memory }

/-- The length of an instruction that the emulation completes. -/
theorem Hart.Reaches.advanced {tr : Translation xlen} {access : Access} {instruction : Instruction}
    {width : Nat} (h : hart.Reaches tr access instruction width) :
    hart.advanced.facts = { hart.facts with mepc := hart.facts.mepc + BitVec.ofNat xlen.bits 4 } := by
  rw [Hart.advanced, Hart.pcByte, isaLength_of_isaMemory h.memory]

end Run

section Main

variable {env : Env xlen} {decoder : Decoder} (handlers : Handlers xlen) {hart : Hart xlen}
  {access : Access}

/-- A trap whose emulation runs to its end has been dispatched to it. -/
theorem dispatch_of_reaches (hdoc : decoder.Documented) (htrap : hart.Trapped access)
    {instruction : Instruction} {width : Nat}
    (hreach : hart.Reaches env.tr access instruction width) :
    ∃ hart', trapDispatch env decoder handlers hart = some hart' ∧
      Completes env decoder hart access ∧
      (instruction.inBase xlen = true → hart' = hart.result instruction access) := by
  rw [trapDispatch_eq htrap]
  unfold misaligned Completes
  rw [run_emulate htrap]
  have hbody := emulated env hart hdoc access
  generalize hrun : (body env decoder access hart.facts).run hart = run at hbody
  cases hbody with
  | @done instruction' width' hart' hreach' hresult =>
    have hwith : (withTrapFacts (body env decoder access)).run hart =
        (.ok (), { hart' with facts := hart.advanced.facts }) := by
      unfold withTrapFacts
      rw [ExceptT.run_mk]
      simp only [hrun, hreach.advanced]
    rw [hwith]
    obtain rfl : instruction = instruction' := Option.some.inj (hreach.memory.symm.trans hreach'.memory)
    exact ⟨_, rfl, rfl, hresult⟩
  | failed hnone hfailed => exact (hnone _ _ hreach).elim

theorem dispatch_of_not_reaches (hdoc : decoder.Documented) (htrap : hart.Trapped access)
    (hnone : ∀ instruction width, ¬ hart.Reaches env.tr access instruction width) :
    ∃ hart', trapDispatch env decoder handlers hart = some hart' ∧
      ¬ Completes env decoder hart access ∧ Redirected env.tr hart access hart' := by
  rw [trapDispatch_eq htrap]
  unfold misaligned Completes
  rw [run_emulate htrap]
  have hbody := emulated env hart hdoc access
  generalize hrun : (body env decoder access hart.facts).run hart = run at hbody
  cases hbody with
  | done hreach hresult => exact (hnone _ _ hreach).elim
  | @failed e hart' hnone hfailed =>
    have hwith : (withTrapFacts (body env decoder access)).run hart =
        (.error e, { hart' with facts := hart.facts }) := by
      unfold withTrapFacts
      rw [ExceptT.run_mk]
      simp only [hrun]
    rw [hwith]
    obtain ⟨hart'', hredirect, hredirected⟩ := hfailed.redirected htrap
    exact ⟨hart'', hredirect, nofun, hredirected⟩

/-- A misaligned access of a supervisor or a user is emulated precisely exactly
when the guarded accesses do not complete one that its own permissions forbid. -/
theorem misaligned_precise_iff (hdoc : decoder.Documented) (htrap : hart.Trapped access) :
    Precise env decoder handlers hart access ↔
      ∀ instruction width, hart.Reaches env.tr access instruction width →
        hart.MayAccess env.tr access instruction width := by
  constructor
  · rintro ⟨hart', -, ⟨-, hcompleted⟩ | ⟨hnot, -⟩⟩ instruction width hreach
    · obtain ⟨instruction', width', hmem, haccess, hmay, -⟩ := hcompleted
      obtain rfl : instruction = instruction' := Option.some.inj (hreach.memory.symm.trans hmem)
      obtain rfl : width = width' := Option.some.inj (hreach.accesses.symm.trans haccess)
      exact hmay
    · obtain ⟨-, -, hcompletes, -⟩ := dispatch_of_reaches handlers hdoc htrap hreach
      exact (hnot hcompletes).elim
  · intro h
    by_cases hreach : ∃ instruction width, hart.Reaches env.tr access instruction width
    · obtain ⟨instruction, width, hreach⟩ := hreach
      have hmay := h instruction width hreach
      obtain ⟨hart', hrun, hcompletes, hresult⟩ := dispatch_of_reaches handlers hdoc htrap hreach
      exact ⟨hart', hrun, .inl ⟨hcompletes, instruction, width, hreach.memory, hreach.accesses,
        hmay, hresult hmay.base⟩⟩
    · obtain ⟨hart', hrun, hnot, hredirected⟩ := dispatch_of_not_reaches handlers hdoc htrap
        fun instruction width hr => hreach ⟨instruction, width, hr⟩
      exact ⟨hart', hrun, .inr ⟨hnot, hredirected⟩⟩

end Main

/-! ## A user load -/

/-- The instruction set as a decoder. -/
def isaDecoder : Decoder := ⟨isaMemory, isaLength⟩

theorem isaDecoder_documented : isaDecoder.Documented where
  length low := by
    simp only [isaDecoder, isaLength]
    split <;> simp_all
  known _ _ h := h
  only _ _ h _ := h

/-- Two user pages: the code, and a data page that is executable and perhaps readable. -/
def userPages (readable : Bool) : Env .rv64 where
  tr :=
    { fetch := fun _ _ => none
      load := fun _ _ mxr (addr : BitVec 64) =>
        if addr >>> 12 = 2#64 ∧ !readable ∧ !mxr then some .page else none
      store := fun _ _ _ => none }
  guardPc := 0x80000000#64

/-- A user has trapped on `lw a0, 0(a1)` with `a1 = 0x2001`. -/
def userLoad : Hart .rv64 where
  frame := ⟨(Vector.replicate 31 0#64).set 10 0x2001#64, 0x1000#64, 0#64, 4#64, 0x2001#64⟩
  facts := ⟨0x1000#64, 4#64, 0x2001#64, 0#64⟩
  supervisor := ⟨0#64, 0#64, 0#64, 0x80200000#64⟩
  memory := fun (addr : BitVec 64) =>
    if addr = 0x1000#64 then 0x03#8 else if addr = 0x1001#64 then 0xa5#8
    else if addr = 0x1002#64 then 0x05#8 else if addr = 0x1003#64 then 0x00#8 else 0x7f#8

theorem userLoad_trapped : userLoad.Trapped .load where
  frame := ⟨rfl, rfl, rfl, rfl⟩
  cause := rfl
  lower := .inl (by decide)

theorem userLoad_instruction : isaMemory userLoad.instruction = some (.lw 10#5) := by
  decide

theorem misaligned_precise_user_load :
    let handlers : Handlers .rv64 := ⟨fun _ => none, fun _ => none⟩
    Precise (userPages true) isaDecoder handlers userLoad .load := by
  intro handlers
  refine (misaligned_precise_iff handlers isaDecoder_documented userLoad_trapped).mpr
    fun instruction width h => ?_
  obtain rfl : .lw 10#5 = instruction := Option.some.inj (userLoad_instruction.symm.trans h.memory)
  exact ⟨rfl, fun _ _ => rfl, fun _ _ => by simp [Translation.dataAs, Translation.loadAs, userPages]⟩

set_option maxRecDepth 8000 in
/-- The user may fetch its load and may not read the execute-only page that it
loads from, and the emulation completes with the bytes of that page. -/
theorem execute_only_load_completes :
    let handlers : Handlers .rv64 := ⟨fun _ => none, fun _ => none⟩
    userLoad.Trapped .load ∧ isaDecoder.Documented ∧
    (∀ i < 4, (userPages false).tr.fetch (mpp userLoad.facts.mstatus) (userLoad.pcByte i) = none) ∧
    (userPages false).tr.loadAs userLoad.facts.mstatus 0x2001#64 = some .page ∧
    (∃ hart', trapDispatch (userPages false) isaDecoder handlers userLoad = some hart' ∧
      hart'.frame.readX 10#5 = 0x7f7f7f7f#64 ∧ hart'.facts.mepc = 0x1004#64) ∧
    ¬ Precise (userPages false) isaDecoder handlers userLoad .load := by
  refine ⟨userLoad_trapped, isaDecoder_documented, fun _ _ => rfl, by decide, ⟨_, rfl, rfl, rfl⟩, ?_⟩
  rintro ⟨hart', -, ⟨-, instruction, width, hmem, haccess, hmay, -⟩ | ⟨hnot, -⟩⟩
  · obtain rfl : .lw 10#5 = instruction := Option.some.inj (userLoad_instruction.symm.trans hmem)
    cases haccess
    exact absurd (hmay.data 0 (by decide)) (by decide)
  · exact hnot rfl

end RustSbi.Trap
