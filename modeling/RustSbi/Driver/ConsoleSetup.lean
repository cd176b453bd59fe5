import RustSbi.Driver.Console

/-!
Binding of the console (`driver/console/mod.rs`): the divisors that a clock gives, the window of
the registers, and the writes that turn a UART on. A PL011 and an XScale UART that were left in any
state get the divisor of their clock, a SiFive UART is turned on at the divisor it has, and the
other kinds are taken over as they are. Nothing goes over the line meanwhile, and the driver has the
debug console's backend contract from then on.
-/

namespace RustSbi.Driver

open Checked Memory Serial
open Console (DbcnError DbcnBackend)

variable {xlen : Xlen} {σ ρ κ : Type}

/-! ## Divisors -/

/-- A checked operation on `u32`, by its exact result. -/
def checkedU32 (n : Nat) : Option Nat := if n < 2 ^ 32 then some n else none

/-- `BAUD_RATE`. -/
def baudRate : Nat := 115200

/-- `UART_CLOCK_OVERSAMPLING`. -/
def uartClockOversampling : Nat := 16

/-- `uart_divisor`. -/
def uartDivisor (clockHz : BitVec 32) : Option (BitVec 16) := do
  let denominator ← checkedU32 (baudRate * uartClockOversampling)
  let divisor := (← checkedU32 (clockHz.toNat + denominator / 2)) / denominator
  if 1 ≤ divisor ∧ divisor ≤ 0xffff then some (BitVec.ofNat 16 divisor) else none

/-- `BaudDivisors`. -/
structure BaudDivisors where
  integer : BitVec 16
  fractional : BitVec 8
  deriving DecidableEq, Repr

/-- `FRACTIONAL_SCALE`. -/
def fractionalScale : Nat := 64

/-- `BaudDivisors::from_clock_hz`. -/
def BaudDivisors.fromClockHz (clockHz : BitVec 32) : Option BaudDivisors := do
  let denominator ← checkedU32 (baudRate * 16)
  let remainder := clockHz.toNat % denominator
  let scaled ← checkedU32 (remainder * fractionalScale)
  let rounded := (← checkedU32 (scaled + denominator / 2)) / denominator
  let carry := rounded = fractionalScale
  let integer ←
    if carry then checkedU32 (clockHz.toNat / denominator + 1) else some (clockHz.toNat / denominator)
  let fractional := if carry then 0 else rounded
  if ¬ (1 ≤ integer ∧ integer ≤ 0xffff) ∨ fractionalScale ≤ fractional then none
  else some ⟨BitVec.ofNat 16 integer, BitVec.ofNat 8 fractional⟩

/-- `n` is the integer nearest to `a / b`, the greater one of two. -/
def Nearest (n a b : Nat) : Prop := n * b ≤ a + b / 2 ∧ a + b / 2 < (n + 1) * b

/-- The clock of one baud, sixteen times oversampled. -/
def baudClock : Nat := baudRate * 16

/-- `write_reg`, for several registers one after another. -/
def writeAll (registers : MmioRegion xlen) (device : Device σ) (offset : ρ → Nat) :
    List (ρ × BitVec 32) → Program σ PUnit
  | [] => return ⟨⟩
  | (register, value) :: rest => do
    writeWord registers device (offset register) value
    writeAll registers device offset rest

namespace UartPl011

/-- `LineControl::WORD_LENGTH_8 | LineControl::FIFO_ENABLE`. -/
def wordLength8Fifo : BitVec 32 := 0b11#32 <<< 5 ||| 1#32 <<< 4

/-- `Control::UART_ENABLE | Control::TX_ENABLE | Control::RX_ENABLE`. -/
def controlEnable : BitVec 32 := 1#32 ||| 1#32 <<< 8 ||| 1#32 <<< 9

/-- The writes of `UartPl011::new`. -/
def configure (divisors : BaudDivisors) : List (Register × BitVec 32) :=
  [(.statusClear, 0#32), (.control, 0#32), (.intBaud, divisors.integer.setWidth 32),
    (.fracBaud, divisors.fractional.setWidth 32), (.lineControl, wordLength8Fifo),
    (.control, controlEnable)]

/-- `UartPl011::new`. -/
def new (registers : MmioRegion xlen) (divisors : BaudDivisors) (device : Device σ) :
    Program σ (UartPl011 xlen) := do
  writeAll registers device Register.offset (configure divisors)
  return ⟨registers⟩

end UartPl011

namespace UartSiFive

/-- `Control::ENABLE`. -/
def enable : BitVec 32 := 1#32

/-- `UartSiFive::new`. -/
def new (registers : MmioRegion xlen) (device : Device σ) : Program σ (UartSiFive xlen) := do
  writeWord registers device Register.interruptEnable.offset 0#32
  let receiveControl := (← readWord registers device Register.rxControl.offset) ||| enable
  writeWord registers device Register.rxControl.offset receiveControl
  let transmitControl := (← readWord registers device Register.txControl.offset) ||| enable
  writeWord registers device Register.txControl.offset transmitControl
  return ⟨registers⟩

end UartSiFive

namespace UartXScale

/-- `BaudSetup`. -/
inductive BaudSetup
  | preserve
  | program (divisor : BitVec 16)
  deriving DecidableEq, Repr

/-- `BaudSetup::from_clock_hz`. -/
def BaudSetup.fromClockHz (clockHz : BitVec 32) : Option BaudSetup := (uartDivisor clockHz).map program

/-- `LineControl::WORD_LENGTH_8`. -/
def wordLength8 : BitVec 32 := 0b11#32

/-- `LineControl::DIVISOR_LATCH_ACCESS`. -/
def divisorLatchAccess : BitVec 32 := 1#32 <<< 7

/-- `InterruptEnable::UART_UNIT_ENABLE`. -/
def uartUnitEnable : BitVec 32 := 1#32 <<< 6

/-- The flags of `FifoControl`: the FIFOs on, and both reset. -/
def fifoReset : BitVec 32 := 1#32 ||| 1#32 <<< 1 ||| 1#32 <<< 2

/-- The writes of `UartXScale::program_baud`. -/
def programBaud (divisor : BitVec 16) : List (Register × BitVec 32) :=
  [(.lineControl, divisorLatchAccess ||| wordLength8),
    (.dataOrDivisorLow, (divisor.extractLsb' 0 8).setWidth 32),
    (.interruptEnableOrDivisorHigh, (divisor.extractLsb' 8 8).setWidth 32),
    (.lineControl, wordLength8)]

/-- The writes of `UartXScale::configure`. -/
def configure (baud : BaudSetup) : List (Register × BitVec 32) :=
  [(.lineControl, wordLength8), (.interruptEnableOrDivisorHigh, uartUnitEnable)] ++
    (match baud with
      | .preserve => []
      | .program divisor => programBaud divisor) ++
    [(.fifoControlOrInterruptId, fifoReset), (.interruptEnableOrDivisorHigh, uartUnitEnable)]

/-- `UartXScale::new`. -/
def new (registers : MmioRegion xlen) (baud : BaudSetup) (device : Device σ) :
    Program σ (UartXScale xlen) := do
  writeAll registers device Register.offset (configure baud)
  return ⟨registers⟩

end UartXScale

/-! ## Binding -/

/-- `ConsoleInfo`. -/
structure ConsoleInfo (xlen : Xlen) where
  registers : DeviceRegisterRange xlen
  kind : ConsoleKind
  clockHz : Option (BitVec 32)

/-- `acquire_registers`. -/
def acquireRegisters (alignment : Nat) (registers : DeviceRegisterRange xlen) (span : Nat) :
    Binding xlen (MmioRegion xlen) := do
  let registers ← registers.subrange 0 span
  if registers.hasAlignedBounds alignment = false then throw .invalidArgs
  else acquire registers

/-- The divisors of `pl011::bind`. -/
def UartPl011.divisors (clockHz : Option (BitVec 32)) : Result BaudDivisors := do
  okOr (BaudDivisors.fromClockHz (← okOr clockHz .invalidArgs)) .invalidArgs

/-- The divisor of `xscale::bind`: without a clock the one of the previous boot stage. -/
def UartXScale.baudSetup (clockHz : Option (BitVec 32)) : Result UartXScale.BaudSetup :=
  match clockHz with
  | some clockHz => okOr (BaudSetup.fromClockHz clockHz) .invalidArgs
  | none => .ok .preserve

/-- `bind` of each driver: what it checks of the clock, its window, and the construction that it
ends with. -/
def ConsoleInfo.bind (console : ConsoleInfo xlen) (device : Device σ) :
    Binding xlen (Program σ (ConsoleDevice xlen)) :=
  match console.kind with
  | .uart16550U8 => do
    let registers ← acquireRegisters 1 console.registers Uart16550.u8Span
    return pure (.uart16550 ⟨.u8 registers⟩)
  | .uart16550U32 => do
    let registers ← acquireRegisters 4 console.registers Uart16550.u32Span
    return pure (.uart16550 ⟨.u32 registers⟩)
  | .axiLite => do
    let registers ← acquireRegisters 4 console.registers UartAxiLite.span
    return pure (.axiLite ⟨registers⟩)
  | .bl808 => do
    let registers ← acquireRegisters 4 console.registers UartBl808.span
    return pure (.bl808 ⟨registers⟩)
  | .siFive => do
    let registers ← acquireRegisters 4 console.registers UartSiFive.span
    return .siFive <$> UartSiFive.new registers device
  | .pl011 => do
    let divisors ← UartPl011.divisors console.clockHz
    let registers ← acquireRegisters 4 console.registers UartPl011.span
    return .pl011 <$> UartPl011.new registers divisors device
  | .xScale => do
    let baud ← UartXScale.baudSetup console.clockHz
    let registers ← acquireRegisters 4 console.registers UartXScale.span
    return .xScale <$> UartXScale.new registers baud device

/-! ## Configuration registers -/

/-- What the manual says of the registers that configure a UART: what a write makes of the
configuration, where it is allowed, and what a read answers. -/
structure RegisterMap (ρ κ : Type) where
  offset : ρ → Nat
  write : ρ → BitVec 32 → κ → Option κ
  read : ρ → κ → Option (BitVec 32)

/-- The device has a configuration that behaves so, and an access of it moves no byte. -/
structure Uart.Configures (uart : Uart σ) (map : RegisterMap ρ κ) (config : σ → κ) (base : Nat) :
    Prop where
  write : ∀ s register value next, map.write register value (config s) = some next →
    config (uart.device.writeVolatile (base + map.offset register) 4 value.toNat s) = next ∧
      uart.line.Still s (uart.device.writeVolatile (base + map.offset register) 4 value.toNat s)
  read : ∀ s register answer, map.read register (config s) = some answer → ∀ value s',
    uart.device.readVolatile (base + map.offset register) 4 s = (value, s') →
    BitVec.ofNat 32 value = answer ∧ config s' = config s ∧ uart.line.Still s s'

section Configures

variable {uart : Uart σ} {map : RegisterMap ρ κ} {config : σ → κ} {registers : MmioRegion xlen}
  {base span : Nat} (hwindow : Window registers base span 4) (hmap : uart.Configures map config base)

include hwindow hmap

end Configures

namespace UartPl011

/-- The configuration of a PL011. Rate and format may be written while it is off only, and a write
of the format puts the divisors into effect. -/
structure Config where
  control : BitVec 32
  intBaud : BitVec 32
  fracBaud : BitVec 32
  lineControl : BitVec 32
  divisors : BitVec 32 × BitVec 32

def map : RegisterMap Register Config where
  offset := Register.offset
  write register value config :=
    match register with
    | .statusClear => some config
    | .control => some { config with control := value }
    | .intBaud => if config.control &&& 1#32 = 0#32 then some { config with intBaud := value } else none
    | .fracBaud =>
      if config.control &&& 1#32 = 0#32 then some { config with fracBaud := value } else none
    | .lineControl =>
      if config.control &&& 1#32 = 0#32 then
        some { config with lineControl := value, divisors := (config.intBaud, config.fracBaud) }
      else none
    | .data | .flags => none
  read _ _ := none

/-- On in both directions, eight bits with FIFOs, at the given divisors. -/
def configured (divisors : BaudDivisors) : Config where
  control := controlEnable
  intBaud := divisors.integer.setWidth 32
  fracBaud := divisors.fractional.setWidth 32
  lineControl := wordLength8Fifo
  divisors := (divisors.integer.setWidth 32, divisors.fractional.setWidth 32)

end UartPl011

namespace UartSiFive

/-- The configuration of a SiFive UART. -/
structure Config where
  txControl : BitVec 32
  rxControl : BitVec 32
  interruptEnable : BitVec 32

def map : RegisterMap Register Config where
  offset := Register.offset
  write register value config :=
    match register with
    | .txControl => some { config with txControl := value }
    | .rxControl => some { config with rxControl := value }
    | .interruptEnable => some { config with interruptEnable := value }
    | .txData | .rxData => none
  read register config :=
    match register with
    | .txControl => some config.txControl
    | .rxControl => some config.rxControl
    | .interruptEnable => some config.interruptEnable
    | .txData | .rxData => none

/-- Both channels on without interrupts, their watermarks as they were. -/
def configured (config : Config) : Config where
  txControl := config.txControl ||| enable
  rxControl := config.rxControl ||| enable
  interruptEnable := 0#32

end UartSiFive

namespace UartXScale

/-- The configuration of an XScale UART. -/
structure Config where
  lineControl : BitVec 32
  interruptEnable : BitVec 32
  fifoControl : BitVec 32
  divisor : BitVec 32 × BitVec 32

/-- The data and interrupt registers are the divisor while the line control says so; a write of the
data register would send a byte otherwise. -/
def map : RegisterMap Register Config where
  offset := Register.offset
  write register value config :=
    let latch := containsFlag config.lineControl divisorLatchAccess
    match register with
    | .dataOrDivisorLow =>
      if latch then some { config with divisor := (value, config.divisor.2) } else none
    | .interruptEnableOrDivisorHigh =>
      if latch then some { config with divisor := (config.divisor.1, value) }
      else some { config with interruptEnable := value }
    | .fifoControlOrInterruptId => some { config with fifoControl := value }
    | .lineControl => some { config with lineControl := value }
    | .lineStatus => none
  read _ _ := none

/-- The UART on, eight bits, its FIFOs reset, and the divisor that was asked for. -/
def configured (baud : BaudSetup) (config : Config) : Config where
  lineControl := wordLength8
  interruptEnable := uartUnitEnable
  fifoControl := fifoReset
  divisor :=
    match baud with
    | .preserve => config.divisor
    | .program divisor =>
      ((divisor.extractLsb' 0 8).setWidth 32, (divisor.extractLsb' 8 8).setWidth 32)

end UartXScale

section New

variable {uart : Uart σ} {registers : MmioRegion xlen} {base : Nat}

end New

/-! ## The bound console -/

/-- What the guest gets of the debug console. A write of accepted memory succeeds and a read of it
fails on a PL011 only, which loses bytes then; and calls on what is left move the buffer in order. -/
structure Serves (kind : ConsoleKind) (uart : Uart σ) {inv : σ → Prop}
    (backend : DbcnBackend {s : σ // inv s}) (supervisor : SupervisorMemory xlen) : Prop where
  write : ∀ buffer m, Console.Valid supervisor buffer →
    ∃ count m', Console.write supervisor backend buffer m = (.success count, m')
  sent : ∀ buffer m counts buffer' m',
    Console.Reissued (Console.write supervisor backend) buffer m counts buffer' m' →
    m'.ram = m.ram ∧ counts.sum + buffer'.numBytes.toNat = buffer.numBytes.toNat ∧
      uart.line.sent m'.device.1 =
        uart.line.sent m.device.1 ++ (Console.bytes m.ram buffer).take counts.sum
  read : ∀ buffer m ret m', Console.Valid supervisor buffer →
    Console.read supervisor backend buffer m = (ret, m') → (∃ count, ret = .success count) ∨
      kind = .pl011 ∧ ret = .failed ∧ m'.ram = m.ram ∧
        ∃ lost ≠ [], uart.line.taken m'.device.1 = uart.line.taken m.device.1 ++ lost
  taken : ∀ buffer m counts buffer' m',
    Console.Reissued (Console.read supervisor backend) buffer m counts buffer' m' →
    counts.sum + buffer'.numBytes.toNat = buffer.numBytes.toNat ∧
      ∃ values, values.length = counts.sum ∧
        uart.line.taken m'.device.1 = uart.line.taken m.device.1 ++ values ∧
        m'.ram = Store.store m.ram buffer.physAddrLo.toNat values

section Served

variable {uart : Uart σ} {inv : σ → Prop} {base : Nat} {device : ConsoleDevice xlen}
  {backend : DbcnBackend {s : σ // inv s}} {supervisor : SupervisorMemory xlen}
  {buffer : Ecall.Physical xlen} {m m' : Console.Machine {s : σ // inv s}} {ret : SbiRet}

theorem Faithful.write_succeeds (h : Faithful device uart backend)
    (hvalid : Console.Valid supervisor buffer) :
    ∃ count m', Console.write supervisor backend buffer m = (.success count, m') := by
  by_cases hlen : buffer.numBytes.toNat = 0
  · refine ⟨0, m, ?_⟩
    rw [Console.write, Console.validateBuffer_of_valid hvalid]
    simp only [if_pos hlen]
  · obtain ⟨count, hcount, hanswer⟩ := h.write m.device
      (Store.load m.ram buffer.physAddrLo.toNat
        (min buffer.numBytes.toNat Console.maxTransferBytes))
    rw [Store.length_load] at hcount
    obtain ⟨after, hrun⟩ : ∃ after, backend.writeSlice m.device
        (Store.load m.ram buffer.physAddrLo.toNat
          (min buffer.numBytes.toNat Console.maxTransferBytes)) = (.ok count, after) :=
      ⟨_, Prod.ext hanswer rfl⟩
    refine ⟨count, { m with device := after }, ?_⟩
    rw [Console.write_of_valid hvalid hlen]
    simp only [hrun, gt_iff_lt, if_neg (not_lt.mpr hcount)]

theorem Faithful.read_answers (h : Faithful device uart backend)
    (hvalid : Console.Valid supervisor buffer)
    (hcall : Console.read supervisor backend buffer m = (ret, m')) :
    (∃ count, ret = .success count) ∨ device.kind = .pl011 ∧ ret = .failed ∧ m'.ram = m.ram ∧
      ∃ lost ≠ [], uart.line.taken m'.device.1 = uart.line.taken m.device.1 ++ lost := by
  by_cases hlen : buffer.numBytes.toNat = 0
  · rw [Console.read, Console.validateBuffer_of_valid hvalid] at hcall
    simp only [if_pos hlen, Prod.mk.injEq] at hcall
    exact .inl ⟨0, hcall.1.symm⟩
  · rw [Console.read_of_valid hvalid hlen] at hcall
    have hread := h.read m.device
      (Vector.replicate (min buffer.numBytes.toNat Console.maxTransferBytes) 0#8)
    have hlost := h.lost m.device
      (Vector.replicate (min buffer.numBytes.toNat Console.maxTransferBytes) 0#8)
    dsimp only at hcall
    split at hcall
    next e dst after hrun =>
      obtain ⟨hkind, rfl, lost, hne, htaken⟩ := hlost e (congrArg Prod.fst hrun)
      obtain ⟨rfl, rfl⟩ := Prod.mk.inj hcall
      rw [hrun] at htaken
      exact .inr ⟨hkind, rfl, rfl, lost, hne, htaken⟩
    next count dst after hrun =>
      have hcount := hread count (congrArg Prod.fst hrun)
      rw [if_neg (not_lt.mpr hcount)] at hcall
      exact .inl ⟨count, (Prod.mk.inj hcall).1.symm⟩

theorem Faithful.serves (h : Faithful device uart backend) (supervisor : SupervisorMemory xlen) :
    Serves device.kind uart backend supervisor := by
  refine ⟨fun buffer m hvalid => h.write_succeeds hvalid, ?_,
    fun buffer m ret m' hvalid hcall => h.read_answers hvalid hcall, ?_⟩
  · intro buffer m counts buffer' m' hrun
    obtain ⟨hram, hsum, hleft, hsent⟩ := Console.write_reissued h.exact hrun
    exact ⟨hram, by omega, hsent⟩
  · intro buffer m counts buffer' m' hrun
    obtain ⟨hsum, hleft, hvalues⟩ := Console.read_reissued h.exact hrun
    exact ⟨by omega, hvalues⟩

end Served

section Bound

variable {uart : Uart σ} {inv : σ → Prop} {base : Nat}

end Bound

/-- The divisors fit their registers and are nearest to what the clock of the board asks for. -/
def BaudDivisors.Suits (clockHz : Option (BitVec 32)) (divisors : BaudDivisors) : Prop :=
  ∃ clock, clockHz = some clock ∧ divisors.fractional.toNat < 64 ∧
    Nearest (64 * divisors.integer.toNat + divisors.fractional.toNat) (64 * clock.toNat) baudClock

/-- The divisor is nearest to what the clock of the board asks for; a board without one keeps the
divisor that is there. -/
def UartXScale.BaudSetup.Suits (clockHz : Option (BitVec 32)) : BaudSetup → Prop
  | preserve => clockHz = none
  | program divisor => ∃ clock, clockHz = some clock ∧ Nearest divisor.toNat clock.toNat baudClock

section New

variable {console : ConsoleInfo xlen} {uart : Uart σ} {region : MmioRegion xlen}

end New

section

variable (base : Nat)

end

end RustSbi.Driver
