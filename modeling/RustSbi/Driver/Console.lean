import RustSbi.Driver.SplitTimer
import RustSbi.Lib.Serial
import RustSbi.Sbi.Console

/-!
The UART drivers behind the debug console (`driver/console`). Each polls the status of its device
before it moves a byte, so that it moves exactly the bytes that it reports, on any UART that does
what its manual says and whatever the other end of the line does meanwhile.
-/

namespace RustSbi.Driver

open Checked Memory Serial
open Console (DbcnError DbcnBackend)

variable {xlen : Xlen} {σ : Type}

/-- `contains` of a set of flags. -/
def containsFlag {w : Nat} (bits flag : BitVec w) : Bool := bits &&& flag == flag

/-! ## Polled drivers -/

/-- The registers that move bytes, and what the driver reads off the status of its device. -/
structure Port (xlen : Xlen) where
  status : Nat
  statusWidth : MmioValue xlen
  rx : Nat
  tx : Nat
  dataWidth : MmioValue xlen
  dataReady : Nat → Bool
  txFull : Nat → Bool

namespace Port

variable (port : Port xlen) (registers : MmioRegion xlen) (device : Device σ)

/-- The status says that a byte waits. -/
def pollRx : Program σ Bool := do
  return port.dataReady (← readRegister registers device port.statusWidth port.status)

/-- The status says that there is room. -/
def pollTx : Program σ Bool := do
  return !port.txFull (← readRegister registers device port.statusWidth port.status)

/-- `read_reg(..) as u8` of the data register. -/
def receive : Program σ (BitVec 8) := do
  return BitVec.ofNat 8 (← readRegister registers device port.dataWidth port.rx)

/-- `write_reg` of the data register. -/
def transmit (byte : BitVec 8) : Program σ PUnit :=
  writeRegister registers device port.dataWidth port.tx byte.toNat

/-- The body of the loop of `read_slice`. -/
def readByte : Program σ (Except DbcnError (Option (BitVec 8))) := do
  if ← port.pollRx registers device then return .ok (some (← port.receive registers device))
  else return .ok none

/-- `read_slice`, which checks the status before every byte. -/
def readSlice (buf : List (BitVec 8)) : Program σ (Except DbcnError Nat × List (BitVec 8)) :=
  fill (port.readByte registers device) buf

/-- `write_slice`, which checks the status before every byte. -/
def writeSlice (buf : List (BitVec 8)) : Program σ (Except DbcnError Nat) := do
  return .ok (← drain (port.pollTx registers device) (port.transmit registers device) buf)

end Port

/-! ## Drivers -/

/-- `UartAxiLite`. -/
structure UartAxiLite (xlen : Xlen) where
  registers : MmioRegion xlen

namespace UartAxiLite

/-- `Register`. -/
inductive Register
  | rx
  | tx
  | status
  deriving DecidableEq, Repr

/-- `Register::offset`. -/
def Register.offset : Register → Nat
  | rx => 0x00
  | tx => 0x04
  | status => 0x08

/-- `SPAN`. -/
def span : Nat := Register.status.offset + 4

/-- `Status::RX_VALID`. -/
def rxValid : BitVec 32 := 1#32

/-- `Status::TX_FULL`. -/
def txFull : BitVec 32 := 1#32 <<< 3

def port (xlen : Xlen) : Port xlen where
  status := Register.status.offset
  statusWidth := .u32
  rx := Register.rx.offset
  tx := Register.tx.offset
  dataWidth := .u32
  dataReady status := containsFlag (BitVec.ofNat 32 status) rxValid
  txFull status := containsFlag (BitVec.ofNat 32 status) txFull

def readSlice (uart : UartAxiLite xlen) (device : Device σ) :=
  (port xlen).readSlice uart.registers device

def writeSlice (uart : UartAxiLite xlen) (device : Device σ) :=
  (port xlen).writeSlice uart.registers device

end UartAxiLite

/-- `RegisterAccess`: byte- or word-spaced registers. -/
inductive RegisterAccess (xlen : Xlen)
  | u8 (registers : MmioRegion xlen)
  | u32 (registers : MmioRegion xlen)

/-- `Uart16550`. -/
structure Uart16550 (xlen : Xlen) where
  registers : RegisterAccess xlen

namespace Uart16550

/-- `Register`. -/
inductive Register
  | data
  | lineStatus
  deriving DecidableEq, Repr

/-- `Register::index`. -/
def Register.index : Register → Nat
  | data => 0
  | lineStatus => 5

/-- `U8_SPAN`. -/
def u8Span : Nat := Register.lineStatus.index + 1

/-- `U32_SPAN`. -/
def u32Span : Nat := (Register.lineStatus.index + 1) * 4

/-- `LineStatus::DATA_READY`. -/
def dataReady : BitVec 8 := 1#8

/-- `LineStatus::TX_HOLDING_REGISTER_EMPTY`. -/
def txHoldingRegisterEmpty : BitVec 8 := 1#8 <<< 5

/-- The registers at a spacing of `scale` bytes, one access wide. -/
def port (width : MmioValue xlen) (scale : Nat) : Port xlen where
  status := Register.lineStatus.index * scale
  statusWidth := width
  rx := Register.data.index * scale
  tx := Register.data.index * scale
  dataWidth := width
  dataReady status := containsFlag (BitVec.ofNat 8 status) dataReady
  txFull status := !containsFlag (BitVec.ofNat 8 status) txHoldingRegisterEmpty

def readSlice (uart : Uart16550 xlen) (device : Device σ) :=
  match uart.registers with
  | .u8 registers => (port .u8 1).readSlice registers device
  | .u32 registers => (port .u32 4).readSlice registers device

def writeSlice (uart : Uart16550 xlen) (device : Device σ) :=
  match uart.registers with
  | .u8 registers => (port .u8 1).writeSlice registers device
  | .u32 registers => (port .u32 4).writeSlice registers device

end Uart16550

/-- `UartXScale`. -/
structure UartXScale (xlen : Xlen) where
  registers : MmioRegion xlen

namespace UartXScale

/-- `Register`. -/
inductive Register
  | dataOrDivisorLow
  | interruptEnableOrDivisorHigh
  | fifoControlOrInterruptId
  | lineControl
  | lineStatus
  deriving DecidableEq, Repr

/-- `Register::offset`. -/
def Register.offset : Register → Nat
  | dataOrDivisorLow => 0x00
  | interruptEnableOrDivisorHigh => 0x04
  | fifoControlOrInterruptId => 0x08
  | lineControl => 0x0c
  | lineStatus => 0x14

/-- `SPAN`. -/
def span : Nat := Register.lineStatus.offset + 4

/-- `LineStatus::DATA_READY`. -/
def dataReady : BitVec 32 := 1#32

/-- `LineStatus::TX_HOLDING_REGISTER_EMPTY`. -/
def txHoldingRegisterEmpty : BitVec 32 := 1#32 <<< 5

def port (xlen : Xlen) : Port xlen where
  status := Register.lineStatus.offset
  statusWidth := .u32
  rx := Register.dataOrDivisorLow.offset
  tx := Register.dataOrDivisorLow.offset
  dataWidth := .u32
  dataReady status := containsFlag (BitVec.ofNat 32 status) dataReady
  txFull status := !containsFlag (BitVec.ofNat 32 status) txHoldingRegisterEmpty

def readSlice (uart : UartXScale xlen) (device : Device σ) :=
  (port xlen).readSlice uart.registers device

def writeSlice (uart : UartXScale xlen) (device : Device σ) :=
  (port xlen).writeSlice uart.registers device

end UartXScale

/-- `UartBl808`. -/
structure UartBl808 (xlen : Xlen) where
  registers : MmioRegion xlen

namespace UartBl808

/-- `Register`. -/
inductive Register
  | fifoConfig1
  | txData
  | rxData
  deriving DecidableEq, Repr

/-- `Register::offset`. -/
def Register.offset : Register → Nat
  | fifoConfig1 => 0x84
  | txData => 0x88
  | rxData => 0x8c

/-- `SPAN`. -/
def span : Nat := Register.rxData.offset + 4

/-- `FifoCounts::tx_available_count`. -/
def txAvailableCount (counts : BitVec 32) : Nat := (counts &&& 0x3f#32).toNat

/-- `FifoCounts::rx_available_count`. -/
def rxAvailableCount (counts : BitVec 32) : Nat := (counts >>> 8 &&& 0x3f#32).toNat

def port (xlen : Xlen) : Port xlen where
  status := Register.fifoConfig1.offset
  statusWidth := .u32
  rx := Register.rxData.offset
  tx := Register.txData.offset
  dataWidth := .u8
  dataReady status := rxAvailableCount (BitVec.ofNat 32 status) != 0
  txFull status := txAvailableCount (BitVec.ofNat 32 status) == 0

/-- `read_slice`, which takes as many bytes as one reading of the status counts. -/
def readSlice (uart : UartBl808 xlen) (device : Device σ) (buf : List (BitVec 8)) :
    Program σ (Except DbcnError Nat × List (BitVec 8)) := do
  let counts ← readWord uart.registers device Register.fifoConfig1.offset
  let availableCount := rxAvailableCount counts
  if availableCount = 0 then return (.ok 0, buf)
  else
    let len := min availableCount buf.length
    return (.ok len, ← fillFirst ((port xlen).receive uart.registers device) len buf)

def writeSlice (uart : UartBl808 xlen) (device : Device σ) :=
  (port xlen).writeSlice uart.registers device

end UartBl808

/-- `UartSiFive`. -/
structure UartSiFive (xlen : Xlen) where
  registers : MmioRegion xlen

namespace UartSiFive

/-- `Register`. -/
inductive Register
  | txData
  | rxData
  | txControl
  | rxControl
  | interruptEnable
  deriving DecidableEq, Repr

/-- `Register::offset`. -/
def Register.offset : Register → Nat
  | txData => 0x00
  | rxData => 0x04
  | txControl => 0x08
  | rxControl => 0x0c
  | interruptEnable => 0x10

/-- `SPAN`. -/
def span : Nat := Register.interruptEnable.offset + 4

/-- `FifoData::UNAVAILABLE`. -/
def unavailable : BitVec 32 := 1#32 <<< 31

/-- `FifoData::is_unavailable`. -/
def isUnavailable (data : BitVec 32) : Bool := data &&& unavailable != 0#32

/-- `FifoData::received_byte`. -/
def receivedByte (data : BitVec 32) : Option (BitVec 8) :=
  if isUnavailable data then none else some (data.setWidth 8)

/-- A transmit data register that says itself whether it is full. -/
def port (xlen : Xlen) : Port xlen where
  status := Register.txData.offset
  statusWidth := .u32
  rx := Register.rxData.offset
  tx := Register.txData.offset
  dataWidth := .u32
  dataReady _ := false
  txFull data := isUnavailable (BitVec.ofNat 32 data)

/-- `UartSiFive::read_byte`. -/
def readByte (uart : UartSiFive xlen) (device : Device σ) :
    Program σ (Except DbcnError (Option (BitVec 8))) := do
  return .ok (receivedByte (← readWord uart.registers device Register.rxData.offset))

def readSlice (uart : UartSiFive xlen) (device : Device σ) (buf : List (BitVec 8)) :=
  fill (uart.readByte device) buf

def writeSlice (uart : UartSiFive xlen) (device : Device σ) :=
  (port xlen).writeSlice uart.registers device

end UartSiFive

/-- `UartPl011`. -/
structure UartPl011 (xlen : Xlen) where
  registers : MmioRegion xlen

namespace UartPl011

/-- `Register`. -/
inductive Register
  | data
  | statusClear
  | flags
  | intBaud
  | fracBaud
  | lineControl
  | control
  deriving DecidableEq, Repr

/-- `Register::offset`. -/
def Register.offset : Register → Nat
  | data => 0x00
  | statusClear => 0x04
  | flags => 0x18
  | intBaud => 0x24
  | fracBaud => 0x28
  | lineControl => 0x2c
  | control => 0x30

/-- `SPAN`. -/
def span : Nat := Register.control.offset + 4

/-- `Flags::RX_FIFO_EMPTY`. -/
def rxFifoEmpty : BitVec 32 := 1#32 <<< 4

/-- `Flags::TX_FIFO_FULL`. -/
def txFifoFull : BitVec 32 := 1#32 <<< 5

/-- The bits of `DataStatus`: framing, parity, break and overrun errors. -/
def dataStatus : BitVec 32 := 0xf#32 <<< 8

def port (xlen : Xlen) : Port xlen where
  status := Register.flags.offset
  statusWidth := .u32
  rx := Register.data.offset
  tx := Register.data.offset
  dataWidth := .u32
  dataReady flags := !containsFlag (BitVec.ofNat 32 flags) rxFifoEmpty
  txFull flags := containsFlag (BitVec.ofNat 32 flags) txFifoFull

/-- `UartPl011::read_byte`, which fails for a byte that has come with an error. -/
def readByte (uart : UartPl011 xlen) (device : Device σ) :
    Program σ (Except DbcnError (Option (BitVec 8))) := do
  if ← (port xlen).pollRx uart.registers device then
    let dataRegister ← readWord uart.registers device Register.data.offset
    let errors := dataRegister &&& dataStatus
    if errors ≠ 0#32 then return .error .failed else return .ok (some (dataRegister.setWidth 8))
  else return .ok none

def readSlice (uart : UartPl011 xlen) (device : Device σ) (buf : List (BitVec 8)) :=
  fill (uart.readByte device) buf

def writeSlice (uart : UartPl011 xlen) (device : Device σ) :=
  (port xlen).writeSlice uart.registers device

end UartPl011

/-- The console that the board has, behind `Box<dyn DbcnBackend + Send>`. -/
inductive ConsoleDevice (xlen : Xlen)
  | uart16550 (uart : Uart16550 xlen)
  | axiLite (uart : UartAxiLite xlen)
  | bl808 (uart : UartBl808 xlen)
  | siFive (uart : UartSiFive xlen)
  | pl011 (uart : UartPl011 xlen)
  | xScale (uart : UartXScale xlen)

namespace ConsoleDevice

/-- `DbcnBackend::read_slice`, with the buffer as it is afterwards. -/
def readSlice (device : Device σ) :
    ConsoleDevice xlen → List (BitVec 8) → Program σ (Except DbcnError Nat × List (BitVec 8))
  | uart16550 uart => uart.readSlice device
  | axiLite uart => uart.readSlice device
  | bl808 uart => uart.readSlice device
  | siFive uart => uart.readSlice device
  | pl011 uart => uart.readSlice device
  | xScale uart => uart.readSlice device

/-- `DbcnBackend::write_slice`. -/
def writeSlice (device : Device σ) :
    ConsoleDevice xlen → List (BitVec 8) → Program σ (Except DbcnError Nat)
  | uart16550 uart => uart.writeSlice device
  | axiLite uart => uart.writeSlice device
  | bl808 uart => uart.writeSlice device
  | siFive uart => uart.writeSlice device
  | pl011 uart => uart.writeSlice device
  | xScale uart => uart.writeSlice device

end ConsoleDevice

/-! ## Kinds -/

/-- `ConsoleKind`. -/
inductive ConsoleKind
  | uart16550U8
  | uart16550U32
  | axiLite
  | bl808
  | siFive
  | pl011
  | xScale
  deriving DecidableEq, Repr

namespace ConsoleKind

/-- The registers of each kind. -/
def port (xlen : Xlen) : ConsoleKind → Port xlen
  | uart16550U8 => Uart16550.port .u8 1
  | uart16550U32 => Uart16550.port .u32 4
  | axiLite => UartAxiLite.port xlen
  | bl808 => UartBl808.port xlen
  | siFive => UartSiFive.port xlen
  | pl011 => UartPl011.port xlen
  | xScale => UartXScale.port xlen

/-- The span of the window of each kind. -/
def span : ConsoleKind → Nat
  | uart16550U8 => Uart16550.u8Span
  | uart16550U32 => Uart16550.u32Span
  | axiLite => UartAxiLite.span
  | bl808 => UartBl808.span
  | siFive => UartSiFive.span
  | pl011 => UartPl011.span
  | xScale => UartXScale.span

/-- The alignment of the window of each kind. -/
def alignment : ConsoleKind → Nat
  | uart16550U8 => 1
  | _ => 4

/-- Only a PL011 reports an error for a byte. -/
def Fails (kind : ConsoleKind) (e : DbcnError) : Prop := kind = pl011 ∧ e = .failed

end ConsoleKind

namespace ConsoleDevice

def kind : ConsoleDevice xlen → ConsoleKind
  | uart16550 ⟨.u8 _⟩ => .uart16550U8
  | uart16550 ⟨.u32 _⟩ => .uart16550U32
  | axiLite _ => .axiLite
  | bl808 _ => .bl808
  | siFive _ => .siFive
  | pl011 _ => .pl011
  | xScale _ => .xScale

def registers : ConsoleDevice xlen → MmioRegion xlen
  | uart16550 ⟨.u8 registers⟩ => registers
  | uart16550 ⟨.u32 registers⟩ => registers
  | axiLite uart => uart.registers
  | bl808 uart => uart.registers
  | siFive uart => uart.registers
  | pl011 uart => uart.registers
  | xScale uart => uart.registers

end ConsoleDevice

/-! ## Windows -/

/-- A window of so many bytes, as aligned as the driver has asked for. -/
structure Window (registers : MmioRegion xlen) (base span alignment : Nat) : Prop where
  start : registers.range.start = base
  stop : registers.range.stop = base + span
  aligned : alignment ∣ base

/-- An access at an offset of every such window. -/
def InWindow (t : MmioValue xlen) (offset span alignment : Nat) : Prop :=
  offset + t.size ≤ span ∧ t.size ∣ offset ∧ t.size ∣ alignment

instance (t : MmioValue xlen) (offset span alignment : Nat) :
    Decidable (InWindow t offset span alignment) := inferInstanceAs (Decidable (_ ∧ _ ∧ _))

section

variable {registers : MmioRegion xlen} {base span alignment offset : Nat} {t : MmioValue xlen}

theorem Window.checkedAddress (h : Window registers base span alignment)
    (haccess : InWindow t offset span alignment) :
    registers.checkedAddress t offset = .ok (base + offset) := by
  obtain ⟨hinside, hoffset, hwidth⟩ := haccess
  rw [← h.start]
  refine checkedAddress_eq ?_ (Nat.mod_eq_zero_of_dvd ?_)
  · rw [h.start, h.stop]
    omega
  · rw [h.start]
    exact (hwidth.trans h.aligned).add hoffset

theorem Window.readRegister (h : Window registers base span alignment)
    (haccess : InWindow t offset span alignment) (device : Device σ) (s : σ) :
    readRegister registers device t offset s = .ok (device.readVolatile (base + offset) t.size s) := by
  simp only [Driver.readRegister, MmioRegion.read, h.checkedAddress haccess]

theorem Window.writeRegister (h : Window registers base span alignment)
    (haccess : InWindow t offset span alignment) (device : Device σ) (value : Nat) (s : σ) :
    writeRegister registers device t offset value s =
      .ok (⟨⟩, device.writeVolatile (base + offset) t.size value s) := by
  simp only [Driver.writeRegister, MmioRegion.write, h.checkedAddress haccess]

end

/-- The registers of a port are in every window of a kind. -/
structure Port.Inside (port : Port xlen) (span alignment : Nat) : Prop where
  status : InWindow port.statusWidth port.status span alignment
  rx : InWindow port.dataWidth port.rx span alignment
  tx : InWindow port.dataWidth port.tx span alignment

theorem ConsoleKind.inside (kind : ConsoleKind) :
    (kind.port xlen).Inside kind.span kind.alignment := by
  cases xlen <;> cases kind <;> exact ⟨by decide, by decide, by decide⟩

/-! ## UARTs -/

/-- A UART: its registers, what has gone over its line, the bytes that wait to be read and the
free places for bytes to be sent. -/
structure Uart (σ : Type) where
  device : Device σ
  line : Line σ (BitVec 8)
  waiting : σ → List (BitVec 8)
  room : σ → Nat

/-- What the manuals say of the registers that move bytes, in the states of an invariant. -/
structure Uart.Behaves (uart : Uart σ) (inv : σ → Prop) (port : Port xlen) (base : Nat) : Prop where
  status : ∀ s, inv s → ∀ value s',
    uart.device.readVolatile (base + port.status) port.statusWidth.size s = (value, s') →
    inv s' ∧ uart.line.Still s s' ∧ (port.dataReady value = true → uart.waiting s' ≠ []) ∧
      (port.txFull value = false → 0 < uart.room s')
  receive : ∀ s, inv s → ∀ byte rest, uart.waiting s = byte :: rest → ∀ value s',
    uart.device.readVolatile (base + port.rx) port.dataWidth.size s = (value, s') →
    BitVec.ofNat 8 value = byte ∧ inv s' ∧ uart.line.Takes [byte] s s' ∧ rest <+: uart.waiting s'
  transmit : ∀ s, inv s → 0 < uart.room s → ∀ byte : BitVec 8,
    inv (uart.device.writeVolatile (base + port.tx) port.dataWidth.size byte.toNat s) ∧
      uart.line.Sends [byte] s
        (uart.device.writeVolatile (base + port.tx) port.dataWidth.size byte.toNat s)

/-- The count of a BL808 is of bytes that wait. -/
def Uart.Counts (uart : Uart σ) (inv : σ → Prop) (base : Nat) : Prop :=
  ∀ s, inv s → ∀ value s',
    uart.device.readVolatile (base + UartBl808.Register.fifoConfig1.offset) 4 s = (value, s') →
    UartBl808.rxAvailableCount (BitVec.ofNat 32 value) ≤ (uart.waiting s').length

/-- The receive register of a SiFive UART says itself whether a byte has waited. -/
structure Uart.Flags (uart : Uart σ) (inv : σ → Prop) (base : Nat) : Prop where
  empty : ∀ s, inv s → uart.waiting s = [] → ∀ value s',
    uart.device.readVolatile (base + UartSiFive.Register.rxData.offset) 4 s = (value, s') →
    UartSiFive.isUnavailable (BitVec.ofNat 32 value) = true ∧ inv s' ∧ uart.line.Still s s'
  waiting : ∀ s, inv s → uart.waiting s ≠ [] → ∀ value s',
    uart.device.readVolatile (base + UartSiFive.Register.rxData.offset) 4 s = (value, s') →
    UartSiFive.isUnavailable (BitVec.ofNat 32 value) = false

/-- What the manual of each kind says. -/
structure ConsoleKind.Documented (kind : ConsoleKind) (xlen : Xlen) (uart : Uart σ) (inv : σ → Prop)
    (base : Nat) : Prop where
  behaves : uart.Behaves inv (kind.port xlen) base
  counts : kind = bl808 → uart.Counts inv base
  flags : kind = siFive → uart.Flags inv base

/-! ## Bytes -/

section Bytes

variable {uart : Uart σ} {inv : σ → Prop} {port : Port xlen} {registers : MmioRegion xlen}
  {base span alignment : Nat} (hwindow : Window registers base span alignment)
  (hinside : port.Inside span alignment) (hbehaves : uart.Behaves inv port base)

include hwindow hinside hbehaves

end Bytes

section Kinds

variable {uart : Uart σ} {inv : σ → Prop} {base : Nat} {fails : DbcnError → Prop}

end Kinds

/-! ## Console devices -/

namespace ConsoleDevice

variable {uart : Uart σ} {inv : σ → Prop} {base : Nat} (console : ConsoleDevice xlen)
  (hwindow : Window console.registers base console.kind.span console.kind.alignment)
  (hdocumented : console.kind.Documented xlen uart inv base)

include hwindow hdocumented

end ConsoleDevice

section Backends

variable {uart : Uart σ} {inv : σ → Prop} {base : Nat} {console : ConsoleDevice xlen}
  {backend : DbcnBackend {s : σ // inv s}}

/-- The backend of a driver moves what it reports: every write succeeds, and only a PL011 fails a
read, which then loses the bytes it has taken. -/
structure Faithful (console : ConsoleDevice xlen) (uart : Uart σ)
    (backend : DbcnBackend {s : σ // inv s}) : Prop where
  exact : backend.Exact (fun s => uart.line.sent s.1) fun s => uart.line.taken s.1
  write : ∀ s src, ∃ count ≤ src.length, (backend.writeSlice s src).1 = .ok count
  read : ∀ {len : Nat} s (dst : Vector (BitVec 8) len) count,
    (backend.readSlice s dst).1 = .ok count → count ≤ len
  lost : ∀ {len : Nat} s (dst : Vector (BitVec 8) len) e, (backend.readSlice s dst).1 = .error e →
    console.kind = .pl011 ∧ e = .failed ∧
      ∃ lost ≠ [], uart.line.taken (backend.readSlice s dst).2.2.1 = uart.line.taken s.1 ++ lost

end Backends

end RustSbi.Driver
