import RustSbi.Target
import RustSbi.Lib.Bits
import RustSbi.Lib.Checked

/-!
The SBI performance monitoring extension (`sbi/pmu.rs`): hardware, fixed and
firmware counters in one index space, the device-tree event maps, and every
call a supervisor can make. The registers of the calling hart that the
extension drives are part of the state.
-/

namespace RustSbi.Pmu

open Bits Checked

variable {xlen : Xlen}

/-- `PMU_HARDWARE_COUNTER_MAX`. -/
def hardwareCounterMax : Nat := 32

/-- `PMU_FIRMWARE_COUNTER_MAX`. -/
def firmwareCounterMax : Nat := 16

/-- `PMU_EVENT_IDX_INVALID`. -/
def eventIdxInvalid (xlen : Xlen) : Nat := xlen.usizeMax

/-! ## Event indices -/

/-- `EventIdx`: the event code in bits 15..0 and the event type in bits 19..16
of a `usize`. -/
structure EventIdx where
  inner : Nat
  deriving DecidableEq, Repr

namespace EventIdx

/-- `EventIdx::from_firmware_event`. -/
def fromFirmwareEvent (firmwareEvent : Nat) : EventIdx := ⟨0xf <<< 16 ||| firmwareEvent⟩

/-- `EventIdx::event_type`. -/
def eventType (event : EventIdx) : Nat := (event.inner >>> 16) &&& 0xF

/-- `EventIdx::event_code`. -/
def eventCode (event : EventIdx) : Nat := event.inner &&& 0xFFFF

/-- `EventIdx::cache_id`. -/
def cacheId (event : EventIdx) : Nat := (event.inner >>> 3) &&& 0x1FFF

/-- `EventIdx::cache_op_id`. -/
def cacheOpId (event : EventIdx) : Nat := (event.inner >>> 1) &&& 0x3

/-- `EventIdx::cache_result_id`. -/
def cacheResultId (event : EventIdx) : Nat := event.inner &&& 0x1

/-- `EventIdx::is_raw_event`: `HARDWARE_RAW` or `HARDWARE_RAW_V2`. -/
def isRawEvent (event : EventIdx) : Bool := event.eventType == 2 || event.eventType == 3

/-- `EventIdx::is_firmware_event`. -/
def isFirmwareEvent (event : EventIdx) : Bool := event.eventType == 15

/-- `EventIdx::check_event_type`, with `REF_CPU_CYCLES`, `cache_event::NODE`,
`cache_operation::PREFETCH` and `cache_result::MISS` as the last code of each
field. -/
def checkEventType (event : EventIdx) : Bool :=
  match event.eventType with
  | 0 => decide (event.eventCode ≤ 10)
  | 1 => decide (event.cacheId ≤ 6) && decide (event.cacheOpId ≤ 2) &&
      decide (event.cacheResultId ≤ 1)
  | 2 | 3 => event.eventCode == 0
  | 15 => true
  | _ => false

/-- `EventIdx::firmware_event_valid`, with `HFENCE_VVMA_ASID_RECEIVED` as the
last standard code and `PLATFORM` as the largest one. -/
def firmwareEventValid (event : EventIdx) : Bool :=
  if event.eventType ≠ 15 then false
  else if (event.eventCode > 21 ∧ event.eventCode < 65535) ∨ event.eventCode ≥ 65535 then false
  else true

end EventIdx

/-! ## Device-tree event maps -/

/-- `EventToCounterMap`: the counters that can count a range of events. -/
structure EventToCounterMap where
  countersMask : BitVec 32
  eventStartIdx : Nat
  eventEndIdx : Nat
  deriving DecidableEq, Repr

/-- `EventToCounterMap::have_event`. -/
def EventToCounterMap.haveEvent (row : EventToCounterMap) (eventIdx : Nat) : Bool :=
  decide (row.eventStartIdx ≤ eventIdx) && decide (eventIdx ≤ row.eventEndIdx)

/-- `RawEventToCounterMap`: the counters that can count the raw events which
select the same value under a mask. -/
structure RawEventToCounterMap where
  countersMask : BitVec 32
  rawEventSelect : BitVec 64
  selectMask : BitVec 64
  deriving DecidableEq, Repr

/-- `RawEventToCounterMap::have_event`. -/
def RawEventToCounterMap.haveEvent (row : RawEventToCounterMap) (eventIdx : BitVec 64) : Bool :=
  row.rawEventSelect == (eventIdx &&& row.selectMask)

/-- `SbiPmu`: the maps read from the device tree, each absent when its
property is. -/
structure SbiPmu where
  eventToMhpmevent : Option (List (Nat × BitVec 64))
  eventToMhpmcounter : Option (List EventToCounterMap)
  rawEventToMhpmcounter : Option (List RawEventToCounterMap)
  deriving DecidableEq, Repr

/-! ## State -/

/-- `PrivilegedVersion`. -/
inductive PrivilegedVersion
  | unknown
  | version1_10
  | version1_11
  | version1_12
  deriving DecidableEq, Repr

/-- `version >= PrivilegedVersion::Version1_11`: the hart has `mcountinhibit`. -/
def PrivilegedVersion.hasCountinhibit : PrivilegedVersion → Bool
  | unknown | version1_10 => false
  | version1_11 | version1_12 => true

/-- The features of the calling hart that the extension reads. -/
structure HartFeatures where
  privilegedVersion : PrivilegedVersion
  mhpmMask : BitVec 32
  deriving DecidableEq, Repr

/-- `PmuState`. -/
structure PmuState (xlen : Xlen) where
  activeEvent : Vector Nat (hardwareCounterMax + firmwareCounterMax)
  /-- Bitmap of active firmware counters. -/
  fwCounterState : BitVec xlen.bits
  fwCounter : Vector (BitVec 64) firmwareCounterMax
  hwCountersNum : Nat
  totalCountersNum : Nat
  deriving DecidableEq

/-- `PmuState::new`, with `CPU_CYCLES` and `INSTRUCTIONS` on the fixed counters. -/
def PmuState.new (xlen : Xlen) (mhpmMask : BitVec 32) : PmuState xlen where
  activeEvent := ((Vector.replicate _ (eventIdxInvalid xlen)).set 0 1 (by decide)).set 2 2 (by decide)
  fwCounterState := 0
  fwCounter := Vector.replicate _ 0
  hwCountersNum := countOnes mhpmMask
  totalCountersNum := countOnes mhpmMask + firmwareCounterMax

/-- The machine counter registers, indexed by their offset from `mcycle`. -/
structure Csrs (xlen : Xlen) where
  mcountinhibit : BitVec xlen.bits
  mhpmevent : Nat → BitVec xlen.bits
  mhpmcounter : Nat → BitVec 64

/-- What a PMU call can change on the calling hart. -/
structure Hart (xlen : Xlen) where
  pmu : PmuState xlen
  csrs : Csrs xlen

/-- A PMU routine: it may panic, and otherwise returns with the hart updated. -/
abbrev PmuM (xlen : Xlen) (α : Type) := Program (Hart xlen) α

/-! ## Counter registers (`riscv/csr.rs`) -/

/-- `write_mhpmevent`: only selectors 3 to 31 exist. -/
def writeMhpmevent (mhpmOffset : Nat) (value : BitVec 64) : PmuM xlen PUnit :=
  if 3 ≤ mhpmOffset ∧ mhpmOffset ≤ 31 then
    modify fun hart => { hart with csrs := { hart.csrs with
      mhpmevent := Function.update hart.csrs.mhpmevent mhpmOffset (value.setWidth xlen.bits) } }
  else pure ⟨⟩

/-- `write_mhpmcounter`: `mcycle`, `minstret` and counters 3 to 31 exist. -/
def writeMhpmcounter (mhpmOffset : Nat) (value : BitVec 64) : PmuM xlen PUnit :=
  if mhpmOffset = 0 ∨ mhpmOffset = 2 ∨ (3 ≤ mhpmOffset ∧ mhpmOffset ≤ 31) then
    modify fun hart => { hart with csrs := { hart.csrs with
      mhpmcounter := Function.update hart.csrs.mhpmcounter mhpmOffset value } }
  else pure ⟨⟩

/-- The `mcountinhibit` writes of `HardwareCounter::start` and
`HardwareCounter::stop`. -/
def writeMcountinhibit (value : BitVec xlen.bits) : PmuM xlen PUnit :=
  modify fun hart => { hart with csrs := { hart.csrs with mcountinhibit := value } }

/-- `HardwareCounter`. -/
inductive HardwareCounter
  | cycle
  | instret
  | hpm (offset : Nat)
  deriving DecidableEq, Repr

/-- `HardwareCounter::try_from_offset`. -/
def HardwareCounter.tryFromOffset (mhpmOffset : Nat) : Option HardwareCounter :=
  if mhpmOffset = 0 then some .cycle
  else if mhpmOffset = 2 then some .instret
  else if 3 ≤ mhpmOffset ∧ mhpmOffset ≤ 31 then some (.hpm mhpmOffset)
  else none

/-- `HardwareCounter::inhibit_mask`. -/
def HardwareCounter.inhibitMask : HardwareCounter → PmuM xlen (BitVec xlen.bits)
  | cycle => shiftLeft 1#(xlen.bits) 0
  | instret => shiftLeft 1#(xlen.bits) 2
  | hpm offset => shiftLeft 1#(xlen.bits) offset

/-- `StartCounterErr`. -/
inductive StartCounterErr
  | offsetInvalid
  | alreadyStart
  deriving DecidableEq, Repr

/-- `StopCounterErr`. -/
inductive StopCounterErr
  | offsetInvalid
  | alreadyStop
  deriving DecidableEq, Repr

/-- `start_hardware_counter`. -/
def startHardwareCounter (features : HartFeatures) (mhpmOffset : Nat) (newValue : BitVec 64)
    (isUpdateValue : Bool) : PmuM xlen (Except StartCounterErr PUnit) := do
  match HardwareCounter.tryFromOffset mhpmOffset with
  | none => return .error .offsetInvalid
  | some counter =>
    if features.privilegedVersion.hasCountinhibit = false then
      (if isUpdateValue then writeMhpmcounter mhpmOffset newValue else pure ⟨⟩)
      return .ok ⟨⟩
    else
      let inhibitMask ← counter.inhibitMask
      let inhibit := (← get).csrs.mcountinhibit
      if inhibit &&& inhibitMask = 0#(xlen.bits) then return .error .alreadyStart
      else
        (if isUpdateValue then writeMhpmcounter mhpmOffset newValue else pure ⟨⟩)
        writeMcountinhibit (inhibit &&& ~~~inhibitMask)
        return .ok ⟨⟩

/-- `stop_hardware_counter`. -/
def stopHardwareCounter (features : HartFeatures) (mhpmOffset : Nat) (isReset : Bool) :
    PmuM xlen (Except StopCounterErr PUnit) := do
  match HardwareCounter.tryFromOffset mhpmOffset with
  | none => return .error .offsetInvalid
  | some counter =>
    (if isReset = true ∧ 3 ≤ mhpmOffset ∧ mhpmOffset ≤ 31 then writeMhpmevent mhpmOffset 0
    else pure ⟨⟩)
    if features.privilegedVersion.hasCountinhibit = false then return .ok ⟨⟩
    else
      let inhibitMask ← counter.inhibitMask
      let inhibit := (← get).csrs.mcountinhibit
      if inhibit &&& inhibitMask ≠ 0#(xlen.bits) then return .error .alreadyStop
      else
        writeMcountinhibit (inhibit ||| inhibitMask)
        return .ok ⟨⟩

/-! ## Counter numbering -/

/-- The loop of `get_mhpm_csr_offset` over the remaining offsets, after
`count` implemented counters. -/
def mhpmCsrOffsetLoop (mhpmMask : BitVec 32) (counterIdx : Nat) : List Nat → Nat → Option Nat
  | [], _ => none
  | offset :: rest, count =>
    if (mhpmMask >>> offset) &&& 1#32 = 1#32 then
      if count = counterIdx then some offset
      else mhpmCsrOffsetLoop mhpmMask counterIdx rest (count + 1)
    else mhpmCsrOffsetLoop mhpmMask counterIdx rest count

/-- `get_mhpm_csr_offset`: the offset from `mcycle` of the counter's register. -/
def getMhpmCsrOffset (features : HartFeatures) (counterIdx : Nat) : Option Nat :=
  mhpmCsrOffsetLoop features.mhpmMask counterIdx (List.range 32) 0

/-- `CounterMask`: the counters that a base and a mask select. -/
structure CounterMask (xlen : Xlen) where
  counterIdxBase : Nat
  counterIdxMask : BitVec xlen.bits

namespace CounterMask

/-- `CounterMask::next`, with the iterator after it. -/
def next (counters : CounterMask xlen) : Option (Nat × CounterMask xlen) :=
  if counters.counterIdxMask = 0#(xlen.bits) then none
  else
    let lowBit := counters.counterIdxMask.ctz.toNat
    some (lowBit + counters.counterIdxBase,
      { counters with counterIdxMask := counters.counterIdxMask &&& ~~~(1#(xlen.bits) <<< lowBit) })

/-- The items of at most `fuel` calls of `next`. -/
def collect : Nat → CounterMask xlen → List Nat
  | 0, _ => []
  | fuel + 1, counters =>
    match counters.next with
    | none => []
    | some (counterIdx, rest) => counterIdx :: collect fuel rest

/-- The counters that a `for` loop over the iterator visits, in order. -/
def toList (counters : CounterMask xlen) : List Nat := counters.collect xlen.bits

end CounterMask

/-- The condition under which every multi-counter call rejects its set: the
base is no counter, the mask is empty, or it selects past the last counter. -/
def counterSetInvalid (pmu : PmuState xlen) (counterIdxBase : Nat)
    (counterIdxMask : BitVec xlen.bits) : PmuM xlen Bool :=
  if pmu.totalCountersNum ≤ counterIdxBase then pure true
  else if counterIdxMask = 0#(xlen.bits) then pure true
  else do
    let shift := (← checkedSub pmu.totalCountersNum counterIdxBase) % 2 ^ 32
    -- `checked_shr` is `None` from the word size on
    let rest := if shift < xlen.bits then counterIdxMask >>> shift else 0#(xlen.bits)
    return decide (rest ≠ 0#(xlen.bits))

/-! ## Firmware counters -/

/-- Updates the PMU state of the hart. -/
def setPmu (pmu : PmuState xlen) : PmuM xlen PUnit := modify fun hart => { hart with pmu := pmu }

/-- `PmuState::get_event_idx`. -/
def getEventIdx (pmu : PmuState xlen) (counterIdx : Nat) (firmwareEvent : Bool) :
    PmuM xlen (Option EventIdx) := do
  if pmu.totalCountersNum ≤ counterIdx then return none
  else if firmwareEvent = true ∧ counterIdx < pmu.hwCountersNum then return none
  else return some ⟨← readAt pmu.activeEvent counterIdx⟩

/-- `PmuState::get_fw_counter`. -/
def getFwCounter (pmu : PmuState xlen) (counterIdx : Nat) : PmuM xlen (Option (BitVec 64)) := do
  if counterIdx < pmu.hwCountersNum ∨ pmu.totalCountersNum ≤ counterIdx then return none
  else
    let fwIdx ← checkedSub counterIdx pmu.hwCountersNum
    return some (← readAt pmu.fwCounter fwIdx)

/-- `PmuState::start_fw_counter`. -/
def startFwCounter (counterIdx : Nat) (initialValue : BitVec 64) (isUpdateValue : Bool) :
    PmuM xlen (Except StartCounterErr PUnit) := do
  let pmu := (← get).pmu
  if counterIdx < pmu.hwCountersNum ∨ pmu.totalCountersNum ≤ counterIdx then
    return .error .offsetInvalid
  else
    let fwIdx ← checkedSub counterIdx pmu.hwCountersNum
    let bit ← shiftLeft 1#(xlen.bits) fwIdx
    if pmu.fwCounterState &&& bit ≠ 0#(xlen.bits) then return .error .alreadyStart
    else
      let fwCounter ←
        (if isUpdateValue then writeAt pmu.fwCounter fwIdx initialValue else pure pmu.fwCounter)
      setPmu { pmu with fwCounter := fwCounter, fwCounterState := pmu.fwCounterState ||| bit }
      return .ok ⟨⟩

/-- `PmuState::stop_fw_counter`. -/
def stopFwCounter (counterIdx : Nat) (isReset : Bool) :
    PmuM xlen (Except StopCounterErr PUnit) := do
  let pmu := (← get).pmu
  if counterIdx < pmu.hwCountersNum ∨ pmu.totalCountersNum ≤ counterIdx then
    return .error .offsetInvalid
  else
    let fwIdx ← checkedSub counterIdx pmu.hwCountersNum
    let bit ← shiftLeft 1#(xlen.bits) fwIdx
    if pmu.fwCounterState &&& bit = 0#(xlen.bits) then return .error .alreadyStop
    else
      let activeEvent ←
        (if isReset then writeAt pmu.activeEvent counterIdx (eventIdxInvalid xlen)
        else pure pmu.activeEvent)
      setPmu { pmu with activeEvent := activeEvent, fwCounterState := pmu.fwCounterState &&& ~~~bit }
      return .ok ⟨⟩

/-! ## Matching -/

/-- The search of `find_firmware_counter` over the remaining counters. -/
def findFirmwareCounterLoop (pmu : PmuState xlen) :
    List Nat → PmuM xlen (Except SbiRet Nat)
  | [] => return .error .notSupported
  | counterIdx :: rest => do
    if counterIdx < pmu.hwCountersNum ∨ pmu.totalCountersNum ≤ counterIdx then
      findFirmwareCounterLoop pmu rest
    else if (← readAt pmu.activeEvent counterIdx) ≠ eventIdxInvalid xlen then
      findFirmwareCounterLoop pmu rest
    else return .ok counterIdx

/-- `SbiPmu::find_firmware_counter`. -/
def findFirmwareCounter (pmu : PmuState xlen) (counters : CounterMask xlen) (eventIdx : Nat) :
    PmuM xlen (Except SbiRet Nat) :=
  if EventIdx.firmwareEventValid ⟨eventIdx⟩ = false then return .error .notSupported
  else findFirmwareCounterLoop pmu counters.toList

/-- `ok_or_else(SbiRet::not_supported)`. -/
def okOrNotSupported {α : Type} : Option α → Except SbiRet α
  | some a => .ok a
  | none => .error .notSupported

/-- The selector value that `pmu_update_hardware_mhpmevent` writes: the event
data of a raw event, the mapped value of a standard one, or the event itself
when the device tree only lists counters. -/
def mhpmeventVal (sbiPmu : SbiPmu) (eventIdx : Nat) (eventData : BitVec 64) :
    Except SbiRet (BitVec 64) :=
  if EventIdx.isRawEvent ⟨eventIdx⟩ then .ok eventData
  else match sbiPmu.eventToMhpmevent with
    | some map => okOrNotSupported (map.lookup (eventIdx % 2 ^ 32))
    | none =>
      if sbiPmu.eventToMhpmcounter.isSome then .ok (BitVec.ofNat 64 eventIdx)
      else .error .notSupported

/-- `SbiPmu::pmu_update_hardware_mhpmevent`. -/
def pmuUpdateHardwareMhpmevent (sbiPmu : SbiPmu) (mhpmOffset eventIdx : Nat)
    (eventData : BitVec 64) : PmuM xlen (Except SbiRet PUnit) := do
  if (mhpmOffset = 0 ∧ eventIdx = 1) ∨ (mhpmOffset = 2 ∧ eventIdx = 2) then return .ok ⟨⟩
  else if mhpmOffset = 1 ∨ 31 < mhpmOffset then return .error .notSupported
  else
    match mhpmeventVal sbiPmu eventIdx eventData with
    | .error e => return .error e
    | .ok value =>
      writeMhpmevent mhpmOffset value
      return .ok ⟨⟩

/-- The fixed counter of an event, among the selected ones. -/
def fixedCounter (features : HartFeatures) (counters : CounterMask xlen) (eventIdx : Nat) :
    Option Nat :=
  counters.toList.find? fun idx =>
    match eventIdx, getMhpmCsrOffset features idx with
    | 1, some 0 => true
    | 2, some 2 => true
    | _, _ => false

/-- Whether the event may not use the counter or another event has it. -/
def counterOccupied (pmu : PmuState xlen) (canUseCounterMask : BitVec 32)
    (counterIdx mhpmOffset : Nat) : PmuM xlen Bool := do
  let canUse ← shiftRight canUseCounterMask mhpmOffset
  if canUse &&& 1#32 = 0#32 then return true
  else return (← readAt pmu.activeEvent counterIdx) ≠ eventIdxInvalid xlen

/-- Whether `mcountinhibit` says that the counter is counting already. -/
def counterCounting (features : HartFeatures) (mhpmOffset : Nat) : PmuM xlen Bool := do
  if features.privilegedVersion.hasCountinhibit then
    let inhibit := (← get).csrs.mcountinhibit
    return inhibit &&& (← shiftLeft 1#(xlen.bits) mhpmOffset) = 0#(xlen.bits)
  else return false

/-- The search of `find_hardware_counter` over the remaining counters. -/
def findHardwareCounterLoop (features : HartFeatures) (sbiPmu : SbiPmu) (pmu : PmuState xlen)
    (canUseCounterMask : BitVec 32) (eventIdx : Nat) (eventData : BitVec 64)
    (fixed : Except SbiRet Nat) : List Nat → PmuM xlen (Except SbiRet Nat)
  | [] => return fixed
  | counterIdx :: rest => do
    let skip := findHardwareCounterLoop features sbiPmu pmu canUseCounterMask eventIdx eventData
      fixed rest
    if pmu.hwCountersNum ≤ counterIdx then skip
    else
      let mhpmOffset ← unwrap (getMhpmCsrOffset features counterIdx)
      if ← counterOccupied pmu canUseCounterMask counterIdx mhpmOffset then skip
      else if (mhpmOffset = 0 ∧ eventIdx ≠ 1) ∨ (mhpmOffset = 2 ∧ eventIdx ≠ 2) then skip
      else if ← counterCounting features mhpmOffset then skip
      else
        match ← pmuUpdateHardwareMhpmevent sbiPmu mhpmOffset eventIdx eventData with
        | .error e => return .error e
        | .ok _ => return .ok counterIdx

/-- `SbiPmu::find_hardware_counter`. -/
def findHardwareCounter (features : HartFeatures) (sbiPmu : SbiPmu) (pmu : PmuState xlen)
    (counters : CounterMask xlen) (eventIdx : Nat) (eventData : BitVec 64) :
    PmuM xlen (Except SbiRet Nat) :=
  let fixed := okOrNotSupported (fixedCounter features counters eventIdx)
  let search (hwCountersMask : BitVec 32) :=
    findHardwareCounterLoop features sbiPmu pmu (hwCountersMask &&& features.mhpmMask) eventIdx
      eventData fixed counters.toList
  if EventIdx.isRawEvent ⟨eventIdx⟩ then
    match sbiPmu.rawEventToMhpmcounter with
    | none => return .error .notSupported
    | some rows => search ((rows.find? (·.haveEvent eventData)).elim 0 (·.countersMask))
  else
    match sbiPmu.eventToMhpmcounter with
    | none => return fixed
    | some rows => search ((rows.find? (·.haveEvent (eventIdx % 2 ^ 32))).elim 0 (·.countersMask))

/-! ## Configuration -/

/-- `ConfigFlags`, less the inhibit flags that the extension ignores. -/
structure ConfigFlags where
  skipMatch : Bool
  clearValue : Bool
  autoStart : Bool
  deriving DecidableEq, Repr

/-- `ConfigFlags::from_bits`: bits 0 to 7 are defined. -/
def ConfigFlags.fromBits (bits : Nat) : Option ConfigFlags :=
  if bits < 2 ^ 8 then some ⟨bits.testBit 0, bits.testBit 1, bits.testBit 2⟩ else none

/-- `configure_counter`. -/
def configureCounter (features : HartFeatures) (counterIdx : Nat) (event : EventIdx)
    (flags : ConfigFlags) : PmuM xlen (Except SbiRet PUnit) := do
  if event.isFirmwareEvent then
    let pmu := (← get).pmu
    let firmwareEventIdx ← checkedSub counterIdx pmu.hwCountersNum
    if firmwareCounterMax ≤ firmwareEventIdx then return .error .invalidParam
    else
      let fwCounter ←
        (if flags.clearValue then writeAt pmu.fwCounter firmwareEventIdx 0 else pure pmu.fwCounter)
      let fwCounterState ←
        (if flags.autoStart then (pmu.fwCounterState ||| ·) <$> shiftLeft 1#(xlen.bits) firmwareEventIdx
        else pure pmu.fwCounterState)
      setPmu { pmu with fwCounter := fwCounter, fwCounterState := fwCounterState }
      return .ok ⟨⟩
  else
    let mhpmOffset ← unwrap (getMhpmCsrOffset features counterIdx)
    (if flags.clearValue then writeMhpmcounter mhpmOffset 0 else pure ⟨⟩)
    if flags.autoStart then
      match ← startHardwareCounter features mhpmOffset 0 false with
      | .error _ => return .error .notSupported
      | .ok _ => return .ok ⟨⟩
    else return .ok ⟨⟩

/-- The counter that `counter_config_matching` configures: under `SKIP_MATCH`
the first selected one, if an event is active on it, and otherwise one found
for the event, which becomes its active event. -/
def matchCounter (features : HartFeatures) (sbiPmu : SbiPmu) (counters : CounterMask xlen)
    (skipMatch : Bool) (eventIdx : Nat) (eventData : BitVec 64) :
    PmuM xlen (Except SbiRet Nat) := do
  let pmu := (← get).pmu
  if skipMatch then
    match counters.next with
    | none => return .error .invalidParam
    | some (counterIdx, _) =>
      if (← readAt pmu.activeEvent counterIdx) = eventIdxInvalid xlen then
        return .error .invalidParam
      else return .ok counterIdx
  else
    let matchResult ←
      (if EventIdx.isFirmwareEvent ⟨eventIdx⟩ then findFirmwareCounter pmu counters eventIdx
      else findHardwareCounter features sbiPmu pmu counters eventIdx eventData)
    match matchResult with
    | .error e => return .error e
    | .ok counterIdx =>
      setPmu { pmu with activeEvent := ← writeAt pmu.activeEvent counterIdx eventIdx }
      return .ok counterIdx

/-- `counter_config_matching`. -/
def counterConfigMatching (features : HartFeatures) (sbiPmu : SbiPmu) (counterIdxBase : Nat)
    (counterIdxMask : BitVec xlen.bits) (configFlags eventIdx : Nat) (eventData : BitVec 64) :
    PmuM xlen SbiRet := do
  match ConfigFlags.fromBits configFlags with
  | none => return .invalidParam
  | some flags =>
    let event : EventIdx := ⟨eventIdx⟩
    if ← counterSetInvalid (← get).pmu counterIdxBase counterIdxMask then return .invalidParam
    else if event.checkEventType = false ∨
        (event.isFirmwareEvent = true ∧ event.firmwareEventValid = false) then
      return .invalidParam
    else
      match ← matchCounter features sbiPmu ⟨counterIdxBase, counterIdxMask⟩ flags.skipMatch
          eventIdx eventData with
      | .error e => return e
      | .ok counterIdx =>
        match ← configureCounter features counterIdx event flags with
        | .error e => return e
        | .ok _ => return .success counterIdx

/-! ## Starting and stopping -/

/-- `StartFlags`. -/
structure StartFlags where
  initValue : Bool
  initSnapshot : Bool
  deriving DecidableEq, Repr

/-- `StartFlags::from_bits`. -/
def StartFlags.fromBits (bits : Nat) : Option StartFlags :=
  if bits < 2 ^ 2 then some ⟨bits.testBit 0, bits.testBit 1⟩ else none

/-- The loop of `counter_start` over the remaining counters. -/
def counterStartLoop (features : HartFeatures) (initialValue : BitVec 64) (isUpdateValue : Bool) :
    List Nat → PmuM xlen SbiRet
  | [] => return .success 0
  | counterIdx :: rest => do
    let pmu := (← get).pmu
    if pmu.totalCountersNum ≤ counterIdx then return .invalidParam
    else
      let startResult ←
        (if pmu.hwCountersNum ≤ counterIdx then startFwCounter counterIdx initialValue isUpdateValue
        else do
          let mhpmOffset ← unwrap (getMhpmCsrOffset features counterIdx)
          startHardwareCounter features mhpmOffset initialValue isUpdateValue)
      match startResult with
      | .ok _ => counterStartLoop features initialValue isUpdateValue rest
      | .error .alreadyStart => return .alreadyStarted
      | .error .offsetInvalid => return .invalidParam

/-- `counter_start`. -/
def counterStart (features : HartFeatures) (counterIdxBase : Nat)
    (counterIdxMask : BitVec xlen.bits) (startFlags : Nat) (initialValue : BitVec 64) :
    PmuM xlen SbiRet := do
  match StartFlags.fromBits startFlags with
  | none => return .invalidParam
  | some flags =>
    if ← counterSetInvalid (← get).pmu counterIdxBase counterIdxMask then return .invalidParam
    else if flags.initSnapshot then return .noShmem
    else
      counterStartLoop features initialValue flags.initValue
        (CounterMask.toList ⟨counterIdxBase, counterIdxMask⟩)

/-- `StopFlags`. -/
structure StopFlags where
  reset : Bool
  takeSnapshot : Bool
  deriving DecidableEq, Repr

/-- `StopFlags::from_bits`. -/
def StopFlags.fromBits (bits : Nat) : Option StopFlags :=
  if bits < 2 ^ 2 then some ⟨bits.testBit 0, bits.testBit 1⟩ else none

/-- The loop of `counter_stop` over the remaining counters, with the result of
the ones before. -/
def counterStopLoop (features : HartFeatures) (isReset : Bool) :
    List Nat → SbiRet → PmuM xlen SbiRet
  | [], result => return result
  | counterIdx :: rest, result => do
    let pmu := (← get).pmu
    if pmu.totalCountersNum ≤ counterIdx then return .invalidParam
    else if pmu.hwCountersNum ≤ counterIdx then
      match ← stopFwCounter counterIdx isReset with
      | .ok _ => counterStopLoop features isReset rest (.success 0)
      | .error .offsetInvalid => return .invalidParam
      | .error .alreadyStop => return .alreadyStopped
    else
      let mhpmOffset ← unwrap (getMhpmCsrOffset features counterIdx)
      -- the time counter is passed over
      if mhpmOffset = 1 then counterStopLoop features isReset rest result
      else
        (if isReset then do
          setPmu { pmu with
            activeEvent := ← writeAt pmu.activeEvent counterIdx (eventIdxInvalid xlen) }
        else pure ⟨⟩)
        match ← stopHardwareCounter features mhpmOffset isReset with
        | .ok _ => counterStopLoop features isReset rest (.success 0)
        | .error .offsetInvalid => return .invalidParam
        | .error .alreadyStop => return .alreadyStopped

/-- `counter_stop`. -/
def counterStop (features : HartFeatures) (counterIdxBase : Nat)
    (counterIdxMask : BitVec xlen.bits) (stopFlags : Nat) : PmuM xlen SbiRet := do
  match StopFlags.fromBits stopFlags with
  | none => return .invalidParam
  | some flags =>
    if ← counterSetInvalid (← get).pmu counterIdxBase counterIdxMask then return .invalidParam
    else if flags.takeSnapshot then return .noShmem
    else
      counterStopLoop features flags.reset (CounterMask.toList ⟨counterIdxBase, counterIdxMask⟩)
        .invalidParam

/-! ## Information and reading -/

/-- `num_counters`. -/
def numCounters : PmuM xlen Nat := do return (← get).pmu.totalCountersNum

theorem and_sub_one_toNat_lt {w : Nat} {x : BitVec w} (hx : x ≠ 0#w) :
    (x &&& (x - 1#w)).toNat < x.toNat := by
  have hpos : 0 < x.toNat := by
    rcases Nat.eq_zero_or_pos x.toNat with h | h
    · exact absurd (BitVec.eq_of_toNat_eq (by simpa using h)) hx
    · exact h
  have hlt := x.isLt
  have hsub : (x - 1#w).toNat = x.toNat - 1 := by
    have hle : 1#w ≤ x := by
      rw [BitVec.le_def, BitVec.toNat_ofNat]
      exact Nat.le_trans (Nat.mod_le 1 (2 ^ w)) hpos
    rw [BitVec.toNat_sub_of_le hle, BitVec.toNat_ofNat, Nat.mod_eq_of_lt (by omega)]
  calc (x &&& (x - 1#w)).toNat ≤ (x - 1#w).toNat := by
        rw [BitVec.toNat_and]
        exact Nat.and_le_right
    _ < x.toNat := by omega

/-- The loop of `counter_get_info`, which clears the lowest set bit of the
remaining mask until it has passed `count` counters. -/
def counterGetInfoLoop (counterIdx : Nat) (remainingMask : BitVec 32) (count : Nat) : SbiRet :=
  if h : remainingMask = 0#32 then .invalidParam
  else if count = counterIdx then
    let offset := remainingMask.ctz.toNat
    if offset = 1 then .invalidParam
    else .success (((0xC00 + offset) &&& 0xFFF) ||| ((63 &&& 0x3F) <<< 12))
  else counterGetInfoLoop counterIdx (remainingMask &&& (remainingMask - 1#32)) (count + 1)
termination_by remainingMask.toNat
decreasing_by exact and_sub_one_toNat_lt h

/-- `counter_get_info`. -/
def counterGetInfo (features : HartFeatures) (counterIdx : Nat) : PmuM xlen SbiRet := do
  if (← numCounters) ≤ counterIdx then return .invalidParam
  else if counterIdx < (← get).pmu.hwCountersNum then
    return counterGetInfoLoop counterIdx features.mhpmMask 0
  else return .success (2 ^ (xlen.bits - 1))

/-- `counter_fw_read`. -/
def counterFwRead (counterIdx : Nat) : PmuM xlen SbiRet := do
  let pmu := (← get).pmu
  match ← getEventIdx pmu counterIdx true with
  | none => return .invalidParam
  | some event =>
    if event.firmwareEventValid then
      if event.eventCode = 65535 then return .invalidParam
      else
        match ← getFwCounter pmu counterIdx with
        | some value => return .success (value.setWidth xlen.bits).toNat
        | none => return .invalidParam
    else return .invalidParam

/-- `counter_fw_read_hi`. -/
def counterFwReadHi (counterIdx : Nat) : PmuM xlen SbiRet := do
  match xlen with
  | .rv64 => return .success 0
  | .rv32 =>
    match ← counterFwRead counterIdx with
    | .success _ =>
      match ← getFwCounter (← get).pmu counterIdx with
      | some value => return .success (value >>> 32).toNat
      | none => return .invalidParam
    | ret => return ret

/-- `snapshot_set_shmem`. -/
def snapshotSetShmem : PmuM xlen SbiRet := return .notSupported

/-- `PmuState::is_firmware_event_start`. -/
def isFirmwareEventStart (pmu : PmuState xlen) (counterIdx : Nat) : PmuM xlen Bool := do
  if counterIdx < pmu.hwCountersNum ∨ pmu.totalCountersNum ≤ counterIdx then return false
  else
    let fwIdx ← checkedSub counterIdx pmu.hwCountersNum
    return pmu.fwCounterState &&& (← shiftLeft 1#(xlen.bits) fwIdx) ≠ 0#(xlen.bits)

/-- The loop of `pmu_firmware_counter_increment` over the remaining counters. -/
def firmwareCounterIncrementLoop (firmwareEvent counterIdxStart : Nat) : List Nat → PmuM xlen PUnit
  | [] => return ⟨⟩
  | counterIdx :: rest => do
    let pmu := (← get).pmu
    let fwIdx ← checkedSub counterIdx counterIdxStart
    let activeEvent ← readAt pmu.activeEvent counterIdx
    let counts ←
      (if activeEvent = (EventIdx.fromFirmwareEvent firmwareEvent).inner then
        isFirmwareEventStart pmu counterIdx
      else pure false)
    (if counts then do
      let value ← readAt pmu.fwCounter fwIdx
      setPmu { pmu with fwCounter := ← writeAt pmu.fwCounter fwIdx (value + 1) }
    else pure ⟨⟩)
    firmwareCounterIncrementLoop firmwareEvent counterIdxStart rest

/-- `pmu_firmware_counter_increment`. The addition of the loop wraps, as in a
build without overflow checks (`release`); with them the event at `u64::MAX` panics. -/
def pmuFirmwareCounterIncrement (firmwareEvent : Nat) : PmuM xlen PUnit := do
  let pmu := (← get).pmu
  if pmu.fwCounterState = 0#(xlen.bits) then return ⟨⟩
  else
    firmwareCounterIncrementLoop firmwareEvent pmu.hwCountersNum
      ((List.range firmwareCounterMax).map (pmu.hwCountersNum + ·))

/-! ## Calls and runs -/

/-- The PMU calls of a supervisor, with its registers as arguments. -/
inductive Call (xlen : Xlen)
  | numCounters
  | counterGetInfo (counterIdx : BitVec xlen.bits)
  | counterConfigMatching (counterIdxBase counterIdxMask configFlags eventIdx : BitVec xlen.bits)
      (eventData : BitVec 64)
  | counterStart (counterIdxBase counterIdxMask startFlags : BitVec xlen.bits)
      (initialValue : BitVec 64)
  | counterStop (counterIdxBase counterIdxMask stopFlags : BitVec xlen.bits)
  | counterFwRead (counterIdx : BitVec xlen.bits)
  | counterFwReadHi (counterIdx : BitVec xlen.bits)
  | snapshotSetShmem (shmemLo shmemHi flags : BitVec xlen.bits)
  deriving DecidableEq

/-- The result of a PMU call. A subtraction below zero in it panics, as in a build
with overflow checks (`dev`). -/
def Call.handle (features : HartFeatures) (sbiPmu : SbiPmu) : Call xlen → PmuM xlen SbiRet
  | numCounters => do return .success (← Pmu.numCounters)
  | counterGetInfo counterIdx => Pmu.counterGetInfo features counterIdx.toNat
  | counterConfigMatching base mask flags eventIdx eventData =>
    Pmu.counterConfigMatching features sbiPmu base.toNat mask flags.toNat eventIdx.toNat eventData
  | counterStart base mask flags initialValue =>
    Pmu.counterStart features base.toNat mask flags.toNat initialValue
  | counterStop base mask flags => Pmu.counterStop features base.toNat mask flags.toNat
  | counterFwRead counterIdx => Pmu.counterFwRead counterIdx.toNat
  | counterFwReadHi counterIdx => Pmu.counterFwReadHi counterIdx.toNat
  | snapshotSetShmem _ _ _ => Pmu.snapshotSetShmem

/-- The steps of a run: a call of the supervisor, a firmware event, or a
change that the hardware makes to the counter registers. -/
inductive Step (xlen : Xlen)
  | call (request : Call xlen)
  | event (firmwareEvent : Nat)
  | hardware (csrs : Csrs xlen)

/-- One step of a run, with what a call returned. -/
def Step.run (features : HartFeatures) (sbiPmu : SbiPmu) : Step xlen → PmuM xlen (Option SbiRet)
  | .call request => some <$> request.handle features sbiPmu
  | .event firmwareEvent => do
    pmuFirmwareCounterIncrement firmwareEvent
    return none
  | .hardware csrs => do
    modify fun hart => { hart with csrs := csrs }
    return none

/-- A whole run, with what its calls returned. -/
def runSteps (features : HartFeatures) (sbiPmu : SbiPmu) :
    List (Step xlen) → PmuM xlen (List (Option SbiRet))
  | [] => return []
  | step :: rest => do
    let ret ← step.run features sbiPmu
    return ret :: (← runSteps features sbiPmu rest)

/-- The hart at boot, whatever its registers hold. -/
def boot (features : HartFeatures) (csrs : Csrs xlen) : Hart xlen :=
  ⟨PmuState.new xlen features.mhpmMask, csrs⟩

/-- The PMU states of a hart: those in which a run from boot ends. -/
def Reachable (features : HartFeatures) (sbiPmu : SbiPmu) (hart : Hart xlen) : Prop :=
  ∃ csrs steps rets, runSteps features sbiPmu steps (boot features csrs) = .ok (rets, hart)

end RustSbi.Pmu
