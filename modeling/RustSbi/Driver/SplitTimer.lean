import RustSbi.Lib.Checked
import RustSbi.Lib.SplitWord
import RustSbi.Memory.Mmio

/-!
64-bit timer registers behind 32-bit accesses: the SiFive CLINT on 32-bit
harts, the T-Head CLINT and the Andes PLMT on all harts (`driver/clint`,
`driver/plmt.rs`), and `stimecmp` on 32-bit harts (`riscv/csr.rs`). The counter
may tick between any two accesses; a compare register takes effect after every
single write.
-/

namespace RustSbi.Driver

open Checked Memory SplitWord

variable {xlen : Xlen} {σ : Type}

/-- `(u64::from(high) << 32) | u64::from(low)`. -/
def ofHalves (high low : BitVec 32) : BitVec 64 := high.setWidth 64 <<< 32 ||| low.setWidth 64

/-- `(value >> 32) as u32`. -/
def highHalf (value : BitVec 64) : BitVec 32 := (value >>> 32).setWidth 32

/-- `value as u32`. -/
def lowHalf (value : BitVec 64) : BitVec 32 := value.setWidth 32

/-! ## Register accesses -/

/-- `registers.read(offset).expect(..)`. -/
def readRegister (registers : MmioRegion xlen) (device : Device σ) (t : MmioValue xlen)
    (offset : Nat) : Program σ Nat := fun s =>
  match registers.read t offset device s with
  | (.ok value, s') => .ok (value, s')
  | (.error _, _) => .error .unwrapNone

/-- `registers.write(offset, value).expect(..)`. -/
def writeRegister (registers : MmioRegion xlen) (device : Device σ) (t : MmioValue xlen)
    (offset value : Nat) : Program σ PUnit := fun s =>
  match registers.write t offset value device s with
  | (.ok _, s') => .ok (⟨⟩, s')
  | (.error _, _) => .error .unwrapNone

/-- `read_word`. -/
def readWord (registers : MmioRegion xlen) (device : Device σ) (offset : Nat) :
    Program σ (BitVec 32) := do
  return BitVec.ofNat 32 (← readRegister registers device .u32 offset)

/-- `write_word`. -/
def writeWord (registers : MmioRegion xlen) (device : Device σ) (offset : Nat) (value : BitVec 32) :
    Program σ PUnit :=
  writeRegister registers device .u32 offset value.toNat

/-- The loop that reads the high half, the low half and the high half again
until both high halves agree, for so many rounds. -/
def splitRead (readWord : Nat → Program σ (BitVec 32)) (lowOffset highOffset : Nat) :
    Nat → Program σ (Option (BitVec 64))
  | 0 => return none
  | rounds + 1 => do
    let high ← readWord highOffset
    let low ← readWord lowOffset
    if high = (← readWord highOffset) then return some (ofHalves high low)
    else splitRead readWord lowOffset highOffset rounds

/-- The three writes of a compare value. -/
def splitWrite (writeWord : Nat → BitVec 32 → Program σ PUnit) (lowOffset highOffset : Nat)
    (value : BitVec 64) : Program σ PUnit := do
  writeWord lowOffset 0xFFFFFFFF#32
  writeWord highOffset (highHalf value)
  writeWord lowOffset (lowHalf value)

/-! ## Drivers -/

/-- `SiFiveTimer`. -/
structure SiFiveTimer (xlen : Xlen) where
  registers : MmioRegion xlen

/-- `SiFiveIpi`. -/
structure SiFiveIpi (xlen : Xlen) where
  registers : MmioRegion xlen

namespace SiFive

/-- `MTIMECMP_OFFSET`. -/
def mtimecmpOffset : Nat := 0x4000

/-- `TimerRegister`. -/
inductive TimerRegister
  | mtimecmp
  | mtime
  deriving DecidableEq, Repr

/-- `TimerRegister::offset`. -/
def TimerRegister.offset : TimerRegister → Nat
  | mtimecmp => 0
  | mtime => 0xbff8 - mtimecmpOffset

/-- `TimerRegister::mtimecmp_offset_for_hart`. -/
def TimerRegister.mtimecmpOffsetForHart (hartId : Nat) : Program σ Nat :=
  if hartId < numHartMax then pure (mtimecmp.offset + hartId * 8) else throw .explicit

/-- `sifive::bind`. -/
def bind (registers : DeviceRegisterRange xlen) : Binding xlen (SiFiveTimer xlen × SiFiveIpi xlen) := do
  let ipiRegisters ← registers.subrange 0 (numHartMax * 4)
  let timerRegisters ← registers.subrange mtimecmpOffset (TimerRegister.mtime.offset + 8)
  if ipiRegisters.hasAlignedBounds 4 = false ∨ timerRegisters.hasAlignedBounds 8 = false then
    throw .invalidArgs
  else
    let ipiMmio ← acquire ipiRegisters
    let timerMmio ← acquire timerRegisters
    return (⟨timerMmio⟩, ⟨ipiMmio⟩)

end SiFive

open SiFive in
/-- `SiFiveTimer::read`, within so many rounds on a 32-bit hart. -/
def SiFiveTimer.read : {xlen : Xlen} → SiFiveTimer xlen → Device σ → TimerRegister → (rounds : Nat) →
    Program σ (Option (BitVec 64))
  | .rv64, timer, device, reg, _ =>
    return some (BitVec.ofNat 64 (← readRegister timer.registers device .u64 reg.offset))
  | .rv32, timer, device, reg, rounds =>
    splitRead (readWord timer.registers device) reg.offset (reg.offset + 4) rounds

open SiFive in
/-- `SiFiveTimer::write_mtimecmp`, which is `set_timer`. -/
def SiFiveTimer.writeMtimecmp : {xlen : Xlen} → SiFiveTimer xlen → Device σ → (hartId : Nat) →
    (value : BitVec 64) → Program σ PUnit
  | .rv64, timer, device, hartId, value => do
    writeRegister timer.registers device .u64 (← TimerRegister.mtimecmpOffsetForHart hartId) value.toNat
  | .rv32, timer, device, hartId, value => do
    let offset ← TimerRegister.mtimecmpOffsetForHart hartId
    splitWrite (writeWord timer.registers device) offset (offset + 4) value

/-- `THeadTimer`. -/
structure THeadTimer (xlen : Xlen) where
  mtimecmp : MmioRegion xlen

/-- `THeadIpi`. -/
structure THeadIpi (xlen : Xlen) where
  msip : MmioRegion xlen

namespace THead

/-- `TimerRegister`. -/
inductive TimerRegister
  | mtimecmpLow
  | mtimecmpHigh
  deriving DecidableEq, Repr

/-- `TimerRegister::offset`. -/
def TimerRegister.offset : TimerRegister → Nat
  | mtimecmpLow => 0
  | mtimecmpHigh => 4

/-- `TimerRegister::offset_for_hart`. -/
def TimerRegister.offsetForHart (reg : TimerRegister) (hartId : Nat) : Program σ Nat :=
  if hartId < numHartMax then pure (hartId * 8 + reg.offset) else throw .explicit

/-- `thead::bind`. -/
def bind (registers : DeviceRegisterRange xlen) : Binding xlen (THeadTimer xlen × THeadIpi xlen) := do
  let msipRegisters ← registers.subrange 0 (numHartMax * 4)
  let mtimecmpRegisters ← registers.subrange 0x4000 (numHartMax * 8)
  if msipRegisters.hasAlignedBounds 4 = false ∨ mtimecmpRegisters.hasAlignedBounds 4 = false then
    throw .invalidArgs
  else
    let msipMmio ← acquire msipRegisters
    let mtimecmpMmio ← acquire mtimecmpRegisters
    return (⟨mtimecmpMmio⟩, ⟨msipMmio⟩)

end THead

open THead in
/-- `THeadTimer::write`. -/
def THeadTimer.write (timer : THeadTimer xlen) (device : Device σ) (reg : TimerRegister)
    (hartId : Nat) (value : BitVec 32) : Program σ PUnit := do
  writeWord timer.mtimecmp device (← reg.offsetForHart hartId) value

/-- `THeadTimer::set_mtimecmp`, which is `set_timer`. -/
def THeadTimer.setMtimecmp (timer : THeadTimer xlen) (device : Device σ) (hartId : Nat)
    (value : BitVec 64) : Program σ PUnit := do
  timer.write device .mtimecmpLow hartId 0xFFFFFFFF#32
  timer.write device .mtimecmpHigh hartId (highHalf value)
  timer.write device .mtimecmpLow hartId (lowHalf value)

/-- `Plmt`. -/
structure Plmt (xlen : Xlen) where
  registers : MmioRegion xlen
  hartCount : Nat

namespace Plmt

/-- `Register`. -/
inductive Register
  | counterLow
  | counterHigh
  | compareLow
  | compareHigh
  deriving DecidableEq, Repr

def Register.offset : Register → Nat
  | counterLow => 0x00
  | counterHigh => 0x04
  | compareLow => 0x08
  | compareHigh => 0x0c

/-- `plmt::bind`. -/
def bind (registers : DeviceRegisterRange xlen) (hartCount : Nat) : Binding xlen (Plmt xlen) := do
  if hartCount = 0 ∨ numHartMax < hartCount then throw .invalidArgs
  else
    let registers ← registers.subrange 0 (Register.compareLow.offset + 8 * hartCount)
    if registers.hasAlignedBounds 8 = false then throw .invalidArgs
    else return ⟨← acquire registers, hartCount⟩

/-- `Plmt::write_compare_word`. -/
def writeCompareWord (plmt : Plmt xlen) (device : Device σ) (register : Register) (hartId : Nat)
    (value : BitVec 32) : Program σ PUnit :=
  writeWord plmt.registers device (register.offset + 8 * hartId) value

/-- `Plmt::read_time`, within so many rounds. -/
def readTime (plmt : Plmt xlen) (device : Device σ) (rounds : Nat) : Program σ (Option (BitVec 64)) :=
  splitRead (readWord plmt.registers device) Register.counterLow.offset Register.counterHigh.offset
    rounds

/-- `Plmt::set_timer`. -/
def setTimer (plmt : Plmt xlen) (device : Device σ) (hartId : Nat) (value : BitVec 64) :
    Program σ PUnit :=
  if hartId < plmt.hartCount then do
    plmt.writeCompareWord device .compareLow hartId 0xFFFFFFFF#32
    plmt.writeCompareWord device .compareHigh hartId (highHalf value)
    plmt.writeCompareWord device .compareLow hartId (lowHalf value)
  else throw .explicit

end Plmt

/-! ## Timer registers -/

/-- The timer registers as the hardware has them: the compare values now, and
those that were in effect after each write, newest first. -/
structure Registers where
  accesses : Nat
  compare : Nat → BitVec 64
  passed : List (Nat → BitVec 64)

namespace Registers

def tick (r : Registers) : Registers := { r with accesses := r.accesses + 1 }

/-- One write of a compare register. -/
def store (r : Registers) (index : Nat) (value : BitVec 64) : Registers where
  accesses := r.accesses + 1
  compare := Function.update r.compare index value
  passed := Function.update r.compare index value :: r.passed

def storeLow (r : Registers) (index : Nat) (word : BitVec 32) : Registers :=
  r.store index (ofHalves (highHalf (r.compare index)) word)

def storeHigh (r : Registers) (index : Nat) (word : BitVec 32) : Registers :=
  r.store index (ofHalves word (lowHalf (r.compare index)))

end Registers

/-- 64-bit registers from an address on: the counter at one of them, if any,
and compare registers at the others. The counter has the value `mtime k` at
access `k`. -/
def timerDevice (base : Nat) (counter : Option Nat) (mtime : Nat → BitVec 64) : Device Registers where
  readVolatile address size r :=
    let index := (address - base) / 8
    let value := if counter = some index then mtime r.accesses else r.compare index
    (if size = 8 then value.toNat
      else if (address - base) % 8 = 0 then (lowHalf value).toNat
      else (highHalf value).toNat, r.tick)
  writeVolatile address size value r :=
    let index := (address - base) / 8
    if counter = some index then r.tick
    else if size = 8 then r.store index (BitVec.ofNat 64 value)
    else if (address - base) % 8 = 0 then r.storeLow index (BitVec.ofNat 32 value)
    else r.storeHigh index (BitVec.ofNat 32 value)

namespace Stimecmp

/-- `csrw` of `stimecmp`, or of 0x15d, its high half. -/
def csrw (csr : Nat) (word : BitVec 32) : Program Registers PUnit :=
  modify fun r => if csr = 0x15d then r.storeHigh 0 word else r.storeLow 0 word

/-- `stimecmp::set`. -/
def set : Xlen → BitVec 64 → Program Registers PUnit
  | .rv64, value => modify fun r => r.store 0 value
  | .rv32, value => splitWrite csrw 0x14d 0x15d value

end Stimecmp

/-! ## Halves -/

section Halves

variable {high low : BitVec 32} {value : BitVec 64}

@[simp] theorem toNat_highHalf : (highHalf value).toNat = value.toNat / 2 ^ 32 := by
  have hlt := value.isLt
  rw [highHalf, BitVec.toNat_setWidth, BitVec.toNat_ushiftRight, Nat.shiftRight_eq_div_pow]
  omega

@[simp] theorem toNat_lowHalf : (lowHalf value).toNat = value.toNat % 2 ^ 32 :=
  BitVec.toNat_setWidth _ _

@[simp] theorem toNat_ofHalves : (ofHalves high low).toNat = join 32 high.toNat low.toNat := by
  have hhigh := high.isLt
  have hlow := low.isLt
  rw [ofHalves, BitVec.toNat_or, BitVec.toNat_shiftLeft, BitVec.toNat_setWidth, BitVec.toNat_setWidth,
    Nat.mod_eq_of_lt (by omega), Nat.mod_eq_of_lt (by omega), Nat.shiftLeft_eq,
    Nat.mod_eq_of_lt (by omega), ← Nat.shiftLeft_eq, ← Nat.shiftLeft_add_eq_or_of_lt hlow,
    Nat.shiftLeft_eq, join]

theorem ofHalves_highHalf_lowHalf : ofHalves (highHalf value) (lowHalf value) = value := by
  apply BitVec.eq_of_toNat_eq
  rw [toNat_ofHalves, toNat_highHalf, toNat_lowHalf, join_div_mod]

theorem highHalf_ofHalves : highHalf (ofHalves high low) = high := by
  apply BitVec.eq_of_toNat_eq
  rw [toNat_highHalf, toNat_ofHalves, join_div low.isLt]

theorem lowHalf_ofHalves : lowHalf (ofHalves high low) = low := by
  apply BitVec.eq_of_toNat_eq
  rw [toNat_lowHalf, toNat_ofHalves, join_mod low.isLt]

theorem highHalf_eq_iff {value' : BitVec 64} :
    highHalf value = highHalf value' ↔ value.toNat / 2 ^ 32 = value'.toNat / 2 ^ 32 := by
  rw [← BitVec.toNat_inj, toNat_highHalf, toNat_highHalf]

end Halves

/-! ## Reading -/

/-- The value returned is one that the counter had at an access of the call. -/
def SafeRead (mtime : Nat → BitVec 64) (read : Program Registers (Option (BitVec 64))) : Prop :=
  ∀ r, Returns read r fun value r' =>
    ∃ k, r.accesses ≤ k ∧ k < r'.accesses ∧ value = some (mtime k)

section Read

variable {mtime : Nat → BitVec 64} {readWord : Nat → Program Registers (BitVec 32)}
  {lowOffset highOffset : Nat}

theorem returns_splitRead
    (hlow : ∀ r, readWord lowOffset r = .ok (lowHalf (mtime r.accesses), r.tick))
    (hhigh : ∀ r, readWord highOffset r = .ok (highHalf (mtime r.accesses), r.tick))
    (hmono : Monotone fun k => (mtime k).toNat) {rounds j : Nat} {r : Registers}
    (h : stableRound 32 (fun k => (mtime k).toNat) rounds r.accesses = some j) :
    Returns (splitRead readWord lowOffset highOffset rounds) r fun value r' =>
      value = some (mtime (j + 1)) ∧ r'.accesses = j + 3 := by
  induction rounds generalizing r with
  | zero => cases h
  | succ rounds ih =>
    rw [splitRead, returns_bind, returns_iff_of_ok (hhigh r), returns_bind,
      returns_iff_of_ok (hlow r.tick), returns_bind, returns_iff_of_ok (hhigh r.tick.tick), returns_ite]
    rw [stableRound] at h
    simp only [Registers.tick, highHalf_eq_iff]
    split at h
    · rename_i hstable
      cases h
      rw [if_pos hstable, returns_pure]
      refine ⟨congrArg some (BitVec.eq_of_toNat_eq ?_), rfl⟩
      rw [toNat_ofHalves, toNat_highHalf, toNat_lowHalf]
      exact join_eq_of_stable hmono hstable
    · rename_i hchanged
      rw [if_neg hchanged]
      exact ih h

/-- 2³² rounds are enough: the high half cannot grow more often. -/
theorem safeRead_splitRead
    (hlow : ∀ r, readWord lowOffset r = .ok (lowHalf (mtime r.accesses), r.tick))
    (hhigh : ∀ r, readWord highOffset r = .ok (highHalf (mtime r.accesses), r.tick))
    (hmono : Monotone fun k => (mtime k).toNat) :
    SafeRead mtime (splitRead readWord lowOffset highOffset (2 ^ 32)) := by
  intro r
  obtain ⟨j, hj⟩ := exists_stableRound (w := 32) (v := 32) hmono (fun k => (mtime k).isLt) r.accesses
  obtain ⟨hle, -, -⟩ := stableRound_spec hj
  refine (returns_splitRead hlow hhigh hmono hj).mono fun value r' ⟨hvalue, haccesses⟩ => ?_
  exact ⟨j + 1, by omega, by omega, hvalue⟩

end Read

/-! ## Writing -/

/-- The compare register ends with the new value, every value that it passes
through is at least the smaller of the old and the new one, and no other
compare register changes. -/
structure Reprogrammed (r r' : Registers) (index : Nat) (value : BitVec 64) : Prop where
  final : r'.compare = Function.update r.compare index value
  passed : ∃ states, r'.passed = states ++ r.passed ∧ ∀ compare ∈ states,
    min (r.compare index).toNat value.toNat ≤ (compare index).toNat ∧
      ∀ other, other ≠ index → compare other = r.compare other

/-- Every compare value can replace any other one without an early interrupt. -/
def SafeWrite (index : Nat) (write : BitVec 64 → Program Registers PUnit) : Prop :=
  ∀ r value, Returns (write value) r fun _ r' => Reprogrammed r r' index value

section Write

variable {index : Nat} {r : Registers} {value : BitVec 64}

theorem Reprogrammed.store : Reprogrammed r (r.store index value) index value where
  final := rfl
  passed := by
    refine ⟨[Function.update r.compare index value], rfl, fun compare hmem => ?_⟩
    rw [List.mem_singleton.mp hmem]
    refine ⟨?_, fun other hother => Function.update_of_ne hother _ _⟩
    rw [Function.update_self]
    exact min_le_right _ _

/-- The compare values of the three writes. -/
theorem Reprogrammed.split : Reprogrammed r
    (((r.storeLow index 0xFFFFFFFF#32).storeHigh index (highHalf value)).storeLow index (lowHalf value))
    index value := by
  have hraised : (r.compare index).toNat ≤
      (ofHalves (highHalf (r.compare index)) 0xFFFFFFFF#32).toNat := by
    rw [toNat_ofHalves, toNat_highHalf]
    exact le_join_max 32 _
  have hhigh : value.toNat ≤ (ofHalves (highHalf value) 0xFFFFFFFF#32).toNat := by
    rw [toNat_ofHalves, toNat_highHalf]
    exact le_join_max 32 _
  simp only [Registers.storeLow, Registers.storeHigh, Registers.store, Function.update_self,
    Function.update_idem, lowHalf_ofHalves, highHalf_ofHalves, ofHalves_highHalf_lowHalf]
  refine ⟨rfl, [_, _, _], rfl, fun compare hmem => ?_⟩
  have hother : ∀ x, ∀ other, other ≠ index → Function.update r.compare index x other = r.compare other :=
    fun x other hne => Function.update_of_ne hne _ _
  simp only [List.mem_cons, List.not_mem_nil, or_false] at hmem
  rcases hmem with rfl | rfl | rfl
  · rw [Function.update_self]
    exact ⟨min_le_right _ _, hother _⟩
  · rw [Function.update_self]
    exact ⟨(min_le_right _ _).trans hhigh, hother _⟩
  · rw [Function.update_self]
    exact ⟨(min_le_left _ _).trans hraised, hother _⟩

theorem safeWrite_splitWrite {writeWord : Nat → BitVec 32 → Program Registers PUnit}
    {lowOffset highOffset : Nat}
    (hlow : ∀ r word, writeWord lowOffset word r = .ok (⟨⟩, r.storeLow index word))
    (hhigh : ∀ r word, writeWord highOffset word r = .ok (⟨⟩, r.storeHigh index word)) :
    SafeWrite index (splitWrite writeWord lowOffset highOffset) := by
  intro r value
  rw [splitWrite, returns_bind, returns_iff_of_ok (hlow r _), returns_bind,
    returns_iff_of_ok (hhigh _ _), returns_iff_of_ok (hlow _ _)]
  exact .split

end Write

/-! ## Words of the device -/

section Device

variable {registers : MmioRegion xlen} {counter : Option Nat} {mtime : Nat → BitVec 64}
  {offset index : Nat}

/-- The device behind a window. -/
abbrev timerAt (registers : MmioRegion xlen) (counter : Option Nat) (mtime : Nat → BitVec 64) :
    Device Registers :=
  timerDevice registers.range.start counter mtime

theorem readRegister_eq {t : MmioValue xlen} {device : Device σ} {s : σ}
    (hinside : registers.range.start + offset + t.size ≤ registers.range.stop)
    (haligned : (registers.range.start + offset) % t.size = 0) :
    readRegister registers device t offset s =
      .ok (device.readVolatile (registers.range.start + offset) t.size s) := by
  rw [readRegister, MmioRegion.read, checkedAddress_eq hinside haligned]

theorem writeRegister_eq {t : MmioValue xlen} {device : Device σ} {s : σ} {value : Nat}
    (hinside : registers.range.start + offset + t.size ≤ registers.range.stop)
    (haligned : (registers.range.start + offset) % t.size = 0) :
    writeRegister registers device t offset value s =
      .ok (⟨⟩, device.writeVolatile (registers.range.start + offset) t.size value s) := by
  rw [writeRegister, MmioRegion.write, checkedAddress_eq hinside haligned]

theorem readWord_eq {device : Device σ} {s : σ}
    (hinside : registers.range.start + offset + 4 ≤ registers.range.stop)
    (haligned : (registers.range.start + offset) % 4 = 0) :
    readWord registers device offset s =
      .ok (BitVec.ofNat 32 (device.readVolatile (registers.range.start + offset) 4 s).1,
        (device.readVolatile (registers.range.start + offset) 4 s).2) := by
  have hread : readRegister registers device .u32 offset s =
      .ok (device.readVolatile (registers.range.start + offset) 4 s) :=
    readRegister_eq hinside haligned
  change (readRegister registers device .u32 offset s >>= fun x => .ok (BitVec.ofNat 32 x.1, x.2)) = _
  rw [hread]
  rfl

theorem readWord_low (hcounter : counter = some (offset / 8)) (hlow : offset % 8 = 0)
    (hinside : registers.range.start + offset + 4 ≤ registers.range.stop)
    (haligned : registers.range.start % 4 = 0) (r : Registers) :
    readWord registers (timerAt registers counter mtime) offset r =
      .ok (lowHalf (mtime r.accesses), r.tick) := by
  rw [readWord_eq hinside (by omega)]
  simp [timerDevice, hcounter, hlow, -toNat_lowHalf]

theorem readWord_high (hcounter : counter = some (offset / 8)) (hhigh : offset % 8 = 4)
    (hinside : registers.range.start + offset + 4 ≤ registers.range.stop)
    (haligned : registers.range.start % 4 = 0) (r : Registers) :
    readWord registers (timerAt registers counter mtime) offset r =
      .ok (highHalf (mtime r.accesses), r.tick) := by
  rw [readWord_eq hinside (by omega)]
  simp [timerDevice, hcounter, hhigh, -toNat_highHalf]

theorem writeWord_low (hcounter : counter ≠ some (offset / 8)) (hlow : offset % 8 = 0)
    (hinside : registers.range.start + offset + 4 ≤ registers.range.stop)
    (haligned : registers.range.start % 4 = 0) (r : Registers) (word : BitVec 32) :
    writeWord registers (timerAt registers counter mtime) offset word r =
      .ok (⟨⟩, r.storeLow (offset / 8) word) := by
  rw [writeWord, writeRegister_eq hinside (by change (_ + _) % 4 = 0; omega)]
  simp [timerDevice, hcounter, hlow, MmioValue.size]

theorem writeWord_high (hcounter : counter ≠ some (offset / 8)) (hhigh : offset % 8 = 4)
    (hinside : registers.range.start + offset + 4 ≤ registers.range.stop)
    (haligned : registers.range.start % 4 = 0) (r : Registers) (word : BitVec 32) :
    writeWord registers (timerAt registers counter mtime) offset word r =
      .ok (⟨⟩, r.storeHigh (offset / 8) word) := by
  rw [writeWord, writeRegister_eq hinside (by change (_ + _) % 4 = 0; omega)]
  simp [timerDevice, hcounter, hhigh, MmioValue.size]

/-- A split write of the compare register at an offset of the window. -/
theorem safeWrite_window {index : Nat} (hoffset : offset = 8 * index) (hcounter : counter ≠ some index)
    (hinside : registers.range.start + offset + 8 ≤ registers.range.stop)
    (haligned : registers.range.start % 4 = 0) :
    SafeWrite index (splitWrite (writeWord registers (timerAt registers counter mtime)) offset
      (offset + 4)) := by
  have hlow : offset / 8 = index := by omega
  have hhigh : (offset + 4) / 8 = index := by omega
  refine safeWrite_splitWrite (fun r word => ?_) (fun r word => ?_)
  · rw [writeWord_low (hlow.symm ▸ hcounter) (by omega) (by omega) haligned, hlow]
  · rw [writeWord_high (hhigh.symm ▸ hcounter) (by omega) (by omega) haligned, hhigh]

end Device

/-! ## Bound drivers -/

section Bound

variable {registers : DeviceRegisterRange xlen} {memory memory' : MemoryRegistry xlen}
  {mtime : Nat → BitVec 64}

/-- The window that `sifive::bind` acquires for the timer. -/
theorem SiFive.window_of_bind {timer : SiFiveTimer xlen} {ipi : SiFiveIpi xlen}
    (h : SiFive.bind registers memory = (.ok (timer, ipi), memory')) :
    timer.registers.range.start % 8 = 0 ∧
      timer.registers.range.stop = timer.registers.range.start + 0x8000 := by
  simp only [SiFive.bind, binding_bind_eq_ok_iff, binding_lift_eq_ok_iff] at h
  obtain ⟨ipiRegisters, _, ⟨-, rfl⟩, timerRegisters, _, ⟨hpart, rfl⟩, h⟩ := h
  split at h
  · exact (binding_throw_ne_ok h).elim
  · rename_i haligned
    simp only [binding_bind_eq_ok_iff, binding_pure_eq_ok_iff, Prod.mk.injEq] at h
    obtain ⟨_, _, -, timerMmio, _, hacquire, ⟨rfl, -⟩, -⟩ := h
    obtain ⟨-, hstart, hstop, -⟩ := DeviceRegisterRange.subrange_eq_ok_iff.mp hpart
    rw [not_or, Bool.not_eq_false, Bool.not_eq_false] at haligned
    obtain ⟨-, hdvd, -⟩ := DeviceRegisterRange.hasAlignedBounds_iff.mp haligned.2
    rw [range_of_acquire hacquire]
    refine ⟨Nat.mod_eq_zero_of_dvd hdvd, ?_⟩
    rw [hstop, hstart]
    rfl

/-- The window that `thead::bind` acquires for the compare registers. -/
theorem THead.window_of_bind {timer : THeadTimer xlen} {ipi : THeadIpi xlen}
    (h : THead.bind registers memory = (.ok (timer, ipi), memory')) :
    timer.mtimecmp.range.start % 4 = 0 ∧
      timer.mtimecmp.range.stop = timer.mtimecmp.range.start + 8 * numHartMax := by
  simp only [THead.bind, binding_bind_eq_ok_iff, binding_lift_eq_ok_iff] at h
  obtain ⟨msipRegisters, _, ⟨-, rfl⟩, mtimecmpRegisters, _, ⟨hpart, rfl⟩, h⟩ := h
  split at h
  · exact (binding_throw_ne_ok h).elim
  · rename_i haligned
    simp only [binding_bind_eq_ok_iff, binding_pure_eq_ok_iff, Prod.mk.injEq] at h
    obtain ⟨_, _, -, mtimecmpMmio, _, hacquire, ⟨rfl, -⟩, -⟩ := h
    obtain ⟨-, hstart, hstop, -⟩ := DeviceRegisterRange.subrange_eq_ok_iff.mp hpart
    rw [not_or, Bool.not_eq_false, Bool.not_eq_false] at haligned
    obtain ⟨-, hdvd, -⟩ := DeviceRegisterRange.hasAlignedBounds_iff.mp haligned.2
    rw [range_of_acquire hacquire]
    exact ⟨Nat.mod_eq_zero_of_dvd hdvd, by rw [hstop, hstart, Nat.mul_comm]⟩

/-- The window that `plmt::bind` acquires. -/
theorem Plmt.window_of_bind {plmt : Plmt xlen} {hartCount : Nat}
    (h : Plmt.bind registers hartCount memory = (.ok plmt, memory')) :
    plmt.registers.range.start % 8 = 0 ∧
      plmt.registers.range.stop = plmt.registers.range.start + (8 + 8 * plmt.hartCount) ∧
      plmt.hartCount = hartCount ∧ hartCount ≠ 0 := by
  rw [Plmt.bind] at h
  split at h
  · exact (binding_throw_ne_ok h).elim
  · rename_i hcount
    simp only [binding_bind_eq_ok_iff, binding_lift_eq_ok_iff] at h
    obtain ⟨window, _, ⟨hpart, rfl⟩, h⟩ := h
    split at h
    · exact (binding_throw_ne_ok h).elim
    · rename_i haligned
      simp only [binding_bind_eq_ok_iff, binding_pure_eq_ok_iff] at h
      obtain ⟨mmio, _, hacquire, rfl, -⟩ := h
      obtain ⟨-, hstart, hstop, -⟩ := DeviceRegisterRange.subrange_eq_ok_iff.mp hpart
      rw [Bool.not_eq_false] at haligned
      obtain ⟨-, hdvd, -⟩ := DeviceRegisterRange.hasAlignedBounds_iff.mp haligned
      rw [range_of_acquire hacquire]
      refine ⟨Nat.mod_eq_zero_of_dvd hdvd, ?_, rfl, fun hzero => hcount (.inl hzero)⟩
      rw [hstop, hstart]
      rfl

end Bound

/-! ## Safe drivers -/

section Safe

variable {mtime : Nat → BitVec 64} {hartId : Nat}

theorem SiFiveTimer.safeRead {timer : SiFiveTimer xlen}
    (haligned : timer.registers.range.start % 8 = 0)
    (hstop : timer.registers.range.stop = timer.registers.range.start + 0x8000)
    (hmono : Monotone fun k => (mtime k).toNat) :
    SafeRead mtime (timer.read (timerAt timer.registers (some 0xfff) mtime) .mtime (2 ^ 32)) := by
  have hoffset : SiFive.TimerRegister.mtime.offset = 0x7ff8 := rfl
  cases xlen with
  | rv32 =>
    refine safeRead_splitRead (readWord_low rfl rfl ?_ ?_) (readWord_high rfl rfl ?_ ?_) hmono
    all_goals omega
  | rv64 =>
    intro r
    have hread : readRegister timer.registers (timerAt timer.registers (some 0xfff) mtime) .u64
        SiFive.TimerRegister.mtime.offset r = .ok ((mtime r.accesses).toNat, r.tick) := by
      rw [readRegister_eq (by simp only [MmioValue.size]; omega) (by simp only [MmioValue.size]; omega)]
      simp [timerDevice, hoffset, MmioValue.size]
    rw [SiFiveTimer.read, returns_bind, returns_iff_of_ok hread, returns_pure]
    exact ⟨r.accesses, le_rfl, Nat.lt_succ_self _, by simp⟩

theorem SiFiveTimer.safeWrite {timer : SiFiveTimer xlen}
    (haligned : timer.registers.range.start % 8 = 0)
    (hstop : timer.registers.range.stop = timer.registers.range.start + 0x8000)
    (hhart : hartId < numHartMax) :
    SafeWrite hartId (timer.writeMtimecmp (timerAt timer.registers (some 0xfff) mtime) hartId) := by
  have hmax : numHartMax = 8 := rfl
  have hoffset : SiFive.TimerRegister.mtimecmp.offset + hartId * 8 = 8 * hartId := by
    rw [SiFive.TimerRegister.offset, Nat.zero_add, Nat.mul_comm]
  have hne : 0xfff ≠ hartId := by omega
  have hcounter : some 0xfff ≠ some hartId := fun h => hne (Option.some.inj h)
  intro r value
  cases xlen with
  | rv32 =>
    rw [SiFiveTimer.writeMtimecmp, SiFive.TimerRegister.mtimecmpOffsetForHart, if_pos hhart, pure_bind]
    exact safeWrite_window hoffset hcounter (by omega) (by omega) r value
  | rv64 =>
    have hwrite : writeRegister timer.registers (timerAt timer.registers (some 0xfff) mtime) .u64
        (8 * hartId) value.toNat r = .ok (⟨⟩, r.store hartId value) := by
      rw [writeRegister_eq (by simp only [MmioValue.size]; omega) (by simp only [MmioValue.size]; omega)]
      simp [timerDevice, hne, MmioValue.size]
    rw [SiFiveTimer.writeMtimecmp, SiFive.TimerRegister.mtimecmpOffsetForHart, if_pos hhart, pure_bind,
      hoffset, returns_iff_of_ok hwrite]
    exact .store

theorem THeadTimer.safeWrite {timer : THeadTimer xlen} (haligned : timer.mtimecmp.range.start % 4 = 0)
    (hstop : timer.mtimecmp.range.stop = timer.mtimecmp.range.start + 8 * numHartMax)
    (hhart : hartId < numHartMax) :
    SafeWrite hartId (timer.setMtimecmp (timerAt timer.mtimecmp none mtime) hartId) := by
  intro r value
  have hsplit : timer.setMtimecmp (timerAt timer.mtimecmp none mtime) hartId value =
      splitWrite (writeWord timer.mtimecmp (timerAt timer.mtimecmp none mtime)) (hartId * 8 + 0)
        (hartId * 8 + 4) value := by
    simp only [THeadTimer.setMtimecmp, THeadTimer.write, THead.TimerRegister.offsetForHart, if_pos hhart,
      pure_bind, THead.TimerRegister.offset, splitWrite]
  rw [hsplit]
  exact safeWrite_window (by omega) (Option.some_ne_none _).symm (by omega) haligned r value

theorem Plmt.safeRead {plmt : Plmt xlen} (haligned : plmt.registers.range.start % 8 = 0)
    (hstop : plmt.registers.range.stop = plmt.registers.range.start + (8 + 8 * plmt.hartCount))
    (hmono : Monotone fun k => (mtime k).toNat) :
    SafeRead mtime (plmt.readTime (timerAt plmt.registers (some 0) mtime) (2 ^ 32)) := by
  have hlow : Register.counterLow.offset = 0 := rfl
  have hhigh : Register.counterHigh.offset = 4 := rfl
  refine safeRead_splitRead (readWord_low rfl rfl ?_ ?_) (readWord_high rfl rfl ?_ ?_) hmono
  all_goals omega

theorem Plmt.safeWrite {plmt : Plmt xlen} (haligned : plmt.registers.range.start % 8 = 0)
    (hstop : plmt.registers.range.stop = plmt.registers.range.start + (8 + 8 * plmt.hartCount))
    (hhart : hartId < plmt.hartCount) :
    SafeWrite (hartId + 1) (plmt.setTimer (timerAt plmt.registers (some 0) mtime) hartId) := by
  intro r value
  have hsplit : plmt.setTimer (timerAt plmt.registers (some 0) mtime) hartId value =
      splitWrite (writeWord plmt.registers (timerAt plmt.registers (some 0) mtime)) (0x08 + 8 * hartId)
        (0x08 + 8 * hartId + 4) value := by
    simp only [Plmt.setTimer, if_pos hhart, Plmt.writeCompareWord, Register.offset, splitWrite,
      Nat.add_right_comm, Nat.reduceAdd]
  rw [hsplit]
  exact safeWrite_window (by omega) (by simp) (by omega) (by omega) r value

/-- `stimecmp` is one compare register. -/
theorem Stimecmp.safeWrite : SafeWrite 0 (Stimecmp.set xlen) := by
  cases xlen with
  | rv64 =>
    intro r value
    rw [Stimecmp.set, returns_modify]
    exact .store
  | rv32 => exact safeWrite_splitWrite (fun r word => rfl) (fun r word => rfl)

end Safe

/-- Split accesses of the 64-bit timer registers are safe, whenever the counter
ticks: a read returns a value that the counter had during the call, after at
most 2³² rounds, and a compare value is replaced without passing through one
that is below both the old and the new value. The counter is any monotone one,
and the accesses are made at any moments in order. -/
theorem split_timer_access_safe {Time : Type} [Preorder Time] {counter : Time → BitVec 64}
    {moment : Nat → Time} (hcounter : Monotone fun t => (counter t).toNat) (hmoment : Monotone moment)
    (xlen : Xlen) (registers : DeviceRegisterRange xlen) (memory : MemoryRegistry xlen) :
    (∀ timer ipi memory', SiFive.bind registers memory = (.ok (timer, ipi), memory') →
      let device := timerAt timer.registers (some 0xfff) (counter ∘ moment)
      SafeRead (counter ∘ moment) (timer.read device .mtime (2 ^ 32)) ∧
      ∀ hartId < numHartMax, SafeWrite hartId (timer.writeMtimecmp device hartId)) ∧
    (∀ timer ipi memory', THead.bind registers memory = (.ok (timer, ipi), memory') →
      ∀ hartId < numHartMax,
        SafeWrite hartId (timer.setMtimecmp (timerAt timer.mtimecmp none (counter ∘ moment)) hartId)) ∧
    (∀ hartCount plmt memory', Plmt.bind registers hartCount memory = (.ok plmt, memory') →
      let device := timerAt plmt.registers (some 0) (counter ∘ moment)
      SafeRead (counter ∘ moment) (plmt.readTime device (2 ^ 32)) ∧
      ∀ hartId < hartCount, SafeWrite (hartId + 1) (plmt.setTimer device hartId)) ∧
    SafeWrite 0 (Stimecmp.set xlen) := by
  have hmono : Monotone fun k => ((counter ∘ moment) k).toNat := hcounter.comp hmoment
  refine ⟨fun timer ipi memory' hbind => ?_, fun timer ipi memory' hbind hartId hhart => ?_,
    fun hartCount plmt memory' hbind => ?_, Stimecmp.safeWrite⟩
  · obtain ⟨haligned, hstop⟩ := SiFive.window_of_bind hbind
    exact ⟨SiFiveTimer.safeRead haligned hstop hmono,
      fun hartId hhart => SiFiveTimer.safeWrite haligned hstop hhart⟩
  · obtain ⟨haligned, hstop⟩ := THead.window_of_bind hbind
    exact THeadTimer.safeWrite haligned hstop hhart
  · obtain ⟨haligned, hstop, rfl, -⟩ := Plmt.window_of_bind hbind
    exact ⟨Plmt.safeRead haligned hstop hmono, fun hartId hhart => Plmt.safeWrite haligned hstop hhart⟩

/-- A counter whose low half overflows right after the first access. -/
def carryingCounter (k : Nat) : BitVec 64 :=
  if k = 0 then 0x1FFFFFFFF#64 else 0x200000000#64

def clintRegisters : DeviceRegisterRange .rv32 :=
  ⟨⟨0x2000000, 0x2010000, by decide, by decide⟩⟩

/-- The registry before and after the CLINT is bound. -/
def bootMemory (acquired : List (PhysAddrRange .rv32)) : MemoryRegistry .rv32 :=
  ⟨⟨0x80000000, 0x80010000, by decide, by decide⟩, [], [], acquired⟩

def ipiWindow : PhysAddrRange .rv32 := ⟨0x2000000, 0x2000020, by decide, by decide⟩

def timerWindow : PhysAddrRange .rv32 := ⟨0x2004000, 0x200c000, by decide, by decide⟩

theorem bind_clintRegisters : SiFive.bind clintRegisters (bootMemory []) =
    (.ok (⟨⟨timerWindow⟩⟩, ⟨⟨ipiWindow⟩⟩), bootMemory [ipiWindow, timerWindow]) := by
  have hipi : clintRegisters.subrange 0 (numHartMax * 4) = .ok ⟨ipiWindow⟩ :=
    DeviceRegisterRange.subrange_eq_ok_iff.mpr (by decide)
  have htimer : clintRegisters.subrange SiFive.mtimecmpOffset (SiFive.TimerRegister.mtime.offset + 8) =
      .ok ⟨timerWindow⟩ :=
    DeviceRegisterRange.subrange_eq_ok_iff.mpr (by decide)
  simp only [SiFive.bind, hipi, htimer]
  rfl

theorem split_timer_access_carry :
    let device := timerAt ⟨timerWindow⟩ (some 0xfff) carryingCounter
    SafeRead carryingCounter (SiFiveTimer.read ⟨⟨timerWindow⟩⟩ device .mtime (2 ^ 32)) ∧
      SafeWrite 3 (SiFiveTimer.writeMtimecmp ⟨⟨timerWindow⟩⟩ device 3) := by
  have hmono : Monotone fun k => (carryingCounter k).toNat := by
    intro a b hab
    by_cases ha : a = 0
    · by_cases hb : b = 0
      · simp [carryingCounter, ha, hb]
      · simp [carryingCounter, ha, hb]
    · have hb : b ≠ 0 := by omega
      simp [carryingCounter, ha, hb]
  obtain ⟨hsifive, -⟩ := split_timer_access_safe hmono monotone_id .rv32 clintRegisters (bootMemory [])
  obtain ⟨hread, hwrite⟩ := hsifive _ _ _ bind_clintRegisters
  exact ⟨hread, hwrite 3 (by decide)⟩

end RustSbi.Driver
