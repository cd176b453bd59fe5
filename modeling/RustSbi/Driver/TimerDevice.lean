import RustSbi.Driver.SplitTimer

/-!
The published timer device (`driver/timer.rs`): the backend selected for the
platform, and the single register writes with which each backend replaces a
compare value. The writes are what other harts and the counter interleave with,
so the drivers of `Driver.SplitTimer` are shown to be exactly these sequences.
-/

namespace RustSbi.Driver

open Memory Checked

variable {xlen : Xlen}

/-- The implementations of `TimerBackend`. -/
inductive TimerBackend
  | sifive
  | thead
  | plmt
  | sstc
  deriving DecidableEq, Repr

/-- `TimerBackend::clear_on_interrupt`. -/
def TimerBackend.clearOnInterrupt : TimerBackend → Bool
  | plmt => false
  | _ => true

/-- One write of a compare register, or of one of its halves. -/
inductive CompareWrite
  | whole (value : BitVec 64)
  | low (word : BitVec 32)
  | high (word : BitVec 32)
  deriving DecidableEq, Repr

/-- The register after the write. -/
def CompareWrite.apply (compare : BitVec 64) : CompareWrite → BitVec 64
  | whole value => value
  | low word => ofHalves (highHalf compare) word
  | high word => ofHalves word (lowHalf compare)

/-- The three writes of a register behind 32-bit accesses. -/
def splitWrites (value : BitVec 64) : List CompareWrite :=
  [.low 0xFFFFFFFF#32, .high (highHalf value), .low (lowHalf value)]

/-- The writes of `stimecmp::set`. -/
def stimecmpWrites : Xlen → BitVec 64 → List CompareWrite
  | .rv64, value => [.whole value]
  | .rv32, value => splitWrites value

/-- The writes of `TimerBackend::set_timer`. -/
def TimerBackend.compareWrites (xlen : Xlen) : TimerBackend → BitVec 64 → List CompareWrite
  | sifive, value | sstc, value => stimecmpWrites xlen value
  | thead, value | plmt, value => splitWrites value

/-- The register after a sequence of writes. -/
def afterWrites (compare : BitVec 64) (writes : List CompareWrite) : BitVec 64 :=
  writes.foldl CompareWrite.apply compare

@[simp] theorem afterWrites_nil (compare : BitVec 64) : afterWrites compare [] = compare := rfl

@[simp] theorem afterWrites_cons (compare : BitVec 64) (write : CompareWrite)
    (writes : List CompareWrite) :
    afterWrites compare (write :: writes) = afterWrites (write.apply compare) writes := rfl

@[simp] theorem afterWrites_splitWrites (compare value : BitVec 64) :
    afterWrites compare (splitWrites value) = value := by
  simp only [splitWrites, afterWrites_cons, afterWrites_nil, CompareWrite.apply, lowHalf_ofHalves,
    highHalf_ofHalves, ofHalves_highHalf_lowHalf]

@[simp] theorem afterWrites_stimecmpWrites (xlen : Xlen) (compare value : BitVec 64) :
    afterWrites compare (stimecmpWrites xlen value) = value := by
  cases xlen
  · exact afterWrites_splitWrites compare value
  · rfl

/-- Whatever the register held, the writes of a backend leave the new value. -/
@[simp] theorem afterWrites_compareWrites (backend : TimerBackend) (compare value : BitVec 64) :
    afterWrites compare (backend.compareWrites xlen value) = value := by
  cases backend <;> simp [TimerBackend.compareWrites]

/-! ## The drivers make these writes -/

/-- One write of the compare register at an index. -/
def Registers.perform (index : Nat) (r : Registers) : CompareWrite → Registers
  | .whole value => r.store index value
  | .low word => r.storeLow index word
  | .high word => r.storeHigh index word

theorem Registers.perform_compare (index : Nat) (r : Registers) (write : CompareWrite) :
    (r.perform index write).compare =
      Function.update r.compare index (write.apply (r.compare index)) := by
  cases write <;> rfl

section Drivers

variable {index : Nat} {r : Registers} {value : BitVec 64} {mtime : Nat → BitVec 64}

theorem splitWrite_eq {writeWord : Nat → BitVec 32 → Program Registers PUnit}
    {lowOffset highOffset : Nat}
    (hlow : ∀ r word, writeWord lowOffset word r = .ok (⟨⟩, r.storeLow index word))
    (hhigh : ∀ r word, writeWord highOffset word r = .ok (⟨⟩, r.storeHigh index word)) :
    splitWrite writeWord lowOffset highOffset value r =
      .ok (⟨⟩, (splitWrites value).foldl (Registers.perform index) r) := by
  change (writeWord lowOffset _ r >>= fun p => writeWord highOffset _ p.2 >>= fun q =>
    writeWord lowOffset _ q.2) = _
  rw [hlow]
  change (writeWord highOffset _ _ >>= fun q => writeWord lowOffset _ q.2) = _
  rw [hhigh]
  exact hlow _ _

/-- A split write of the compare register at an offset of a window. -/
theorem splitWrite_window {registers : MmioRegion xlen} {counter : Option Nat} {offset : Nat}
    (hoffset : offset = 8 * index) (hcounter : counter ≠ some index)
    (hinside : registers.range.start + offset + 8 ≤ registers.range.stop)
    (haligned : registers.range.start % 4 = 0) :
    splitWrite (writeWord registers (timerAt registers counter mtime)) offset (offset + 4) value r =
      .ok (⟨⟩, (splitWrites value).foldl (Registers.perform index) r) := by
  have hlow : offset / 8 = index := by omega
  have hhigh : (offset + 4) / 8 = index := by omega
  refine splitWrite_eq (fun r word => ?_) (fun r word => ?_)
  · rw [writeWord_low (hlow.symm ▸ hcounter) (by omega) (by omega) haligned, hlow]
  · rw [writeWord_high (hhigh.symm ▸ hcounter) (by omega) (by omega) haligned, hhigh]

variable {registers : DeviceRegisterRange xlen} {memory memory' : MemoryRegistry xlen} {hartId : Nat}

theorem SiFiveTimer.writeMtimecmp_eq {timer : SiFiveTimer xlen} {ipi : SiFiveIpi xlen}
    (hbind : SiFive.bind registers memory = (.ok (timer, ipi), memory')) (hhart : hartId < numHartMax) :
    timer.writeMtimecmp (timerAt timer.registers (some 0xfff) mtime) hartId value r =
      .ok (⟨⟩, (TimerBackend.sifive.compareWrites xlen value).foldl (Registers.perform hartId) r) := by
  obtain ⟨haligned, hstop⟩ := SiFive.window_of_bind hbind
  have hmax : numHartMax = 8 := rfl
  have hoffset : SiFive.TimerRegister.mtimecmp.offset + hartId * 8 = 8 * hartId := by
    rw [SiFive.TimerRegister.offset, Nat.zero_add, Nat.mul_comm]
  have hne : 0xfff ≠ hartId := by omega
  have hcounter : some 0xfff ≠ some hartId := fun h => hne (Option.some.inj h)
  cases xlen with
  | rv32 =>
    rw [SiFiveTimer.writeMtimecmp, SiFive.TimerRegister.mtimecmpOffsetForHart, if_pos hhart, pure_bind]
    exact splitWrite_window hoffset hcounter (by omega) (by omega)
  | rv64 =>
    rw [SiFiveTimer.writeMtimecmp, SiFive.TimerRegister.mtimecmpOffsetForHart, if_pos hhart, pure_bind,
      hoffset, writeRegister_eq (by simp only [MmioValue.size]; omega)
        (by simp only [MmioValue.size]; omega)]
    simp [timerDevice, hne, MmioValue.size, TimerBackend.compareWrites, stimecmpWrites,
      Registers.perform]

theorem THeadTimer.setMtimecmp_eq {timer : THeadTimer xlen} {ipi : THeadIpi xlen}
    (hbind : THead.bind registers memory = (.ok (timer, ipi), memory')) (hhart : hartId < numHartMax) :
    timer.setMtimecmp (timerAt timer.mtimecmp none mtime) hartId value r =
      .ok (⟨⟩, (TimerBackend.thead.compareWrites xlen value).foldl (Registers.perform hartId) r) := by
  obtain ⟨haligned, hstop⟩ := THead.window_of_bind hbind
  have hsplit : timer.setMtimecmp (timerAt timer.mtimecmp none mtime) hartId value =
      splitWrite (writeWord timer.mtimecmp (timerAt timer.mtimecmp none mtime)) (hartId * 8 + 0)
        (hartId * 8 + 4) value := by
    simp only [THeadTimer.setMtimecmp, THeadTimer.write, THead.TimerRegister.offsetForHart, if_pos hhart,
      pure_bind, THead.TimerRegister.offset, splitWrite]
  rw [hsplit]
  exact splitWrite_window (by omega) (Option.some_ne_none _).symm (by omega) haligned

/-- The compare registers of a PLMT start behind its counter. -/
theorem Plmt.setTimer_eq {plmt : Plmt xlen} {hartCount : Nat}
    (hbind : Plmt.bind registers hartCount memory = (.ok plmt, memory')) (hhart : hartId < hartCount) :
    plmt.setTimer (timerAt plmt.registers (some 0) mtime) hartId value r =
      .ok (⟨⟩, (TimerBackend.plmt.compareWrites xlen value).foldl (Registers.perform (hartId + 1)) r) := by
  obtain ⟨haligned, hstop, hcount, -⟩ := Plmt.window_of_bind hbind
  have hhart' : hartId < plmt.hartCount := hcount ▸ hhart
  have hsplit : plmt.setTimer (timerAt plmt.registers (some 0) mtime) hartId value =
      splitWrite (writeWord plmt.registers (timerAt plmt.registers (some 0) mtime)) (0x08 + 8 * hartId)
        (0x08 + 8 * hartId + 4) value := by
    simp only [Plmt.setTimer, if_pos hhart', Plmt.writeCompareWord, Register.offset, splitWrite,
      Nat.add_right_comm, Nat.reduceAdd]
  rw [hsplit]
  exact splitWrite_window (by omega) (by simp) (by omega) (by omega)

theorem Stimecmp.set_eq : Stimecmp.set xlen value r =
    .ok (⟨⟩, (stimecmpWrites xlen value).foldl (Registers.perform 0) r) := by
  cases xlen with
  | rv64 => rfl
  | rv32 => exact splitWrite_eq (fun r word => rfl) (fun r word => rfl)

end Drivers

end RustSbi.Driver
