import RustSbi.Driver.SplitTimer
import RustSbi.Sbi.SupervisorIpi

/-!
The machine software interrupts of a CLINT (`driver/clint`): both layouts keep
one 32-bit `MSIP` register for each hart, and `send_ipi` writes those of the
targets one after another until a write fails. The window that the driver has
acquired holds the registers of `NUM_HART_MAX` harts and no other.
-/

namespace RustSbi.Driver

open Ipi Memory SupervisorIpi

variable {xlen : Xlen} {σ : Type}

/-- `IpiError`. -/
inductive IpiError
  | failed
  deriving DecidableEq, Repr

/-! ## Sending to several targets -/

/-- The loop of `send_ipi`: it signals one target after another and gives up at
the first that fails. -/
def signalEach (signal : Nat → σ → Except IpiError Unit × σ) :
    List Nat → σ → Except IpiError Unit × σ
  | [], s => (.ok (), s)
  | hartId :: harts, s =>
    match signal hartId s with
    | (.error e, s') => (.error e, s')
    | (.ok (), s') => signalEach signal harts s'

/-- A signal that reaches the harts of `reach` and leaves the device alone when it fails. -/
def Signals (signal : Nat → σ → Except IpiError Unit × σ) (reach : Nat → Bool)
    (raise : Nat → σ → σ) : Prop :=
  ∀ hartId s, signal hartId s =
    if reach hartId then (.ok (), raise hartId s) else (.error .failed, s)

/-- All targets before the first that cannot be reached are signalled, in order. -/
theorem signalEach_eq {signal : Nat → σ → Except IpiError Unit × σ} {reach : Nat → Bool}
    {raise : Nat → σ → σ} (hsignal : Signals signal reach raise) (harts : List Nat) (s : σ) :
    signalEach signal harts s =
      (if harts.all reach then .ok () else .error .failed,
        (harts.takeWhile reach).foldl (fun s hartId => raise hartId s) s) := by
  induction harts generalizing s with
  | nil => rfl
  | cons hartId harts ih =>
    rw [signalEach, hsignal]
    cases hreach : reach hartId with
    | false => simp [hreach]
    | true => simp [hreach, ih]

/-! ## The registers -/

/-- `IpiState::Clear`. -/
def ipiStateClear : BitVec 32 := 0#32

/-- `IpiState::Pending`. -/
def ipiStatePending : BitVec 32 := 1#32

/-- `IpiRegister::offset_for_hart`. -/
def msipOffsetForHart (xlen : Xlen) (hartId : Nat) : Except IpiError Nat :=
  if hartId * 4 < xlen.words then .ok (0 + hartId * 4) else .error .failed

/-- The `write` of both drivers. -/
def writeMsip (registers : MmioRegion xlen) (device : Device σ) (hartId : Nat) (value : BitVec 32)
    (s : σ) : Except IpiError Unit × σ :=
  match msipOffsetForHart xlen hartId with
  | .error e => (.error e, s)
  | .ok offset =>
    match registers.write .u32 offset value.toNat device s with
    | (.error _, s') => (.error .failed, s')
    | (.ok (), s') => (.ok (), s')

/-- `SiFiveIpi::send_ipi`, for the harts of the request. -/
def SiFiveIpi.sendIpi (ipi : SiFiveIpi xlen) (device : Device σ) (harts : List Nat) (s : σ) :
    Except IpiError Unit × σ :=
  signalEach (fun hartId => writeMsip ipi.registers device hartId ipiStatePending) harts s

/-- `SiFiveIpi::clear_ipi`. -/
def SiFiveIpi.clearIpi (ipi : SiFiveIpi xlen) (device : Device σ) (hartId : Nat) (s : σ) :
    Except IpiError Unit × σ :=
  writeMsip ipi.registers device hartId ipiStateClear s

/-- `THeadIpi::send_ipi`, for the harts of the request. -/
def THeadIpi.sendIpi (ipi : THeadIpi xlen) (device : Device σ) (harts : List Nat) (s : σ) :
    Except IpiError Unit × σ :=
  signalEach (fun hartId => writeMsip ipi.msip device hartId ipiStatePending) harts s

/-- `THeadIpi::clear_ipi`. -/
def THeadIpi.clearIpi (ipi : THeadIpi xlen) (device : Device σ) (hartId : Nat) (s : σ) :
    Except IpiError Unit × σ :=
  writeMsip ipi.msip device hartId ipiStateClear s

/-- A CLINT whose `MSIP` registers start at an address, by the hart of each register. -/
def msipDevice (base : Nat) : Device (Nat → BitVec 32) where
  readVolatile address _ msip := ((msip ((address - base) / 4)).toNat, msip)
  writeVolatile address _ value msip :=
    Function.update msip ((address - base) / 4) (BitVec.ofNat 32 value)

/-- A window of exactly the `MSIP` registers of all harts. -/
structure MsipWindow (registers : MmioRegion xlen) : Prop where
  aligned : registers.range.start % 4 = 0
  stop : registers.range.stop = registers.range.start + numHartMax * 4

theorem SiFive.msipWindow_of_bind {registers : DeviceRegisterRange xlen}
    {memory memory' : MemoryRegistry xlen} {timer : SiFiveTimer xlen} {ipi : SiFiveIpi xlen}
    (h : SiFive.bind registers memory = (.ok (timer, ipi), memory')) : MsipWindow ipi.registers := by
  simp only [SiFive.bind, binding_bind_eq_ok_iff, binding_lift_eq_ok_iff] at h
  obtain ⟨ipiRegisters, _, ⟨hpart, rfl⟩, timerRegisters, _, ⟨-, rfl⟩, h⟩ := h
  split at h
  · exact (binding_throw_ne_ok h).elim
  · rename_i haligned
    simp only [binding_bind_eq_ok_iff, binding_pure_eq_ok_iff, Prod.mk.injEq] at h
    obtain ⟨ipiMmio, _, hacquire, _, _, -, ⟨-, rfl⟩, -⟩ := h
    obtain ⟨-, hstart, hstop, -⟩ := DeviceRegisterRange.subrange_eq_ok_iff.mp hpart
    rw [not_or, Bool.not_eq_false, Bool.not_eq_false] at haligned
    have hdvd := (DeviceRegisterRange.hasAlignedBounds_iff.mp haligned.1).2.1
    have hrange := range_of_acquire hacquire
    refine ⟨?_, ?_⟩
    · rw [hrange]
      exact Nat.mod_eq_zero_of_dvd hdvd
    · rw [hrange, hstop, hstart]

theorem THead.msipWindow_of_bind {registers : DeviceRegisterRange xlen}
    {memory memory' : MemoryRegistry xlen} {timer : THeadTimer xlen} {ipi : THeadIpi xlen}
    (h : THead.bind registers memory = (.ok (timer, ipi), memory')) : MsipWindow ipi.msip := by
  simp only [THead.bind, binding_bind_eq_ok_iff, binding_lift_eq_ok_iff] at h
  obtain ⟨msipRegisters, _, ⟨hpart, rfl⟩, mtimecmpRegisters, _, ⟨-, rfl⟩, h⟩ := h
  split at h
  · exact (binding_throw_ne_ok h).elim
  · rename_i haligned
    simp only [binding_bind_eq_ok_iff, binding_pure_eq_ok_iff, Prod.mk.injEq] at h
    obtain ⟨msipMmio, _, hacquire, _, _, -, ⟨-, rfl⟩, -⟩ := h
    obtain ⟨-, hstart, hstop, -⟩ := DeviceRegisterRange.subrange_eq_ok_iff.mp hpart
    rw [not_or, Bool.not_eq_false, Bool.not_eq_false] at haligned
    have hdvd := (DeviceRegisterRange.hasAlignedBounds_iff.mp haligned.1).2.1
    have hrange := range_of_acquire hacquire
    refine ⟨?_, ?_⟩
    · rw [hrange]
      exact Nat.mod_eq_zero_of_dvd hdvd
    · rw [hrange, hstop, hstart]

/-- A write reaches the register of every hart of the table, and no write leaves the window. -/
theorem writeMsip_eq {registers : MmioRegion xlen} (hwindow : MsipWindow registers) (hartId : Nat)
    (value : BitVec 32) (msip : Nat → BitVec 32) :
    writeMsip registers (msipDevice registers.range.start) hartId value msip =
      if hartId < numHartMax then (.ok (), Function.update msip hartId value)
      else (.error .failed, msip) := by
  obtain ⟨haligned, hstop⟩ := hwindow
  have hlt := registers.range.stop_lt_words
  by_cases hhart : hartId < numHartMax
  · have hinside : registers.range.start + (0 + hartId * 4) + 4 ≤ registers.range.stop := by omega
    have hoffset : msipOffsetForHart xlen hartId = .ok (0 + hartId * 4) :=
      if_pos (by omega)
    have hindex : (registers.range.start + (0 + hartId * 4) - registers.range.start) / 4 = hartId := by
      omega
    rw [if_pos hhart, writeMsip, hoffset]
    simp only [MmioRegion.write, checkedAddress_eq (t := .u32) hinside
      (by simp only [MmioValue.size]; omega)]
    simp only [msipDevice, hindex, BitVec.ofNat_toNat, BitVec.setWidth_eq]
  · rw [if_neg hhart, writeMsip]
    by_cases hword : hartId * 4 < xlen.words
    · rw [msipOffsetForHart, if_pos hword]
      have houtside : registers.range.stop < registers.range.start + (0 + hartId * 4) +
          (MmioValue.u32 : MmioValue xlen).size := by
        simp only [MmioValue.size]
        omega
      obtain ⟨e, he⟩ := checkedAddress_outside houtside
      simp only [MmioRegion.write, he]
    · rw [msipOffsetForHart, if_neg hword]

/-! ## What a request does -/

/-- The registers when the interrupts of a list of harts are raised. -/
def raiseAll (msip : Nat → BitVec 32) (harts : List Nat) : Nat → BitVec 32 :=
  harts.foldl (fun msip hartId => Function.update msip hartId ipiStatePending) msip

theorem raiseAll_apply (msip : Nat → BitVec 32) (harts : List Nat) (hartId : Nat) :
    raiseAll msip harts hartId = if hartId ∈ harts then ipiStatePending else msip hartId := by
  induction harts generalizing msip with
  | nil => simp [raiseAll]
  | cons h harts ih =>
    rw [raiseAll, List.foldl_cons, ← raiseAll, ih, Function.update_apply]
    by_cases hmem : hartId ∈ harts
    · simp [hmem]
    · by_cases hh : hartId = h <;> simp [hmem, hh]

theorem signals_msip {registers : MmioRegion xlen} (hwindow : MsipWindow registers) :
    Signals (fun hartId => writeMsip registers (msipDevice registers.range.start) hartId ipiStatePending)
      (fun hartId => decide (hartId < numHartMax))
      (fun hartId msip => Function.update msip hartId ipiStatePending) := by
  intro hartId msip
  simp only [writeMsip_eq hwindow, decide_eq_true_eq]

/-- A request raises the interrupts of its targets up to the first that has no
register, and it fails if and only if there is one. -/
theorem sendMsip_eq {registers : MmioRegion xlen} (hwindow : MsipWindow registers) (harts : List Nat)
    (msip : Nat → BitVec 32) :
    signalEach
        (fun hartId => writeMsip registers (msipDevice registers.range.start) hartId ipiStatePending)
        harts msip =
      (if harts.all (· < numHartMax) then .ok () else .error .failed,
        raiseAll msip (harts.takeWhile (· < numHartMax))) :=
  signalEach_eq (signals_msip hwindow) harts msip

/-- `ClintKind`. -/
inductive ClintKind
  | sifive
  | thead
  deriving DecidableEq, Repr

/-- The `IpiBackend` of a CLINT. -/
inductive ClintIpi (xlen : Xlen)
  | sifive (ipi : SiFiveIpi xlen)
  | thead (ipi : THeadIpi xlen)

namespace ClintIpi

/-- The IPI device of `clint::bind`. -/
def bind (kind : ClintKind) (registers : DeviceRegisterRange xlen) : Binding xlen (ClintIpi xlen) :=
  match kind with
  | .sifive => (fun devices => sifive devices.2) <$> SiFive.bind registers
  | .thead => (fun devices => thead devices.2) <$> THead.bind registers

def window : ClintIpi xlen → MmioRegion xlen
  | sifive ipi => ipi.registers
  | thead ipi => ipi.msip

/-- `IpiBackend::send_ipi`. -/
def sendIpi (ipi : ClintIpi xlen) (device : Device σ) (harts : List Nat) (s : σ) :
    Except IpiError Unit × σ :=
  match ipi with
  | sifive ipi => ipi.sendIpi device harts s
  | thead ipi => ipi.sendIpi device harts s

/-- `IpiBackend::clear_ipi`. -/
def clearIpi (ipi : ClintIpi xlen) (device : Device σ) (hartId : Nat) (s : σ) :
    Except IpiError Unit × σ :=
  match ipi with
  | sifive ipi => ipi.clearIpi device hartId s
  | thead ipi => ipi.clearIpi device hartId s

variable {ipi : ClintIpi xlen} {memory memory' : MemoryRegistry xlen}

theorem msipWindow_of_bind {kind : ClintKind} {registers : DeviceRegisterRange xlen}
    (h : bind kind registers memory = (.ok ipi, memory')) : MsipWindow ipi.window := by
  cases kind with
  | sifive =>
    obtain ⟨⟨timer, ipi'⟩, _, hbind, hipi⟩ := binding_bind_eq_ok_iff.mp h
    obtain ⟨rfl, rfl⟩ := binding_pure_eq_ok_iff.mp hipi
    exact SiFive.msipWindow_of_bind hbind
  | thead =>
    obtain ⟨⟨timer, ipi'⟩, _, hbind, hipi⟩ := binding_bind_eq_ok_iff.mp h
    obtain ⟨rfl, rfl⟩ := binding_pure_eq_ok_iff.mp hipi
    exact THead.msipWindow_of_bind hbind

/-- Both drivers run the same loop over their own window. -/
theorem sendIpi_eq (ipi : ClintIpi xlen) (device : Device σ) (harts : List Nat) (s : σ) :
    ipi.sendIpi device harts s =
      signalEach (fun hartId => writeMsip ipi.window device hartId ipiStatePending) harts s := by
  cases ipi <;> rfl

theorem clearIpi_eq (ipi : ClintIpi xlen) (device : Device σ) (hartId : Nat) (s : σ) :
    ipi.clearIpi device hartId s = writeMsip ipi.window device hartId ipiStateClear s := by
  cases ipi <;> rfl

end ClintIpi

/-- On a CLINT of either kind a request raises the interrupts of its targets up
to the first hart without a register and of no other hart, and fails exactly
when there is such a hart; an acknowledgement clears one interrupt. The windows
that `target_requests` selects name no hart without a register, so the calls of
the IPI extension never fail here. -/
theorem clint_ipi_exact {kind : ClintKind} {registers : DeviceRegisterRange xlen}
    {memory memory' : MemoryRegistry xlen} {ipi : ClintIpi xlen}
    (hbind : ClintIpi.bind kind registers memory = (.ok ipi, memory')) (msip : Nat → BitVec 32) :
    (∀ harts, ∃ msip', ipi.sendIpi (msipDevice ipi.window.range.start) harts msip =
        (if harts.all (· < numHartMax) then .ok () else .error .failed, msip') ∧
      ∀ t, msip' t =
        if t ∈ harts.takeWhile (· < numHartMax) then ipiStatePending else msip t) ∧
    (∀ hartId, ipi.clearIpi (msipDevice ipi.window.range.start) hartId msip =
      if hartId < numHartMax then (.ok (), Function.update msip hartId ipiStateClear)
      else (.error .failed, msip)) ∧
    ∀ (harts : Harts) (receives : Nat → Bool) (hartMask : HartMask xlen) (ws : List (List Nat)),
      harts.numHartMax = numHartMax → targetWindows harts receives hartMask = .ok (.ok ws) →
      ∀ w ∈ ws, ∀ s, (ipi.sendIpi (msipDevice ipi.window.range.start) w s).1 = .ok () := by
  have hwindow := ClintIpi.msipWindow_of_bind hbind
  refine ⟨fun harts => ?_, fun hartId => ?_, fun harts receives hartMask ws hmax hws w hw s => ?_⟩
  · refine ⟨_, (ipi.sendIpi_eq _ harts msip).trans (sendMsip_eq hwindow harts msip), fun t => ?_⟩
    exact raiseAll_apply msip _ t
  · rw [ipi.clearIpi_eq, writeMsip_eq hwindow]
  · rw [ipi.sendIpi_eq, sendMsip_eq hwindow]
    refine if_pos (List.all_eq_true.mpr fun t ht => ?_)
    have hmem := ((mem_targetWindows hws).2 t).mp (List.mem_flatten.mpr ⟨w, hw, ht⟩)
    have havailable := hmem.1
    simp only [available, Bool.and_eq_true, decide_eq_true_eq] at havailable
    exact decide_eq_true (hmax ▸ havailable.1)

/-- Hart 9 has no register: hart 1 before it is interrupted, hart 2 behind it is not. -/
theorem clint_ipi_exact_missing_hart :
    ∃ msip', ClintIpi.sendIpi (.sifive ⟨⟨ipiWindow⟩⟩) (msipDevice 0x2000000) [1, 9, 2]
        (fun _ => 0#32) = (.error .failed, msip') ∧
      msip' 1 = ipiStatePending ∧ msip' 2 = 0#32 := by
  have hbind : ClintIpi.bind .sifive clintRegisters (bootMemory []) =
      (.ok (.sifive ⟨⟨ipiWindow⟩⟩), bootMemory [ipiWindow, timerWindow]) :=
    binding_bind_eq_ok_iff.mpr ⟨_, _, bind_clintRegisters, rfl⟩
  obtain ⟨msip', hsend, hmsip⟩ := (clint_ipi_exact hbind fun _ => 0#32).1 [1, 9, 2]
  exact ⟨msip', hsend, hmsip 1, hmsip 2⟩

end RustSbi.Driver
