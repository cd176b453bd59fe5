import RustSbi.Ecall.Dispatch

/-!
The client side of an SBI call, the functions of `sbi-rt`, and its agreement with the
dispatchers: which calls arrive at the method of the same function with exactly the
arguments of the caller.
-/

namespace RustSbi.Ecall

variable {xlen : Xlen}

/-- A call as `sbi_call_0` to `sbi_call_6` make it. -/
structure SbiCall (xlen : Xlen) where
  extension : Word xlen
  function : Word xlen
  args : List (Word xlen)

/-- `sbi_call_0` to `sbi_call_6`, by the number of their arguments. -/
def sbiCall (eid : Word xlen) (fid : Nat) (args : List (Word xlen)) : SbiCall xlen :=
  ⟨eid, BitVec.ofNat xlen.bits fid, args⟩

/-- The argument registers at the `ecall`. A register that is not an argument keeps what
it held. -/
def SbiCall.params (call : SbiCall xlen) (held : Params xlen) : Params xlen where
  a0 := call.args.getD 0 held.a0
  a1 := call.args.getD 1 held.a1
  a2 := call.args.getD 2 held.a2
  a3 := call.args.getD 3 held.a3
  a4 := call.args.getD 4 held.a4
  a5 := call.args.getD 5 held.a5

/-- A 64-bit argument: one register on RV64, and two on RV32, the low half first. -/
def splitU64 (value : BitVec 64) : List (Word xlen) :=
  match xlen with
  | .rv32 => [value.setWidth 32, (value >>> 32).setWidth 32]
  | .rv64 => [value.setWidth 64]

/-- The cast of a `u32` or `u8` to `usize`. -/
def asUsize {w : Nat} (value : BitVec w) : Word xlen := value.setWidth xlen.bits

/-! ## The functions of each extension

A function takes what the trait method of the same function takes, except where a type of
requests is given. Generic flags and types are given by their `raw` value. -/

/-- `time.rs`. -/
def Timer.call : Timer.Method → SbiCall xlen
  | .setTimer stimeValue => sbiCall eidTime Time.setTimer (splitU64 stimeValue)

/-- `spi.rs`. -/
def Ipi.call : Ipi.Method xlen → SbiCall xlen
  | .sendIpi hartMask =>
    let (hartMask, hartMaskBase) := hartMask.intoInner
    sbiCall eidSpi Spi.sendIpi [hartMask, hartMaskBase]

/-- `rfnc.rs`. -/
def Fence.call : Fence.Method xlen → SbiCall xlen
  | .remoteFenceI hartMask =>
    let (hartMask, hartMaskBase) := hartMask.intoInner
    sbiCall eidRfnc Rfnc.remoteFenceI [hartMask, hartMaskBase]
  | .remoteSfenceVma hartMask startAddr size =>
    let (hartMask, hartMaskBase) := hartMask.intoInner
    sbiCall eidRfnc Rfnc.remoteSfenceVma [hartMask, hartMaskBase, startAddr, size]
  | .remoteSfenceVmaAsid hartMask startAddr size asid =>
    let (hartMask, hartMaskBase) := hartMask.intoInner
    sbiCall eidRfnc Rfnc.remoteSfenceVmaAsid [hartMask, hartMaskBase, startAddr, size, asid]
  | .remoteHfenceGvmaVmid hartMask startAddr size vmid =>
    let (hartMask, hartMaskBase) := hartMask.intoInner
    sbiCall eidRfnc Rfnc.remoteHfenceGvmaVmid [hartMask, hartMaskBase, startAddr, size, vmid]
  | .remoteHfenceGvma hartMask startAddr size =>
    let (hartMask, hartMaskBase) := hartMask.intoInner
    sbiCall eidRfnc Rfnc.remoteHfenceGvma [hartMask, hartMaskBase, startAddr, size]
  | .remoteHfenceVvmaAsid hartMask startAddr size asid =>
    let (hartMask, hartMaskBase) := hartMask.intoInner
    sbiCall eidRfnc Rfnc.remoteHfenceVvmaAsid [hartMask, hartMaskBase, startAddr, size, asid]
  | .remoteHfenceVvma hartMask startAddr size =>
    let (hartMask, hartMaskBase) := hartMask.intoInner
    sbiCall eidRfnc Rfnc.remoteHfenceVvma [hartMask, hartMaskBase, startAddr, size]

/-- `hsm.rs`. -/
def Hsm.call : Hsm.Method xlen → SbiCall xlen
  | .hartStart hartid startAddr opaqueArg =>
    sbiCall eidHsm Hsm.hartStart [hartid, startAddr, opaqueArg]
  | .hartStop => sbiCall eidHsm Hsm.hartStop []
  | .hartGetStatus hartid => sbiCall eidHsm Hsm.hartGetStatus [hartid]
  | .hartSuspend suspendType resumeAddr opaqueArg =>
    sbiCall eidHsm Hsm.hartSuspend [asUsize suspendType, resumeAddr, opaqueArg]

/-- `srst.rs`. -/
def Reset.call : Reset.Method → SbiCall xlen
  | .systemReset resetType resetReason =>
    sbiCall eidSrst Srst.systemReset [asUsize resetType, asUsize resetReason]

/-- The functions of `pmu.rs`, which take their counters as a set. -/
inductive Pmu.Request (xlen : Xlen)
  | numCounters
  | counterGetInfo (counterIdx : Word xlen)
  | counterConfigMatching (counterIdx : CounterMask xlen) (configFlags eventIdx : Word xlen)
      (eventData : BitVec 64)
  | counterStart (counterIdx : CounterMask xlen) (startFlags : Word xlen) (initialValue : BitVec 64)
  | counterStop (counterIdx : CounterMask xlen) (stopFlags : Word xlen)
  | counterFwRead (counterIdx : Word xlen)
  | counterFwReadHi (counterIdx : Word xlen)
  | snapshotSetShmem (shmem : SharedPtr xlen) (flags : Word xlen)

/-- `pmu.rs`. -/
def Pmu.call : Pmu.Request xlen → SbiCall xlen
  | .numCounters => sbiCall eidPmu Pmu.numCounters []
  | .counterGetInfo counterIdx => sbiCall eidPmu Pmu.counterGetInfo [counterIdx]
  | .counterConfigMatching counterIdx configFlags eventIdx eventData =>
    let (counterIdxMask, counterIdxBase) := counterIdx.intoInner
    sbiCall eidPmu Pmu.counterConfigMatching
      ([counterIdxBase, counterIdxMask, configFlags, eventIdx] ++ splitU64 eventData)
  | .counterStart counterIdx startFlags initialValue =>
    let (counterIdxMask, counterIdxBase) := counterIdx.intoInner
    sbiCall eidPmu Pmu.counterStart
      ([counterIdxBase, counterIdxMask, startFlags] ++ splitU64 initialValue)
  | .counterStop counterIdx stopFlags =>
    let (counterIdxMask, counterIdxBase) := counterIdx.intoInner
    sbiCall eidPmu Pmu.counterStop [counterIdxBase, counterIdxMask, stopFlags]
  | .counterFwRead counterIdx => sbiCall eidPmu Pmu.counterFwRead [counterIdx]
  | .counterFwReadHi counterIdx => sbiCall eidPmu Pmu.counterFwReadHi [counterIdx]
  | .snapshotSetShmem shmem flags =>
    sbiCall eidPmu Pmu.snapshotSetShmem [shmem.physAddrLo, shmem.physAddrHi, flags]

/-- `dbcn.rs`. -/
def Console.call : Console.Method xlen → SbiCall xlen
  | .write bytes =>
    sbiCall eidDbcn Dbcn.consoleWrite [bytes.numBytes, bytes.physAddrLo, bytes.physAddrHi]
  | .read bytes =>
    sbiCall eidDbcn Dbcn.consoleRead [bytes.numBytes, bytes.physAddrLo, bytes.physAddrHi]
  | .writeByte byte => sbiCall eidDbcn Dbcn.consoleWriteByte [asUsize byte]

/-- `susp.rs`. -/
def Susp.call : Susp.Method xlen → SbiCall xlen
  | .systemSuspend sleepType resumeAddr opaqueArg =>
    sbiCall eidSusp Susp.suspend [asUsize sleepType, resumeAddr, opaqueArg]

/-- `cppc.rs`. -/
def Cppc.call : Cppc.Method → SbiCall xlen
  | .probe regId => sbiCall eidCppc Cppc.probe [asUsize regId]
  | .read regId => sbiCall eidCppc Cppc.read [asUsize regId]
  | .readHi regId => sbiCall eidCppc Cppc.readHi [asUsize regId]
  | .write regId value => sbiCall eidCppc Cppc.write ([asUsize regId] ++ splitU64 value)

/-- `nacl.rs`. -/
def Nacl.call : Nacl.Method xlen → SbiCall xlen
  | .probeFeature featureId => sbiCall eidNacl Nacl.probeFeature [asUsize featureId]
  | .setShmem shmem flags =>
    sbiCall eidNacl Nacl.setShmem [shmem.physAddrLo, shmem.physAddrHi, flags]
  | .syncCsr csrNum => sbiCall eidNacl Nacl.syncCsr [csrNum]
  | .syncHfence entryIndex => sbiCall eidNacl Nacl.syncHfence [entryIndex]
  | .syncSret => sbiCall eidNacl Nacl.syncSret []

/-- `sta.rs`. -/
def Sta.call : Sta.Method xlen → SbiCall xlen
  | .setShmem shmem flags =>
    sbiCall eidSta Sta.setShmem [shmem.physAddrLo, shmem.physAddrHi, flags]

/-- `sse.rs`. -/
def Sse.call : Sse.Method xlen → SbiCall xlen
  | .readAttrs eventId baseAttrId attrCount output =>
    sbiCall eidSse Sse.readAttrs [asUsize eventId, asUsize baseAttrId, asUsize attrCount,
      output.physAddrLo, output.physAddrHi]
  | .writeAttrs eventId baseAttrId attrCount input =>
    sbiCall eidSse Sse.writeAttrs [asUsize eventId, asUsize baseAttrId, asUsize attrCount,
      input.physAddrLo, input.physAddrHi]
  | .register eventId handlerEntryPc handlerEntryArg =>
    sbiCall eidSse Sse.register [asUsize eventId, handlerEntryPc, handlerEntryArg]
  | .unregister eventId => sbiCall eidSse Sse.unregister [asUsize eventId]
  | .enable eventId => sbiCall eidSse Sse.enable [asUsize eventId]
  | .disable eventId => sbiCall eidSse Sse.disable [asUsize eventId]
  | .complete => sbiCall eidSse Sse.complete []
  | .inject eventId hartId => sbiCall eidSse Sse.inject [asUsize eventId, hartId]
  | .hartUnmask => sbiCall eidSse Sse.hartUnmask []
  | .hartMask => sbiCall eidSse Sse.hartMask []

/-- `fwft.rs`. -/
def Fwft.call : Fwft.Method xlen → SbiCall xlen
  | .set feature value flags => sbiCall eidFwft Fwft.set [asUsize feature, value, flags]
  | .get feature => sbiCall eidFwft Fwft.get [asUsize feature]

/-- `dbtr.rs`. -/
def Dbtr.call : Dbtr.Method xlen → SbiCall xlen
  | .numTriggers trigTdata1 => sbiCall eidDbtr Dbtr.numTriggers [trigTdata1]
  | .setShmem shmem flags =>
    sbiCall eidDbtr Dbtr.setShmem [shmem.physAddrLo, shmem.physAddrHi, flags]
  | .readTriggers trigIdxBase trigCount =>
    sbiCall eidDbtr Dbtr.readTriggers [trigIdxBase, trigCount]
  | .installTriggers trigCount => sbiCall eidDbtr Dbtr.installTriggers [trigCount]
  | .updateTriggers trigCount => sbiCall eidDbtr Dbtr.updateTriggers [trigCount]
  | .uninstallTriggers triggers =>
    let (trigIdxMask, trigIdxBase) := triggers.intoInner
    sbiCall eidDbtr Dbtr.uninstallTriggers [trigIdxBase, trigIdxMask]
  | .enableTriggers triggers =>
    let (trigIdxMask, trigIdxBase) := triggers.intoInner
    sbiCall eidDbtr Dbtr.enableTriggers [trigIdxBase, trigIdxMask]
  | .disableTriggers triggers =>
    let (trigIdxMask, trigIdxBase) := triggers.intoInner
    sbiCall eidDbtr Dbtr.disableTriggers [trigIdxBase, trigIdxMask]

/-- The functions of `mpxy.rs`. Those on attributes use the shared memory of the hart and
take no pointer. -/
inductive Mpxy.Request (xlen : Xlen)
  | getShmemSize
  | setShmem (shmem : SharedPtr xlen) (flags : Word xlen)
  | getChannelIds (startIndex : BitVec 32)
  | readAttributes (channelId baseAttributeId attributeCount : BitVec 32)
  | writeAttributes (channelId baseAttributeId attributeCount : BitVec 32)
  | sendMessageWithResponse (channelId messageId : BitVec 32) (messageDataLen : Word xlen)
  | sendMessageWithoutResponse (channelId messageId : BitVec 32) (messageDataLen : Word xlen)
  | getNotificationEvents (channelId : BitVec 32)

/-- `mpxy.rs`. -/
def Mpxy.call : Mpxy.Request xlen → SbiCall xlen
  | .getShmemSize => sbiCall eidMpxy Mpxy.getShmemSize []
  | .setShmem shmem flags =>
    sbiCall eidMpxy Mpxy.setShmem [shmem.physAddrLo, shmem.physAddrHi, flags]
  | .getChannelIds startIndex => sbiCall eidMpxy Mpxy.getChannelIds [asUsize startIndex]
  | .readAttributes channelId baseAttributeId attributeCount =>
    sbiCall eidMpxy Mpxy.readAttribute
      [asUsize channelId, asUsize baseAttributeId, asUsize attributeCount]
  | .writeAttributes channelId baseAttributeId attributeCount =>
    sbiCall eidMpxy Mpxy.writeAttribute
      [asUsize channelId, asUsize baseAttributeId, asUsize attributeCount]
  | .sendMessageWithResponse channelId messageId messageDataLen =>
    sbiCall eidMpxy Mpxy.sendMessageWithResponse
      [asUsize channelId, asUsize messageId, messageDataLen]
  | .sendMessageWithoutResponse channelId messageId messageDataLen =>
    sbiCall eidMpxy Mpxy.sendMessageWithoutResponse
      [asUsize channelId, asUsize messageId, messageDataLen]
  | .getNotificationEvents channelId =>
    sbiCall eidMpxy Mpxy.getNotificationEvents [asUsize channelId]

/-! ## What arrives -/

section Registers

@[simp] theorem tryU32_asUsize (id : BitVec 32) : tryU32 (asUsize id : Word xlen) = some id := by
  have hbits : 32 ≤ xlen.bits := by cases xlen <;> decide
  have hlt : (id.setWidth xlen.bits).toNat < 2 ^ 32 := by
    rw [BitVec.toNat_setWidth]
    exact lt_of_le_of_lt (Nat.mod_le _ _) id.isLt
  rw [tryU32, asUsize, if_pos hlt, BitVec.setWidth_setWidth_of_le id hbits, BitVec.setWidth_eq]

variable {Method : Type}

theorem withU32_asUsize (id : BitVec 32) (method : BitVec 32 → Method) :
    withU32 (asUsize id : Word xlen) method = .invoke (method id) := by
  rw [withU32, tryU32_asUsize]

theorem withU32Pair_asUsize (id₁ id₂ : BitVec 32) (method : BitVec 32 → BitVec 32 → Method) :
    withU32Pair (asUsize id₁ : Word xlen) (asUsize id₂) method = .invoke (method id₁ id₂) := by
  rw [withU32Pair, tryU32_asUsize, tryU32_asUsize]

theorem withU32Triple_asUsize (id₁ id₂ id₃ : BitVec 32)
    (method : BitVec 32 → BitVec 32 → BitVec 32 → Method) :
    withU32Triple (asUsize id₁ : Word xlen) (asUsize id₂) (asUsize id₃) method =
      .invoke (method id₁ id₂ id₃) := by
  rw [withU32Triple, tryU32_asUsize, tryU32_asUsize, tryU32_asUsize]

/-- The halves of a 64-bit value on RV32. -/
theorem concatU32_halves (value : BitVec 64) :
    @concatU32 .rv32 ((value >>> 32).setWidth 32) (value.setWidth 32) = value := by
  apply BitVec.eq_of_getLsbD_eq
  intro i hi
  simp only [concatU32, Xlen.bits, BitVec.getLsbD_or, BitVec.getLsbD_shiftLeft,
    BitVec.getLsbD_setWidth, BitVec.getLsbD_ushiftRight]
  by_cases hlow : i < 32
  · simp [hlow, hi]
  · have hadd : 32 + (i - 32) = i := by omega
    have hsub : i - 32 < 32 := by omega
    have hsub' : i - 32 < 64 := by omega
    simp [hlow, hi, hadd, hsub, hsub']

theorem setWidth_and_ff {w : Nat} (hw : 8 ≤ w) (byte : BitVec 8) :
    (byte.setWidth w &&& 0xFF#w).setWidth 8 = byte := by
  have hpow : 2 ^ 8 ≤ 2 ^ w := Nat.pow_le_pow_right (by decide) hw
  have hlt := byte.isLt
  have hbyte : byte.toNat % 2 ^ w = byte.toNat := Nat.mod_eq_of_lt (by omega)
  have hff : 255 % 2 ^ w = 2 ^ 8 - 1 := Nat.mod_eq_of_lt (by omega)
  apply BitVec.eq_of_toNat_eq
  rw [BitVec.toNat_setWidth, BitVec.toNat_and, BitVec.toNat_setWidth, BitVec.toNat_ofNat, hbyte, hff,
    Nat.and_two_pow_sub_one_eq_mod, Nat.mod_mod, Nat.mod_eq_of_lt hlt]

end Registers

/-- A call arrives: the dispatcher invokes the method, whatever the other registers held. -/
def Arrives {Method : Type} (dispatch : Params xlen → Word xlen → Served xlen Method)
    (call : SbiCall xlen) (method : Method) : Prop :=
  ∀ held, dispatch (call.params held) call.function = .invoke method

theorem timer_arrives (m : Timer.Method) : Arrives (@rustsbiTimer xlen) (Timer.call m) m := by
  intro held
  obtain ⟨stimeValue⟩ := m
  cases xlen with
  | rv32 => exact congrArg (Served.invoke ∘ Timer.Method.setTimer) (concatU32_halves stimeValue)
  | rv64 => exact congrArg (Served.invoke ∘ Timer.Method.setTimer) (BitVec.setWidth_eq stimeValue)

theorem ipi_arrives (m : Ipi.Method xlen) : Arrives rustsbiIpi (Ipi.call m) m := by
  intro held
  cases xlen <;> rfl

theorem fence_arrives (m : Fence.Method xlen) : Arrives rustsbiFence (Fence.call m) m := by
  intro held
  cases xlen <;> cases m <;> rfl

theorem hsm_arrives (m : Hsm.Method xlen) : Arrives rustsbiHsm (Hsm.call m) m := by
  intro held
  cases m with
  | hartSuspend suspendType resumeAddr opaqueArg => cases xlen <;> exact withU32_asUsize _ _
  | _ => cases xlen <;> rfl

theorem reset_arrives (m : Reset.Method) : Arrives (@rustsbiReset xlen) (Reset.call m) m := by
  intro held
  cases xlen <;> exact withU32Pair_asUsize _ _ _

theorem susp_arrives (m : Susp.Method xlen) : Arrives rustsbiSusp (Susp.call m) m := by
  intro held
  cases xlen <;> exact withU32_asUsize _ _

theorem console_arrives (m : Console.Method xlen) : Arrives rustsbiConsole (Console.call m) m := by
  intro held
  cases m with
  | writeByte byte =>
    have hbits : 8 ≤ xlen.bits := by cases xlen <;> decide
    have hbyte := setWidth_and_ff hbits byte
    cases xlen <;> exact congrArg (Served.invoke ∘ Console.Method.writeByte) hbyte
  | _ => cases xlen <;> rfl

theorem cppc_arrives (m : Cppc.Method) : Arrives (@rustsbiCppc xlen) (Cppc.call m) m := by
  intro held
  cases xlen with
  | rv64 =>
    cases m with
    | write regId val =>
      have hval : BitVec.setWidth 64 (BitVec.setWidth 64 val) = val := by simp
      exact (withU32_asUsize regId _).trans
        (congrArg (Served.invoke ∘ Cppc.Method.write regId) hval)
    | _ => exact withU32_asUsize _ _
  | rv32 =>
    cases m with
    | write regId val =>
      exact congrArg (Served.invoke ∘ Cppc.Method.write regId) (concatU32_halves val)
    | _ => rfl

theorem nacl_arrives (m : Nacl.Method xlen) : Arrives rustsbiNacl (Nacl.call m) m := by
  intro held
  cases m with
  | probeFeature featureId => cases xlen <;> exact withU32_asUsize _ _
  | _ => cases xlen <;> rfl

theorem sta_arrives (m : Sta.Method xlen) : Arrives rustsbiSta (Sta.call m) m := by
  intro held
  cases xlen <;> rfl

theorem fwft_arrives (m : Fwft.Method xlen) : Arrives rustsbiFwft (Fwft.call m) m := by
  intro held
  cases xlen <;> cases m <;> exact withU32_asUsize _ _

theorem sse_arrives (m : Sse.Method xlen) : Arrives rustsbiSse (Sse.call m) m := by
  intro held
  cases m with
  | readAttrs => cases xlen <;> exact withU32Triple_asUsize _ _ _ _
  | writeAttrs => cases xlen <;> exact withU32Triple_asUsize _ _ _ _
  | complete => cases xlen <;> rfl
  | hartUnmask => cases xlen <;> rfl
  | hartMask => cases xlen <;> rfl
  | _ => cases xlen <;> exact withU32_asUsize _ _

/-- The method of the same function: the set goes in as its base and its mask. -/
def Pmu.Request.method : Pmu.Request xlen → Pmu.Method xlen
  | .numCounters => .numCounters
  | .counterGetInfo counterIdx => .counterGetInfo counterIdx
  | .counterConfigMatching counterIdx configFlags eventIdx eventData =>
    .counterConfigMatching counterIdx.counterIdxBase counterIdx.counterIdxMask configFlags eventIdx
      eventData
  | .counterStart counterIdx startFlags initialValue =>
    .counterStart counterIdx.counterIdxBase counterIdx.counterIdxMask startFlags initialValue
  | .counterStop counterIdx stopFlags =>
    .counterStop counterIdx.counterIdxBase counterIdx.counterIdxMask stopFlags
  | .counterFwRead counterIdx => .counterFwRead counterIdx
  | .counterFwReadHi counterIdx => .counterFwReadHi counterIdx
  | .snapshotSetShmem shmem flags => .snapshotSetShmem shmem flags

theorem pmu_arrives (req : Pmu.Request xlen) : Arrives rustsbiPmu (Pmu.call req) req.method := by
  intro held
  cases req with
  | counterConfigMatching counterIdx configFlags eventIdx eventData =>
    cases xlen with
    | rv32 =>
      exact congrArg (Served.invoke ∘ Pmu.Method.counterConfigMatching counterIdx.counterIdxBase
        counterIdx.counterIdxMask configFlags eventIdx) (concatU32_halves eventData)
    | rv64 =>
      have hdata : BitVec.setWidth 64 (BitVec.setWidth 64 eventData) = eventData := by simp
      exact congrArg (Served.invoke ∘ Pmu.Method.counterConfigMatching counterIdx.counterIdxBase
        counterIdx.counterIdxMask configFlags eventIdx) hdata
  | counterStart counterIdx startFlags initialValue =>
    cases xlen with
    | rv32 =>
      exact congrArg (Served.invoke ∘ Pmu.Method.counterStart counterIdx.counterIdxBase
        counterIdx.counterIdxMask startFlags) (concatU32_halves initialValue)
    | rv64 =>
      have hvalue : BitVec.setWidth 64 (BitVec.setWidth 64 initialValue) = initialValue := by simp
      exact congrArg (Served.invoke ∘ Pmu.Method.counterStart counterIdx.counterIdxBase
        counterIdx.counterIdxMask startFlags) hvalue
  | _ => cases xlen <;> rfl

/-- The trigger set that the dispatcher makes of the registers for a set: its mask and
its base change places. -/
def TriggerMask.swap (triggers : TriggerMask xlen) : TriggerMask xlen :=
  ⟨triggers.trigIdxMask, triggers.trigIdxBase⟩

/-- What the methods on a trigger set get. -/
def Dbtr.Method.received : Dbtr.Method xlen → Dbtr.Method xlen
  | .uninstallTriggers triggers => .uninstallTriggers triggers.swap
  | .enableTriggers triggers => .enableTriggers triggers.swap
  | .disableTriggers triggers => .disableTriggers triggers.swap
  | m => m

theorem dbtr_arrives (m : Dbtr.Method xlen) : Arrives rustsbiDbtr (Dbtr.call m) m.received := by
  intro held
  cases xlen <;> cases m <;> rfl

/-- A method of the same function that has the arguments of the caller. The methods on
attributes have a pointer beside them. -/
def Mpxy.Request.Carries : Mpxy.Request xlen → Mpxy.Method xlen → Prop
  | .getShmemSize, m => m = .getShmemSize
  | .setShmem shmem flags, m => m = .setShmem shmem flags
  | .getChannelIds startIndex, m => m = .getChannelIds startIndex
  | .readAttributes channelId baseAttributeId attributeCount, m =>
    ∃ output, m = .readAttributes channelId baseAttributeId attributeCount output
  | .writeAttributes channelId baseAttributeId attributeCount, m =>
    ∃ input, m = .writeAttributes channelId baseAttributeId attributeCount input
  | .sendMessageWithResponse channelId messageId messageDataLen, m =>
    m = .sendMessageWithResponse channelId messageId messageDataLen
  | .sendMessageWithoutResponse channelId messageId messageDataLen, m =>
    m = .sendMessageWithoutResponse channelId messageId messageDataLen
  | .getNotificationEvents channelId, m => m = .getNotificationEvents channelId

/-- The method that a call on MPXY invokes: a pointer comes from the registers after
those of the caller. -/
def Mpxy.Request.received (held : Params xlen) : Mpxy.Request xlen → Mpxy.Method xlen
  | .getShmemSize => .getShmemSize
  | .setShmem shmem flags => .setShmem shmem flags
  | .getChannelIds startIndex => .getChannelIds startIndex
  | .readAttributes channelId baseAttributeId attributeCount =>
    .readAttributes channelId baseAttributeId attributeCount ⟨held.a3, held.a4⟩
  | .writeAttributes channelId baseAttributeId attributeCount =>
    .writeAttributes channelId baseAttributeId attributeCount ⟨held.a3, held.a4⟩
  | .sendMessageWithResponse channelId messageId messageDataLen =>
    .sendMessageWithResponse channelId messageId messageDataLen
  | .sendMessageWithoutResponse channelId messageId messageDataLen =>
    .sendMessageWithoutResponse channelId messageId messageDataLen
  | .getNotificationEvents channelId => .getNotificationEvents channelId

theorem rustsbiMpxy_call (req : Mpxy.Request xlen) (held : Params xlen) :
    rustsbiMpxy ((Mpxy.call req).params held) (Mpxy.call req).function =
      .invoke (req.received held) := by
  cases req with
  | getShmemSize => cases xlen <;> rfl
  | setShmem shmem flags => cases xlen <;> rfl
  | getChannelIds startIndex => cases xlen <;> exact withU32_asUsize _ _
  | readAttributes => cases xlen <;> exact withU32Triple_asUsize _ _ _ _
  | writeAttributes => cases xlen <;> exact withU32Triple_asUsize _ _ _ _
  | sendMessageWithResponse => cases xlen <;> exact withU32Pair_asUsize _ _ _
  | sendMessageWithoutResponse => cases xlen <;> exact withU32Pair_asUsize _ _ _
  | getNotificationEvents channelId => cases xlen <;> exact withU32_asUsize _ _

/-! ## All extensions -/

namespace Extension

/-- The functions of an extension in `sbi-rt`. -/
def Request (xlen : Xlen) : Extension → Type
  | pmu => Pmu.Request xlen
  | mpxy => Mpxy.Request xlen
  | ext => ext.Method xlen

/-- The call that a function makes. -/
def call : (ext : Extension) → ext.Request xlen → SbiCall xlen
  | fence => Fence.call
  | hsm => Hsm.call
  | ipi => Ipi.call
  | reset => Reset.call
  | timer => Timer.call
  | pmu => Pmu.call
  | console => Console.call
  | susp => Susp.call
  | cppc => Cppc.call
  | nacl => Nacl.call
  | sta => Sta.call
  | mpxy => Mpxy.call
  | dbtr => Dbtr.call
  | fwft => Fwft.call
  | sse => Sse.call

/-- A method of the same function that has the arguments of the caller. -/
def Carries : (ext : Extension) → ext.Request xlen → ext.Method xlen → Prop
  | fence, req, m => m = req
  | hsm, req, m => m = req
  | ipi, req, m => m = req
  | reset, req, m => m = req
  | timer, req, m => m = req
  | pmu, req, m => m = Pmu.Request.method req
  | console, req, m => m = req
  | susp, req, m => m = req
  | cppc, req, m => m = req
  | nacl, req, m => m = req
  | sta, req, m => m = req
  | mpxy, req, m => Mpxy.Request.Carries req m
  | dbtr, req, m => m = req
  | fwft, req, m => m = req
  | sse, req, m => m = req

/-- The client and the server agree on a call: it has the number of its extension, and the
dispatcher of that extension invokes the method of the same function with the arguments of
the caller, which no other register decides. -/
def Agree (ext : Extension) (req : ext.Request xlen) : Prop :=
  (ext.call req).extension = ext.eid ∧
    ∃ m, ext.Carries req m ∧ Arrives ext.dispatch (ext.call req) m

theorem call_extension (ext : Extension) (req : ext.Request xlen) :
    (ext.call req).extension = ext.eid := by
  cases ext <;> cases req <;> rfl

end Extension

/-- The two sides take the registers of the function alike: none of its arguments is a
trigger set whose mask and base differ, and it is no MPXY function on attributes. -/
def SameLayout : (ext : Extension) → ext.Request xlen → Prop
  | .dbtr, req =>
    match (req : Dbtr.Method xlen) with
    | .uninstallTriggers triggers => triggers.trigIdxMask = triggers.trigIdxBase
    | .enableTriggers triggers => triggers.trigIdxMask = triggers.trigIdxBase
    | .disableTriggers triggers => triggers.trigIdxMask = triggers.trigIdxBase
    | _ => True
  | .mpxy, req =>
    match (req : Mpxy.Request xlen) with
    | .readAttributes _ _ _ => False
    | .writeAttributes _ _ _ => False
    | _ => True
  | _, _ => True

theorem Arrives.unique {Method : Type} {dispatch : Params xlen → Word xlen → Served xlen Method}
    {call : SbiCall xlen} {m m' : Method} (h : Arrives dispatch call m)
    (h' : Arrives dispatch call m') : m = m' := by
  let held : Params xlen := ⟨0, 0, 0, 0, 0, 0⟩
  exact Served.invoke.inj ((h held).symm.trans (h' held))

theorem TriggerMask.swap_eq_iff (triggers : TriggerMask xlen) :
    triggers.swap = triggers ↔ triggers.trigIdxMask = triggers.trigIdxBase := by
  obtain ⟨base, mask⟩ := triggers
  simp only [swap, TriggerMask.mk.injEq]
  exact ⟨fun h => h.1, fun h => ⟨h, h.symm⟩⟩

/-- Only the functions on a trigger set change on the way. -/
theorem dbtr_received_iff (m : Dbtr.Method xlen) :
    m.received = m ↔ SameLayout .dbtr m := by
  cases m with
  | uninstallTriggers triggers =>
    rw [Dbtr.Method.received, Dbtr.Method.uninstallTriggers.injEq, TriggerMask.swap_eq_iff]
    rfl
  | enableTriggers triggers =>
    rw [Dbtr.Method.received, Dbtr.Method.enableTriggers.injEq, TriggerMask.swap_eq_iff]
    rfl
  | disableTriggers triggers =>
    rw [Dbtr.Method.received, Dbtr.Method.disableTriggers.injEq, TriggerMask.swap_eq_iff]
    rfl
  | _ => exact iff_of_true rfl trivial

/-- The pointer of a method on attributes is not the caller's, and differs with the
registers that the call leaves alone. -/
theorem mpxy_arrives_iff (req : Mpxy.Request xlen) :
    (∃ m, req.Carries m ∧ Arrives rustsbiMpxy (Mpxy.call req) m) ↔ SameLayout .mpxy req := by
  have hzero : ∀ m, Arrives rustsbiMpxy (Mpxy.call req) m → ∀ held, req.received held = m :=
    fun m h held => Served.invoke.inj ((rustsbiMpxy_call req held).symm.trans (h held))
  have hne : (1 : Word xlen) ≠ 0 := by cases xlen <;> decide
  cases req with
  | readAttributes channelId baseAttributeId attributeCount =>
    refine iff_of_false ?_ not_false
    rintro ⟨m, -, harrives⟩
    have hsame := (hzero m harrives ⟨0, 0, 0, 1, 0, 0⟩).trans (hzero m harrives ⟨0, 0, 0, 0, 0, 0⟩).symm
    simp only [Mpxy.Request.received, Mpxy.Method.readAttributes.injEq, SharedPtr.mk.injEq] at hsame
    exact hne hsame.2.2.2.1
  | writeAttributes channelId baseAttributeId attributeCount =>
    refine iff_of_false ?_ not_false
    rintro ⟨m, -, harrives⟩
    have hsame := (hzero m harrives ⟨0, 0, 0, 1, 0, 0⟩).trans (hzero m harrives ⟨0, 0, 0, 0, 0, 0⟩).symm
    simp only [Mpxy.Request.received, Mpxy.Method.writeAttributes.injEq, SharedPtr.mk.injEq] at hsame
    exact hne hsame.2.2.2.1
  | _ => exact iff_of_true ⟨_, rfl, rustsbiMpxy_call _⟩ trivial

/-- The client and the server agree on a call exactly when they take its registers alike. -/
theorem call_abi_agrees_iff (xlen : Xlen) (ext : Extension) (req : ext.Request xlen) :
    ext.Agree req ↔ SameLayout ext req := by
  rw [Extension.Agree, and_iff_right (ext.call_extension req)]
  cases ext with
  | dbtr =>
    refine Iff.trans ?_ (dbtr_received_iff req)
    constructor
    · rintro ⟨m, rfl, harrives⟩
      exact (dbtr_arrives _).unique harrives
    · intro h
      have harrives := dbtr_arrives req
      rw [h] at harrives
      exact ⟨req, rfl, harrives⟩
  | mpxy => exact mpxy_arrives_iff req
  | pmu => exact iff_of_true ⟨_, rfl, pmu_arrives req⟩ trivial
  | fence => exact iff_of_true ⟨_, rfl, fence_arrives req⟩ trivial
  | hsm => exact iff_of_true ⟨_, rfl, hsm_arrives req⟩ trivial
  | ipi => exact iff_of_true ⟨_, rfl, ipi_arrives req⟩ trivial
  | reset => exact iff_of_true ⟨_, rfl, reset_arrives req⟩ trivial
  | timer => exact iff_of_true ⟨_, rfl, timer_arrives req⟩ trivial
  | console => exact iff_of_true ⟨_, rfl, console_arrives req⟩ trivial
  | susp => exact iff_of_true ⟨_, rfl, susp_arrives req⟩ trivial
  | cppc => exact iff_of_true ⟨_, rfl, cppc_arrives req⟩ trivial
  | nacl => exact iff_of_true ⟨_, rfl, nacl_arrives req⟩ trivial
  | sta => exact iff_of_true ⟨_, rfl, sta_arrives req⟩ trivial
  | fwft => exact iff_of_true ⟨_, rfl, fwft_arrives req⟩ trivial
  | sse => exact iff_of_true ⟨_, rfl, sse_arrives req⟩ trivial

/-- Trigger 0 is to be enabled, and the method gets the empty set at base 1. -/
theorem enable_triggers_misdecoded :
    let triggers : TriggerMask .rv64 := .fromMaskBase 1 0
    Arrives rustsbiDbtr (Dbtr.call (.enableTriggers triggers))
      (.enableTriggers (.fromMaskBase 0 1)) ∧
    ¬ Extension.dbtr.Agree (Dbtr.Method.enableTriggers triggers) := by
  intro triggers
  have harrives : Arrives rustsbiDbtr (Dbtr.call (.enableTriggers triggers))
      (.enableTriggers (.fromMaskBase 0 1)) := dbtr_arrives _
  refine ⟨harrives, ?_⟩
  rintro ⟨-, m, rfl, h⟩
  have heq : Dbtr.Method.enableTriggers triggers = .enableTriggers (.fromMaskBase 0 1) :=
    h.unique harrives
  exact absurd heq (by decide)

end RustSbi.Ecall
