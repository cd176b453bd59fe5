import RustSbi.Ecall.Abi

/-!
The server side of an SBI call: the methods of the extension traits of `rustsbi` and the
`_rustsbi_*` dispatchers, which decode the registers of a call into a method and its
arguments.
-/

namespace RustSbi.Ecall

variable {xlen : Xlen}

/-- What a dispatcher does with a call: it answers on its own, or it invokes a method. -/
inductive Served (xlen : Xlen) (Method : Type)
  | answer (ret : SbiRet xlen)
  | invoke (method : Method)
  deriving DecidableEq

/-- `u32::try_from`. -/
def tryU32 (word : Word xlen) : Option (BitVec 32) :=
  if word.toNat < 2 ^ 32 then some (word.setWidth 32) else none

/-- `concat_u32`. -/
def concatU32 (h l : Word xlen) : BitVec 64 := h.setWidth 64 <<< 32 ||| l.setWidth 64

/-- The branch of a dispatcher that needs a 32-bit identifier. -/
def withU32 {Method : Type} (word : Word xlen) (method : BitVec 32 → Method) : Served xlen Method :=
  match tryU32 word with
  | some id => .invoke (method id)
  | none => .answer .invalidParam

/-- The branch of a dispatcher that needs two. -/
def withU32Pair {Method : Type} (word₁ word₂ : Word xlen) (method : BitVec 32 → BitVec 32 → Method) :
    Served xlen Method :=
  match tryU32 word₁, tryU32 word₂ with
  | some id₁, some id₂ => .invoke (method id₁ id₂)
  | _, _ => .answer .invalidParam

/-- The branch of a dispatcher that needs three. -/
def withU32Triple {Method : Type} (word₁ word₂ word₃ : Word xlen)
    (method : BitVec 32 → BitVec 32 → BitVec 32 → Method) : Served xlen Method :=
  match tryU32 word₁, tryU32 word₂, tryU32 word₃ with
  | some id₁, some id₂, some id₃ => .invoke (method id₁ id₂ id₃)
  | _, _, _ => .answer .invalidParam

/-! ## TIME, sPI and RFNC -/

/-- The methods of `Timer`. -/
inductive Timer.Method
  | setTimer (stimeValue : BitVec 64)
  deriving DecidableEq

/-- `_rustsbi_timer`. -/
def rustsbiTimer (param : Params xlen) (function : Word xlen) : Served xlen Timer.Method :=
  match xlen with
  | .rv64 =>
    match function.toNat with
    | Time.setTimer => .invoke (.setTimer (param.a0.setWidth 64))
    | _ => .answer .notSupported
  | .rv32 =>
    match function.toNat with
    | Time.setTimer => .invoke (.setTimer (concatU32 param.a1 param.a0))
    | _ => .answer .notSupported

/-- The methods of `Ipi`. -/
inductive Ipi.Method (xlen : Xlen)
  | sendIpi (hartMask : HartMask xlen)
  deriving DecidableEq

/-- `_rustsbi_ipi`. -/
def rustsbiIpi (param : Params xlen) (function : Word xlen) : Served xlen (Ipi.Method xlen) :=
  match function.toNat with
  | Spi.sendIpi => .invoke (.sendIpi (.fromMaskBase param.a0 param.a1))
  | _ => .answer .notSupported

/-- The methods of `Rfence`. -/
inductive Fence.Method (xlen : Xlen)
  | remoteFenceI (hartMask : HartMask xlen)
  | remoteSfenceVma (hartMask : HartMask xlen) (startAddr size : Word xlen)
  | remoteSfenceVmaAsid (hartMask : HartMask xlen) (startAddr size asid : Word xlen)
  | remoteHfenceGvmaVmid (hartMask : HartMask xlen) (startAddr size vmid : Word xlen)
  | remoteHfenceGvma (hartMask : HartMask xlen) (startAddr size : Word xlen)
  | remoteHfenceVvmaAsid (hartMask : HartMask xlen) (startAddr size asid : Word xlen)
  | remoteHfenceVvma (hartMask : HartMask xlen) (startAddr size : Word xlen)
  deriving DecidableEq

/-- `_rustsbi_fence`. -/
def rustsbiFence (param : Params xlen) (function : Word xlen) : Served xlen (Fence.Method xlen) :=
  let hartMask := HartMask.fromMaskBase param.a0 param.a1
  match function.toNat with
  | Rfnc.remoteFenceI => .invoke (.remoteFenceI hartMask)
  | Rfnc.remoteSfenceVma => .invoke (.remoteSfenceVma hartMask param.a2 param.a3)
  | Rfnc.remoteSfenceVmaAsid =>
    .invoke (.remoteSfenceVmaAsid hartMask param.a2 param.a3 param.a4)
  | Rfnc.remoteHfenceGvmaVmid =>
    .invoke (.remoteHfenceGvmaVmid hartMask param.a2 param.a3 param.a4)
  | Rfnc.remoteHfenceGvma => .invoke (.remoteHfenceGvma hartMask param.a2 param.a3)
  | Rfnc.remoteHfenceVvmaAsid =>
    .invoke (.remoteHfenceVvmaAsid hartMask param.a2 param.a3 param.a4)
  | Rfnc.remoteHfenceVvma => .invoke (.remoteHfenceVvma hartMask param.a2 param.a3)
  | _ => .answer .notSupported

/-! ## HSM, SRST and SUSP -/

/-- The methods of `Hsm`. -/
inductive Hsm.Method (xlen : Xlen)
  | hartStart (hartid startAddr opaqueArg : Word xlen)
  | hartStop
  | hartGetStatus (hartid : Word xlen)
  | hartSuspend (suspendType : BitVec 32) (resumeAddr opaqueArg : Word xlen)
  deriving DecidableEq

/-- `_rustsbi_hsm`. -/
def rustsbiHsm (param : Params xlen) (function : Word xlen) : Served xlen (Hsm.Method xlen) :=
  match function.toNat with
  | Hsm.hartStart => .invoke (.hartStart param.a0 param.a1 param.a2)
  | Hsm.hartStop => .invoke .hartStop
  | Hsm.hartGetStatus => .invoke (.hartGetStatus param.a0)
  | Hsm.hartSuspend => withU32 param.a0 fun suspendType => .hartSuspend suspendType param.a1 param.a2
  | _ => .answer .notSupported

/-- The methods of `Reset`. -/
inductive Reset.Method
  | systemReset (resetType resetReason : BitVec 32)
  deriving DecidableEq

/-- `_rustsbi_reset`. -/
def rustsbiReset (param : Params xlen) (function : Word xlen) : Served xlen Reset.Method :=
  match function.toNat with
  | Srst.systemReset => withU32Pair param.a0 param.a1 .systemReset
  | _ => .answer .notSupported

/-- The methods of `Susp`. -/
inductive Susp.Method (xlen : Xlen)
  | systemSuspend (sleepType : BitVec 32) (resumeAddr opaqueArg : Word xlen)
  deriving DecidableEq

/-- `_rustsbi_susp`. -/
def rustsbiSusp (param : Params xlen) (function : Word xlen) : Served xlen (Susp.Method xlen) :=
  match function.toNat with
  | Susp.suspend => withU32 param.a0 fun sleepType => .systemSuspend sleepType param.a1 param.a2
  | _ => .answer .notSupported

/-! ## PMU and CPPC -/

/-- The methods of `Pmu`. -/
inductive Pmu.Method (xlen : Xlen)
  | numCounters
  | counterGetInfo (counterIdx : Word xlen)
  | counterConfigMatching (counterIdxBase counterIdxMask configFlags eventIdx : Word xlen)
      (eventData : BitVec 64)
  | counterStart (counterIdxBase counterIdxMask startFlags : Word xlen) (initialValue : BitVec 64)
  | counterStop (counterIdxBase counterIdxMask stopFlags : Word xlen)
  | counterFwRead (counterIdx : Word xlen)
  | counterFwReadHi (counterIdx : Word xlen)
  | snapshotSetShmem (shmem : SharedPtr xlen) (flags : Word xlen)
  deriving DecidableEq

/-- `_rustsbi_pmu`. -/
def rustsbiPmu (param : Params xlen) (function : Word xlen) : Served xlen (Pmu.Method xlen) :=
  match xlen with
  | .rv64 =>
    match function.toNat with
    | Pmu.numCounters => .invoke .numCounters
    | Pmu.counterGetInfo => .invoke (.counterGetInfo param.a0)
    | Pmu.counterConfigMatching =>
      .invoke (.counterConfigMatching param.a0 param.a1 param.a2 param.a3 (param.a4.setWidth 64))
    | Pmu.counterStart =>
      .invoke (.counterStart param.a0 param.a1 param.a2 (param.a3.setWidth 64))
    | Pmu.counterStop => .invoke (.counterStop param.a0 param.a1 param.a2)
    | Pmu.counterFwRead => .invoke (.counterFwRead param.a0)
    | Pmu.counterFwReadHi => .invoke (.counterFwReadHi param.a0)
    | Pmu.snapshotSetShmem => .invoke (.snapshotSetShmem ⟨param.a0, param.a1⟩ param.a2)
    | _ => .answer .notSupported
  | .rv32 =>
    match function.toNat with
    | Pmu.numCounters => .invoke .numCounters
    | Pmu.counterGetInfo => .invoke (.counterGetInfo param.a0)
    | Pmu.counterConfigMatching =>
      .invoke (.counterConfigMatching param.a0 param.a1 param.a2 param.a3
        (concatU32 param.a5 param.a4))
    | Pmu.counterStart =>
      .invoke (.counterStart param.a0 param.a1 param.a2 (concatU32 param.a4 param.a3))
    | Pmu.counterStop => .invoke (.counterStop param.a0 param.a1 param.a2)
    | Pmu.counterFwRead => .invoke (.counterFwRead param.a0)
    | Pmu.counterFwReadHi => .invoke (.counterFwReadHi param.a0)
    | Pmu.snapshotSetShmem => .invoke (.snapshotSetShmem ⟨param.a0, param.a1⟩ param.a2)
    | _ => .answer .notSupported

/-- The methods of `Cppc`. -/
inductive Cppc.Method
  | probe (regId : BitVec 32)
  | read (regId : BitVec 32)
  | readHi (regId : BitVec 32)
  | write (regId : BitVec 32) (val : BitVec 64)
  deriving DecidableEq

/-- `_rustsbi_cppc`. -/
def rustsbiCppc (param : Params xlen) (function : Word xlen) : Served xlen Cppc.Method :=
  match xlen with
  | .rv64 =>
    match function.toNat with
    | Cppc.probe => withU32 param.a0 .probe
    | Cppc.read => withU32 param.a0 .read
    | Cppc.readHi => withU32 param.a0 .readHi
    | Cppc.write => withU32 param.a0 fun regId => .write regId (param.a1.setWidth 64)
    | _ => .answer .notSupported
  | .rv32 =>
    match function.toNat with
    | Cppc.probe => .invoke (.probe (param.a0.setWidth 32))
    | Cppc.read => .invoke (.read (param.a0.setWidth 32))
    | Cppc.readHi => .invoke (.readHi (param.a0.setWidth 32))
    | Cppc.write => .invoke (.write (param.a0.setWidth 32) (concatU32 param.a2 param.a1))
    | _ => .answer .notSupported

/-! ## DBCN, NACL, STA and FWFT -/

/-- The methods of `Console`. -/
inductive Console.Method (xlen : Xlen)
  | write (bytes : Physical xlen)
  | read (bytes : Physical xlen)
  | writeByte (byte : BitVec 8)
  deriving DecidableEq

/-- `_rustsbi_console`. -/
def rustsbiConsole (param : Params xlen) (function : Word xlen) :
    Served xlen (Console.Method xlen) :=
  match function.toNat with
  | Dbcn.consoleWrite => .invoke (.write ⟨param.a0, param.a1, param.a2⟩)
  | Dbcn.consoleRead => .invoke (.read ⟨param.a0, param.a1, param.a2⟩)
  | Dbcn.consoleWriteByte => .invoke (.writeByte ((param.a0 &&& 0xFF).setWidth 8))
  | _ => .answer .notSupported

/-- The methods of `Nacl`. -/
inductive Nacl.Method (xlen : Xlen)
  | probeFeature (featureId : BitVec 32)
  | setShmem (shmem : SharedPtr xlen) (flags : Word xlen)
  | syncCsr (csrNum : Word xlen)
  | syncHfence (entryIndex : Word xlen)
  | syncSret
  deriving DecidableEq

/-- `_rustsbi_nacl`. -/
def rustsbiNacl (param : Params xlen) (function : Word xlen) : Served xlen (Nacl.Method xlen) :=
  match function.toNat with
  | Nacl.probeFeature => withU32 param.a0 .probeFeature
  | Nacl.setShmem => .invoke (.setShmem ⟨param.a0, param.a1⟩ param.a2)
  | Nacl.syncCsr => .invoke (.syncCsr param.a0)
  | Nacl.syncHfence => .invoke (.syncHfence param.a0)
  | Nacl.syncSret => .invoke .syncSret
  | _ => .answer .notSupported

/-- The methods of `Sta`. -/
inductive Sta.Method (xlen : Xlen)
  | setShmem (shmem : SharedPtr xlen) (flags : Word xlen)
  deriving DecidableEq

/-- `_rustsbi_sta`. -/
def rustsbiSta (param : Params xlen) (function : Word xlen) : Served xlen (Sta.Method xlen) :=
  match function.toNat with
  | Sta.setShmem => .invoke (.setShmem ⟨param.a0, param.a1⟩ param.a2)
  | _ => .answer .notSupported

/-- The methods of `Fwft`. -/
inductive Fwft.Method (xlen : Xlen)
  | set (featureId : BitVec 32) (value flags : Word xlen)
  | get (featureId : BitVec 32)
  deriving DecidableEq

/-- `_rustsbi_fwft`. -/
def rustsbiFwft (param : Params xlen) (function : Word xlen) : Served xlen (Fwft.Method xlen) :=
  match function.toNat with
  | Fwft.set => withU32 param.a0 fun featureId => .set featureId param.a1 param.a2
  | Fwft.get => withU32 param.a0 .get
  | _ => .answer .notSupported

/-! ## DBTR, MPXY and SSE -/

/-- The methods of `Dbtr`. -/
inductive Dbtr.Method (xlen : Xlen)
  | numTriggers (trigTdata1 : Word xlen)
  | setShmem (shmem : SharedPtr xlen) (flags : Word xlen)
  | readTriggers (trigIdxBase trigCount : Word xlen)
  | installTriggers (trigCount : Word xlen)
  | updateTriggers (trigCount : Word xlen)
  | uninstallTriggers (triggers : TriggerMask xlen)
  | enableTriggers (triggers : TriggerMask xlen)
  | disableTriggers (triggers : TriggerMask xlen)
  deriving DecidableEq

/-- `_rustsbi_dbtr`. -/
def rustsbiDbtr (param : Params xlen) (function : Word xlen) : Served xlen (Dbtr.Method xlen) :=
  match function.toNat with
  | Dbtr.numTriggers => .invoke (.numTriggers param.a0)
  | Dbtr.setShmem => .invoke (.setShmem ⟨param.a0, param.a1⟩ param.a2)
  | Dbtr.readTriggers => .invoke (.readTriggers param.a0 param.a1)
  | Dbtr.installTriggers => .invoke (.installTriggers param.a0)
  | Dbtr.updateTriggers => .invoke (.updateTriggers param.a0)
  | Dbtr.uninstallTriggers => .invoke (.uninstallTriggers (.fromMaskBase param.a0 param.a1))
  | Dbtr.enableTriggers => .invoke (.enableTriggers (.fromMaskBase param.a0 param.a1))
  | Dbtr.disableTriggers => .invoke (.disableTriggers (.fromMaskBase param.a0 param.a1))
  | _ => .answer .notSupported

/-- The methods of `Mpxy`. -/
inductive Mpxy.Method (xlen : Xlen)
  | getShmemSize
  | setShmem (shmem : SharedPtr xlen) (flags : Word xlen)
  | getChannelIds (startIndex : BitVec 32)
  | readAttributes (channelId baseAttributeId attributeCount : BitVec 32) (output : SharedPtr xlen)
  | writeAttributes (channelId baseAttributeId attributeCount : BitVec 32) (input : SharedPtr xlen)
  | sendMessageWithResponse (channelId messageId : BitVec 32) (messageDataLen : Word xlen)
  | sendMessageWithoutResponse (channelId messageId : BitVec 32) (messageDataLen : Word xlen)
  | getNotificationEvents (channelId : BitVec 32)
  deriving DecidableEq

/-- `_rustsbi_mpxy`. -/
def rustsbiMpxy (param : Params xlen) (function : Word xlen) : Served xlen (Mpxy.Method xlen) :=
  match function.toNat with
  | Mpxy.getShmemSize => .invoke .getShmemSize
  | Mpxy.setShmem => .invoke (.setShmem ⟨param.a0, param.a1⟩ param.a2)
  | Mpxy.getChannelIds => withU32 param.a0 .getChannelIds
  | Mpxy.readAttribute =>
    withU32Triple param.a0 param.a1 param.a2 fun channelId baseAttributeId attributeCount =>
      .readAttributes channelId baseAttributeId attributeCount ⟨param.a3, param.a4⟩
  | Mpxy.writeAttribute =>
    withU32Triple param.a0 param.a1 param.a2 fun channelId baseAttributeId attributeCount =>
      .writeAttributes channelId baseAttributeId attributeCount ⟨param.a3, param.a4⟩
  | Mpxy.sendMessageWithResponse =>
    withU32Pair param.a0 param.a1 fun channelId messageId =>
      .sendMessageWithResponse channelId messageId param.a2
  | Mpxy.sendMessageWithoutResponse =>
    withU32Pair param.a0 param.a1 fun channelId messageId =>
      .sendMessageWithoutResponse channelId messageId param.a2
  | Mpxy.getNotificationEvents => withU32 param.a0 .getNotificationEvents
  | _ => .answer .notSupported

/-- The methods of `Sse`. -/
inductive Sse.Method (xlen : Xlen)
  | readAttrs (eventId baseAttrId attrCount : BitVec 32) (output : SharedPtr xlen)
  | writeAttrs (eventId baseAttrId attrCount : BitVec 32) (input : SharedPtr xlen)
  | register (eventId : BitVec 32) (handlerEntryPc handlerEntryArg : Word xlen)
  | unregister (eventId : BitVec 32)
  | enable (eventId : BitVec 32)
  | disable (eventId : BitVec 32)
  | complete
  | inject (eventId : BitVec 32) (hartId : Word xlen)
  | hartUnmask
  | hartMask
  deriving DecidableEq

/-- `_rustsbi_sse`. -/
def rustsbiSse (param : Params xlen) (function : Word xlen) : Served xlen (Sse.Method xlen) :=
  match function.toNat with
  | Sse.readAttrs =>
    withU32Triple param.a0 param.a1 param.a2 fun eventId baseAttrId attrCount =>
      .readAttrs eventId baseAttrId attrCount ⟨param.a3, param.a4⟩
  | Sse.writeAttrs =>
    withU32Triple param.a0 param.a1 param.a2 fun eventId baseAttrId attrCount =>
      .writeAttrs eventId baseAttrId attrCount ⟨param.a3, param.a4⟩
  | Sse.register => withU32 param.a0 fun eventId => .register eventId param.a1 param.a2
  | Sse.unregister => withU32 param.a0 .unregister
  | Sse.enable => withU32 param.a0 .enable
  | Sse.disable => withU32 param.a0 .disable
  | Sse.complete => .invoke .complete
  | Sse.inject => withU32 param.a0 fun eventId => .inject eventId param.a1
  | Sse.hartUnmask => .invoke .hartUnmask
  | Sse.hartMask => .invoke .hartMask
  | _ => .answer .notSupported

/-! ## All extensions -/

/-- The methods of the trait of an extension. -/
def Extension.Method (xlen : Xlen) : Extension → Type
  | fence => Fence.Method xlen
  | hsm => Hsm.Method xlen
  | ipi => Ipi.Method xlen
  | reset => Reset.Method
  | timer => Timer.Method
  | pmu => Pmu.Method xlen
  | console => Console.Method xlen
  | susp => Susp.Method xlen
  | cppc => Cppc.Method
  | nacl => Nacl.Method xlen
  | sta => Sta.Method xlen
  | mpxy => Mpxy.Method xlen
  | dbtr => Dbtr.Method xlen
  | fwft => Fwft.Method xlen
  | sse => Sse.Method xlen

/-- The dispatcher of an extension. -/
def Extension.dispatch :
    (ext : Extension) → Params xlen → Word xlen → Served xlen (ext.Method xlen)
  | fence => rustsbiFence
  | hsm => rustsbiHsm
  | ipi => rustsbiIpi
  | reset => rustsbiReset
  | timer => rustsbiTimer
  | pmu => rustsbiPmu
  | console => rustsbiConsole
  | susp => rustsbiSusp
  | cppc => rustsbiCppc
  | nacl => rustsbiNacl
  | sta => rustsbiSta
  | mpxy => rustsbiMpxy
  | dbtr => rustsbiDbtr
  | fwft => rustsbiFwft
  | sse => rustsbiSse

/-- What a method returns to its dispatcher. -/
def Extension.Output : (ext : Extension) → ext.Method xlen → Type
  | timer, _ => Unit
  | pmu, m =>
    match (m : Pmu.Method xlen) with
    | .numCounters => Word xlen
    | _ => SbiRet xlen
  | dbtr, m =>
    match (m : Dbtr.Method xlen) with
    | .numTriggers _ => Word xlen
    | _ => SbiRet xlen
  | mpxy, m =>
    match (m : Mpxy.Method xlen) with
    | .getShmemSize => Word xlen
    | _ => SbiRet xlen
  | _, _ => SbiRet xlen

/-- What the dispatcher answers then. -/
def Extension.reply : (ext : Extension) → (m : ext.Method xlen) → ext.Output m → SbiRet xlen
  | timer, _, _ => .success 0
  | pmu, m, output =>
    match (m : Pmu.Method xlen), output with
    | .numCounters, count => .success count
    | .counterGetInfo _, ret => ret
    | .counterConfigMatching _ _ _ _ _, ret => ret
    | .counterStart _ _ _ _, ret => ret
    | .counterStop _ _ _, ret => ret
    | .counterFwRead _, ret => ret
    | .counterFwReadHi _, ret => ret
    | .snapshotSetShmem _ _, ret => ret
  | dbtr, m, output =>
    match (m : Dbtr.Method xlen), output with
    | .numTriggers _, count => .success count
    | .setShmem _ _, ret => ret
    | .readTriggers _ _, ret => ret
    | .installTriggers _, ret => ret
    | .updateTriggers _, ret => ret
    | .uninstallTriggers _, ret => ret
    | .enableTriggers _, ret => ret
    | .disableTriggers _, ret => ret
  | mpxy, m, output =>
    match (m : Mpxy.Method xlen), output with
    | .getShmemSize, size => .success size
    | .setShmem _ _, ret => ret
    | .getChannelIds _, ret => ret
    | .readAttributes _ _ _ _, ret => ret
    | .writeAttributes _ _ _ _, ret => ret
    | .sendMessageWithResponse _ _ _, ret => ret
    | .sendMessageWithoutResponse _ _ _, ret => ret
    | .getNotificationEvents _, ret => ret
  | fence, _, ret => ret
  | hsm, _, ret => ret
  | ipi, _, ret => ret
  | reset, _, ret => ret
  | console, _, ret => ret
  | susp, _, ret => ret
  | cppc, _, ret => ret
  | nacl, _, ret => ret
  | sta, _, ret => ret
  | fwft, _, ret => ret
  | sse, _, ret => ret

/-- A call of the dispatcher of an extension on an implementation of its trait. -/
def Extension.serve (ext : Extension) (implementation : (m : ext.Method xlen) → ext.Output m)
    (param : Params xlen) (function : Word xlen) : SbiRet xlen :=
  match ext.dispatch param function with
  | .answer ret => ret
  | .invoke m => ext.reply m (implementation m)

end RustSbi.Ecall
