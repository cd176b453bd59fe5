import RustSbi.Target

/-!
The binary interface of an SBI call, as `sbi-spec` has it: the registers of a call and
of its answer, the extension and function numbers, and the argument types that take
more than one register.
-/

namespace RustSbi.Ecall

variable {xlen : Xlen}

/-- `usize`, a register. -/
abbrev Word (xlen : Xlen) := BitVec xlen.bits

/-- `SbiRet`, the two registers of an answer. -/
structure SbiRet (xlen : Xlen) where
  error : Word xlen
  value : Word xlen
  deriving DecidableEq

namespace SbiRet

def success (value : Word xlen) : SbiRet xlen := ⟨0, value⟩

def notSupported : SbiRet xlen := ⟨-2, 0⟩

def invalidParam : SbiRet xlen := ⟨-3, 0⟩

end SbiRet

/-- The argument registers of a call, `[usize; 6]`. -/
structure Params (xlen : Xlen) where
  a0 : Word xlen
  a1 : Word xlen
  a2 : Word xlen
  a3 : Word xlen
  a4 : Word xlen
  a5 : Word xlen
  deriving DecidableEq

/-! ## Arguments -/

/-- `HartMask`. -/
structure HartMask (xlen : Xlen) where
  hartMask : Word xlen
  hartMaskBase : Word xlen
  deriving DecidableEq

/-- `HartMask::from_mask_base`. -/
def HartMask.fromMaskBase (hartMask hartMaskBase : Word xlen) : HartMask xlen :=
  ⟨hartMask, hartMaskBase⟩

/-- `HartMask::into_inner`. -/
def HartMask.intoInner (harts : HartMask xlen) : Word xlen × Word xlen :=
  (harts.hartMask, harts.hartMaskBase)

/-- `CounterMask`. -/
structure CounterMask (xlen : Xlen) where
  counterIdxMask : Word xlen
  counterIdxBase : Word xlen
  deriving DecidableEq

/-- `CounterMask::into_inner`. -/
def CounterMask.intoInner (counters : CounterMask xlen) : Word xlen × Word xlen :=
  (counters.counterIdxMask, counters.counterIdxBase)

/-- `TriggerMask`. -/
structure TriggerMask (xlen : Xlen) where
  trigIdxBase : Word xlen
  trigIdxMask : Word xlen
  deriving DecidableEq

/-- `TriggerMask::from_mask_base`. -/
def TriggerMask.fromMaskBase (trigIdxMask trigIdxBase : Word xlen) : TriggerMask xlen :=
  ⟨trigIdxBase, trigIdxMask⟩

/-- `TriggerMask::into_inner`. -/
def TriggerMask.intoInner (triggers : TriggerMask xlen) : Word xlen × Word xlen :=
  (triggers.trigIdxMask, triggers.trigIdxBase)

/-- `SharedPtr`. -/
structure SharedPtr (xlen : Xlen) where
  physAddrLo : Word xlen
  physAddrHi : Word xlen
  deriving DecidableEq

/-- `Physical`. -/
structure Physical (xlen : Xlen) where
  numBytes : Word xlen
  physAddrLo : Word xlen
  physAddrHi : Word xlen
  deriving DecidableEq

/-! ## Extensions -/

/-- `eid_from_str`: the bytes of the name, most significant first, as an `i32`. -/
def eidFromStr (name : List Char) : BitVec 32 :=
  name.foldl (fun eid c => eid <<< 8 ||| BitVec.ofNat 32 c.toNat) 0

def eidBase : Word xlen := 0x10
def eidTime : Word xlen := (eidFromStr ['T', 'I', 'M', 'E']).signExtend xlen.bits
def eidSpi : Word xlen := (eidFromStr ['s', 'P', 'I']).signExtend xlen.bits
def eidRfnc : Word xlen := (eidFromStr ['R', 'F', 'N', 'C']).signExtend xlen.bits
def eidHsm : Word xlen := (eidFromStr ['H', 'S', 'M']).signExtend xlen.bits
def eidSrst : Word xlen := (eidFromStr ['S', 'R', 'S', 'T']).signExtend xlen.bits
def eidPmu : Word xlen := (eidFromStr ['P', 'M', 'U']).signExtend xlen.bits
def eidDbcn : Word xlen := (eidFromStr ['D', 'B', 'C', 'N']).signExtend xlen.bits
def eidSusp : Word xlen := (eidFromStr ['S', 'U', 'S', 'P']).signExtend xlen.bits
def eidCppc : Word xlen := (eidFromStr ['C', 'P', 'P', 'C']).signExtend xlen.bits
def eidNacl : Word xlen := (eidFromStr ['N', 'A', 'C', 'L']).signExtend xlen.bits
def eidSta : Word xlen := (eidFromStr ['S', 'T', 'A']).signExtend xlen.bits
def eidSse : Word xlen := (eidFromStr ['S', 'S', 'E']).signExtend xlen.bits
def eidFwft : Word xlen := (eidFromStr ['F', 'W', 'F', 'T']).signExtend xlen.bits
def eidDbtr : Word xlen := (eidFromStr ['D', 'B', 'T', 'R']).signExtend xlen.bits
def eidMpxy : Word xlen := (eidFromStr ['M', 'P', 'X', 'Y']).signExtend xlen.bits

/-- The extensions that a trait of `rustsbi` implements, under the names of its fields. -/
inductive Extension
  | fence
  | hsm
  | ipi
  | reset
  | timer
  | pmu
  | console
  | susp
  | cppc
  | nacl
  | sta
  | mpxy
  | dbtr
  | fwft
  | sse
  deriving DecidableEq

/-- The number of an extension. -/
def Extension.eid : Extension → Word xlen
  | fence => eidRfnc
  | hsm => eidHsm
  | ipi => eidSpi
  | reset => eidSrst
  | timer => eidTime
  | pmu => eidPmu
  | console => eidDbcn
  | susp => eidSusp
  | cppc => eidCppc
  | nacl => eidNacl
  | sta => eidSta
  | mpxy => eidMpxy
  | dbtr => eidDbtr
  | fwft => eidFwft
  | sse => eidSse

/-- All the extensions. -/
def Extension.all : List Extension :=
  [fence, hsm, ipi, reset, timer, pmu, console, susp, cppc, nacl, sta, mpxy, dbtr, fwft, sse]

theorem Extension.mem_all (ext : Extension) : ext ∈ all := by
  cases ext <;> decide

theorem Extension.eid_inj {a b : Extension} (h : (a.eid : Word xlen) = b.eid) : a = b := by
  have hall : ∀ a ∈ all, ∀ b ∈ all, (a.eid : Word xlen) = b.eid → a = b := by
    cases xlen <;> decide +kernel
  exact hall a (mem_all a) b (mem_all b) h

theorem Extension.eid_ne_base (ext : Extension) : ext.eid ≠ (eidBase : Word xlen) := by
  have hall : ∀ ext ∈ all, ext.eid ≠ (eidBase : Word xlen) := by
    cases xlen <;> decide +kernel
  exact hall ext (mem_all ext)

/-! ## Functions -/

namespace Base
@[match_pattern] abbrev getSbiSpecVersion : Nat := 0
@[match_pattern] abbrev getSbiImplId : Nat := 1
@[match_pattern] abbrev getSbiImplVersion : Nat := 2
@[match_pattern] abbrev probeExtension : Nat := 3
@[match_pattern] abbrev getMvendorid : Nat := 4
@[match_pattern] abbrev getMarchid : Nat := 5
@[match_pattern] abbrev getMimpid : Nat := 6
end Base

namespace Time
@[match_pattern] abbrev setTimer : Nat := 0
end Time

namespace Spi
@[match_pattern] abbrev sendIpi : Nat := 0
end Spi

namespace Rfnc
@[match_pattern] abbrev remoteFenceI : Nat := 0
@[match_pattern] abbrev remoteSfenceVma : Nat := 1
@[match_pattern] abbrev remoteSfenceVmaAsid : Nat := 2
@[match_pattern] abbrev remoteHfenceGvmaVmid : Nat := 3
@[match_pattern] abbrev remoteHfenceGvma : Nat := 4
@[match_pattern] abbrev remoteHfenceVvmaAsid : Nat := 5
@[match_pattern] abbrev remoteHfenceVvma : Nat := 6
end Rfnc

namespace Hsm
@[match_pattern] abbrev hartStart : Nat := 0
@[match_pattern] abbrev hartStop : Nat := 1
@[match_pattern] abbrev hartGetStatus : Nat := 2
@[match_pattern] abbrev hartSuspend : Nat := 3
end Hsm

namespace Srst
@[match_pattern] abbrev systemReset : Nat := 0
end Srst

namespace Pmu
@[match_pattern] abbrev numCounters : Nat := 0
@[match_pattern] abbrev counterGetInfo : Nat := 1
@[match_pattern] abbrev counterConfigMatching : Nat := 2
@[match_pattern] abbrev counterStart : Nat := 3
@[match_pattern] abbrev counterStop : Nat := 4
@[match_pattern] abbrev counterFwRead : Nat := 5
@[match_pattern] abbrev counterFwReadHi : Nat := 6
@[match_pattern] abbrev snapshotSetShmem : Nat := 7
end Pmu

namespace Dbcn
@[match_pattern] abbrev consoleWrite : Nat := 0
@[match_pattern] abbrev consoleRead : Nat := 1
@[match_pattern] abbrev consoleWriteByte : Nat := 2
end Dbcn

namespace Susp
@[match_pattern] abbrev suspend : Nat := 0
end Susp

namespace Cppc
@[match_pattern] abbrev probe : Nat := 0
@[match_pattern] abbrev read : Nat := 1
@[match_pattern] abbrev readHi : Nat := 2
@[match_pattern] abbrev write : Nat := 3
end Cppc

namespace Nacl
@[match_pattern] abbrev probeFeature : Nat := 0
@[match_pattern] abbrev setShmem : Nat := 1
@[match_pattern] abbrev syncCsr : Nat := 2
@[match_pattern] abbrev syncHfence : Nat := 3
@[match_pattern] abbrev syncSret : Nat := 4
end Nacl

namespace Sta
@[match_pattern] abbrev setShmem : Nat := 0
end Sta

namespace Sse
@[match_pattern] abbrev readAttrs : Nat := 0
@[match_pattern] abbrev writeAttrs : Nat := 1
@[match_pattern] abbrev register : Nat := 2
@[match_pattern] abbrev unregister : Nat := 3
@[match_pattern] abbrev enable : Nat := 4
@[match_pattern] abbrev disable : Nat := 5
@[match_pattern] abbrev complete : Nat := 6
@[match_pattern] abbrev inject : Nat := 7
@[match_pattern] abbrev hartUnmask : Nat := 8
@[match_pattern] abbrev hartMask : Nat := 9
end Sse

namespace Fwft
@[match_pattern] abbrev set : Nat := 0
@[match_pattern] abbrev get : Nat := 1
end Fwft

namespace Dbtr
@[match_pattern] abbrev numTriggers : Nat := 0
@[match_pattern] abbrev setShmem : Nat := 1
@[match_pattern] abbrev readTriggers : Nat := 2
@[match_pattern] abbrev installTriggers : Nat := 3
@[match_pattern] abbrev updateTriggers : Nat := 4
@[match_pattern] abbrev uninstallTriggers : Nat := 5
@[match_pattern] abbrev enableTriggers : Nat := 6
@[match_pattern] abbrev disableTriggers : Nat := 7
end Dbtr

namespace Mpxy
@[match_pattern] abbrev getShmemSize : Nat := 0
@[match_pattern] abbrev setShmem : Nat := 1
@[match_pattern] abbrev getChannelIds : Nat := 2
@[match_pattern] abbrev readAttribute : Nat := 3
@[match_pattern] abbrev writeAttribute : Nat := 4
@[match_pattern] abbrev sendMessageWithResponse : Nat := 5
@[match_pattern] abbrev sendMessageWithoutResponse : Nat := 6
@[match_pattern] abbrev getNotificationEvents : Nat := 7
end Mpxy

end RustSbi.Ecall
