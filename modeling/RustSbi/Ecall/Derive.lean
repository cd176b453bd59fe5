import RustSbi.Ecall.Dispatch

/-!
The `RustSBI` and `VendorSBI` derive macros: how the fields of a struct are assigned to
extensions, and what the generated probe and dispatch code does at run time. A struct that
does not compile derives nothing.
-/

namespace RustSbi.Ecall

variable {xlen : Xlen}

/-! ## Structs and their fields -/

/-- `syn::Member`. -/
inductive Member
  | named (ident : String)
  | unnamed (index : Nat)
  deriving DecidableEq

/-- An item of a `#[rustsbi(..)]` attribute: a single identifier, or another path. -/
inductive Item
  | ident (name : String)
  | path

/-- A field of the struct, with the items of its `rustsbi` attributes in order. -/
structure Field where
  ident : Option String
  items : List Item

/-- The member of the field at a position of the struct. -/
def Field.member (field : Field) (index : Nat) : Member :=
  match field.ident with
  | some ident => .named ident
  | none => .unnamed index

/-- What an extension name stands for. -/
inductive Slot
  | extension (ext : Extension)
  | envInfo
  deriving DecidableEq

/-- The names of `replace_sbi_extension_ident` and `push_sbi_extension_ident`. -/
def slotOf (extensionName : String) : Option Slot :=
  match extensionName with
  | "rfnc" | "fence" => some (.extension .fence)
  | "hsm" => some (.extension .hsm)
  | "spi" | "ipi" => some (.extension .ipi)
  | "srst" | "reset" => some (.extension .reset)
  | "time" | "timer" => some (.extension .timer)
  | "pmu" => some (.extension .pmu)
  | "dbcn" | "console" => some (.extension .console)
  | "susp" => some (.extension .susp)
  | "cppc" => some (.extension .cppc)
  | "nacl" => some (.extension .nacl)
  | "sta" => some (.extension .sta)
  | "mpxy" => some (.extension .mpxy)
  | "dbtr" => some (.extension .dbtr)
  | "fwft" => some (.extension .fwft)
  | "sse" => some (.extension .sse)
  | "info" | "env_info" => some .envInfo
  | _ => none

/-- `StaticImpl`, with the members of the extensions by extension. -/
structure StaticImpl where
  field : Extension → Option Member
  envInfo : Option Member
  vendor : Option Member

/-- `DynamicImpl`. -/
structure DynamicImpl where
  field : Extension → List Member
  envInfo : Option Member
  vendor : Option Member

namespace StaticImpl

/-- `StaticImpl::default`. -/
def empty : StaticImpl := ⟨fun _ => none, none, none⟩

/-- `replace_sbi_extension_ident` for a known name, and `check_already_exists`. -/
def replace (imp : StaticImpl) (slot : Slot) (member : Member) : Option StaticImpl :=
  match slot with
  | .extension ext =>
    match imp.field ext with
    | none => some { imp with field := Function.update imp.field ext (some member) }
    | some _ => none
  | .envInfo =>
    match imp.envInfo with
    | none => some { imp with envInfo := some member }
    | some _ => none

/-- One item of a field attribute. -/
def addItem (member : Member) (imp : StaticImpl) : Item → Option StaticImpl
  | .ident "skip" => some imp
  | .ident "vendor" =>
    match imp.vendor with
    | none => some { imp with vendor := some member }
    | some _ => none
  | .ident name =>
    match slotOf name with
    | some slot => imp.replace slot member
    | none => none
  | .path => none

/-- One field: by its attributes if it has any, and otherwise by its name. -/
def addField (imp : StaticImpl) (field : Field) (index : Nat) : Option StaticImpl :=
  match field.items with
  | [] =>
    match field.ident.bind slotOf with
    | some slot => imp.replace slot (field.member index)
    | none => some imp
  | items => items.foldlM (addItem (field.member index)) imp

/-- The fields of a struct, from a position on. -/
def addFields (imp : StaticImpl) (index : Nat) : List Field → Option StaticImpl
  | [] => some imp
  | field :: rest => do (← imp.addField field index).addFields (index + 1) rest

end StaticImpl

namespace DynamicImpl

/-- `DynamicImpl::default`. -/
def empty : DynamicImpl := ⟨fun _ => [], none, none⟩

/-- `push_sbi_extension_ident` for a known name, with whether it reports success. -/
def push (imp : DynamicImpl) (slot : Slot) (member : Member) : Bool × DynamicImpl :=
  match slot with
  | .extension ext =>
    (true, { imp with field := Function.update imp.field ext (imp.field ext ++ [member]) })
  | .envInfo => (imp.envInfo.isNone, { imp with envInfo := some member })

/-- One item of a field attribute. -/
def addItem (member : Member) (imp : DynamicImpl) : Item → Option DynamicImpl
  | .ident "skip" => some imp
  | .ident "vendor" =>
    match imp.vendor with
    | none => some { imp with vendor := some member }
    | some _ => none
  | .ident name =>
    match slotOf name with
    | some slot => if (imp.push slot member).1 then some (imp.push slot member).2 else none
    | none => none
  | .path => none

/-- One field. A second environment given by a field name replaces the first. -/
def addField (imp : DynamicImpl) (field : Field) (index : Nat) : Option DynamicImpl :=
  match field.items with
  | [] =>
    match field.ident.bind slotOf with
    | some slot => some (imp.push slot (field.member index)).2
    | none => some imp
  | items => items.foldlM (addItem (field.member index)) imp

/-- The fields of a struct, from a position on. -/
def addFields (imp : DynamicImpl) (index : Nat) : List Field → Option DynamicImpl
  | [] => some imp
  | field :: rest => do (← imp.addField field index).addFields (index + 1) rest

end DynamicImpl

/-- `ParseMode`. -/
inductive ParseMode
  | static
  | dynamic
  deriving DecidableEq

/-- The two forms of the generated code. -/
inductive Derived
  | static (imp : StaticImpl)
  | dynamic (imp : DynamicImpl)

/-- `derive_rustsbi`. Without an environment field the `machine` feature is needed. -/
def deriveRustsbi (machine : Bool) (parseMode : ParseMode) (fields : List Field) : Option Derived :=
  match parseMode with
  | .static => do
    let imp ← StaticImpl.empty.addFields 0 fields
    if imp.envInfo.isSome || machine then some (.static imp) else none
  | .dynamic => do
    let imp ← DynamicImpl.empty.addFields 0 fields
    if imp.envInfo.isSome || machine then some (.dynamic imp) else none

/-! ## Values at run time -/

/-- What a field does as an implementation of the extension traits. -/
structure Implementation (xlen : Xlen) where
  probe : Extension → Word xlen
  method : (ext : Extension) → (m : ext.Method xlen) → ext.Output m

/-- `EnvInfo`. -/
structure EnvInfo (xlen : Xlen) where
  mvendorid : Word xlen
  marchid : Word xlen
  mimpid : Word xlen

/-- A field of a vendor struct, an implementation of the trait `Extension`. -/
structure VendorExtension (xlen : Xlen) where
  probe : Word xlen
  handle : Word xlen → Params xlen → SbiRet xlen

/-- The numbers that `validate` refuses for a vendor extension. -/
def reserved (id : Word xlen) : Bool :=
  id.toNat ≤ 8 ||
    [eidBase, eidTime, eidSpi, eidRfnc, eidHsm, eidSrst, eidPmu, eidDbcn, eidSusp, eidCppc, eidNacl,
      eidSta, eidMpxy, eidDbtr, eidFwft, eidSse].contains id

/-- The loop of `validate` over the remaining numbers, after those already seen. -/
def validateLoop (seen : List (Word xlen)) : List (Word xlen) → Bool
  | [] => true
  | id :: rest =>
    id.toNat < 2 ^ 32 && !reserved id && !seen.contains id && validateLoop (seen ++ [id]) rest

/-- `validate`. -/
def validate (ids : List (Word xlen)) : Bool := validateLoop [] ids

/-- A struct that derives `VendorSBI`: its extensions in order, each with its number and
its member, and the values of the members. -/
structure VendorStruct (xlen : Xlen) where
  extensions : List (Word xlen × Member)
  field : Member → VendorExtension xlen
  valid : validate (extensions.map Prod.fst) = true

/-- A value of a type that derives `VendorSBI`: a struct, or an enum in one of its
variants; an `Option` of such a type implements the trait as well. -/
inductive Vendor (xlen : Xlen)
  | struct (value : VendorStruct xlen)
  | variant (inner : Vendor xlen)
  | absent
  | present (inner : Vendor xlen)

/-- A value of a struct that derives `RustSBI`, by member, and the machine registers that
it reads without an environment field. -/
structure Platform (xlen : Xlen) where
  implementation : Member → Implementation xlen
  envInfo : Member → EnvInfo xlen
  vendor : Member → Vendor xlen
  machine : EnvInfo xlen

/-! ## The generated code -/

/-- The implementation that a call is forwarded to. -/
inductive Target
  | base
  | standard (ext : Extension) (member : Member)
  | vendor (member : Member)
  deriving DecidableEq

/-- What `handle_ecall` does: its answer, and the implementation that gave it. -/
structure Outcome (xlen : Xlen) where
  ret : SbiRet xlen
  forwarded : Option Target

/-- An answer that no implementation gives. -/
def Outcome.notSupported : Outcome xlen := ⟨.notSupported, none⟩

namespace Vendor

/-- `VendorSBI::probe_extension`. -/
def probeExtension (extension : Word xlen) : Vendor xlen → Word xlen
  | struct value =>
    match value.extensions.lookup extension with
    | some member => (value.field member).probe
    | none => 0
  | variant inner => inner.probeExtension extension
  | absent => 0
  | present inner => inner.probeExtension extension

/-- `VendorSBI::handle_ecall`. -/
def handleEcall (extension function : Word xlen) (param : Params xlen) : Vendor xlen → Outcome xlen
  | struct value =>
    match value.extensions.lookup extension with
    | some member =>
      if (value.field member).probe = 0 then .notSupported
      else ⟨(value.field member).handle function param, some (.vendor member)⟩
    | none => .notSupported
  | variant inner => inner.handleEcall extension function param
  | absent => .notSupported
  | present inner => inner.handleEcall extension function param

end Vendor

/-- `_rustsbi_base_env_info` and `_rustsbi_base_bare`, which differ in where they read the
identification of the machine. -/
def rustsbiBase (param : Params xlen) (function : Word xlen) (info : EnvInfo xlen)
    (probeExtension : Word xlen → Word xlen) : SbiRet xlen :=
  match function.toNat with
  | Base.getSbiSpecVersion => .success 0x2000000
  | Base.getSbiImplId => .success 4
  | Base.getSbiImplVersion => .success 0x401
  | Base.probeExtension => .success (probeExtension param.a0)
  | Base.getMvendorid => .success info.mvendorid
  | Base.getMarchid => .success info.marchid
  | Base.getMimpid => .success info.mimpid
  | _ => .notSupported

/-- The arms of `_StandardExtensionProbe::probe_extension` and of the generated prober,
after that of the base extension. -/
def probeArms : List (Word xlen × Extension) :=
  [(eidTime, .timer), (eidSpi, .ipi), (eidRfnc, .fence), (eidSrst, .reset), (eidHsm, .hsm),
    (eidPmu, .pmu), (eidDbcn, .console), (eidSusp, .susp), (eidCppc, .cppc), (eidNacl, .nacl),
    (eidSta, .sta), (eidMpxy, .mpxy), (eidDbtr, .dbtr), (eidFwft, .fwft), (eidSse, .sse)]

/-- The arms of the generated `handle_ecall`, without that of the base extension. -/
def dispatchArms : List (Word xlen × Extension) :=
  [(eidRfnc, .fence), (eidTime, .timer), (eidSpi, .ipi), (eidHsm, .hsm), (eidSrst, .reset),
    (eidPmu, .pmu), (eidDbcn, .console), (eidSusp, .susp), (eidCppc, .cppc), (eidNacl, .nacl),
    (eidSta, .sta), (eidMpxy, .mpxy), (eidDbtr, .dbtr), (eidFwft, .fwft), (eidSse, .sse)]

namespace Platform

/-- A call of the dispatcher of an extension on a field. -/
def forward (self : Platform xlen) (ext : Extension) (member : Member) (function : Word xlen)
    (param : Params xlen) : Outcome xlen :=
  ⟨ext.serve ((self.implementation member).method ext) param function, some (.standard ext member)⟩

/-- The base extension, with the environment field if there is one. -/
def base (self : Platform xlen) (envInfo : Option Member) (function : Word xlen)
    (param : Params xlen) (probeExtension : Word xlen → Word xlen) : Outcome xlen :=
  let info := match envInfo with
    | some member => self.envInfo member
    | none => self.machine
  ⟨rustsbiBase param function info probeExtension, some .base⟩

/-- The last arm of `handle_ecall`. -/
def vendorDispatch (self : Platform xlen) (vendor : Option Member) (extension function : Word xlen)
    (param : Params xlen) : Outcome xlen :=
  match vendor with
  | some member => (self.vendor member).handleEcall extension function param
  | none => .notSupported

/-- The code of a dynamic arm of `handle_ecall` for the remaining fields. -/
def contents (self : Platform xlen) (ext : Extension) (function : Word xlen) (param : Params xlen) :
    List Member → Outcome xlen
  | [] => .notSupported
  | member :: rest =>
    if (self.implementation member).probe ext ≠ 0 then self.forward ext member function param
    else self.contents ext function param rest

/-- The code of an arm of the dynamic prober for the remaining fields. -/
def prober (self : Platform xlen) (ext : Extension) : List Member → Word xlen
  | [] => 0
  | member :: rest =>
    let value := (self.implementation member).probe ext
    if value ≠ 0 then value else self.prober ext rest

end Platform

namespace StaticImpl

/-- `_StandardExtensionProbe::probe_extension`, with 1 for each extension that has a field. -/
def standardProbe (imp : StaticImpl) (extension : Word xlen) : Word xlen :=
  if extension = eidBase then 1
  else
    match probeArms.lookup extension with
    | some ext => if (imp.field ext).isSome then 1 else 0
    | none => 0

/-- The probe that is passed to the base extension. -/
def probeExtension (imp : StaticImpl) (self : Platform xlen) (extension : Word xlen) : Word xlen :=
  match imp.vendor with
  | some vendor =>
    let value := imp.standardProbe extension
    if value ≠ 0 then value else (self.vendor vendor).probeExtension extension
  | none => imp.standardProbe extension

/-- The generated arms: an extension without a field has none. -/
def matchArms (imp : StaticImpl) : List (Word xlen × Extension × Member) :=
  dispatchArms.filterMap fun (eid, ext) => (imp.field ext).map fun member => (eid, ext, member)

/-- The generated `handle_ecall` of the static mode. -/
def handleEcall (imp : StaticImpl) (self : Platform xlen) (extension function : Word xlen)
    (param : Params xlen) : Outcome xlen :=
  if extension = eidBase then self.base imp.envInfo function param (imp.probeExtension self)
  else
    match imp.matchArms.lookup extension with
    | some (ext, member) => self.forward ext member function param
    | none => self.vendorDispatch imp.vendor extension function param

end StaticImpl

namespace DynamicImpl

/-- `probe_extension` of the generated prober. -/
def probeExtension (imp : DynamicImpl) (self : Platform xlen) (extension : Word xlen) : Word xlen :=
  if extension = eidBase then 1
  else
    match probeArms.lookup extension with
    | some ext => self.prober ext (imp.field ext)
    | none =>
      match imp.vendor with
      | some vendor => (self.vendor vendor).probeExtension extension
      | none => 0

/-- The generated `handle_ecall` of the dynamic mode. -/
def handleEcall (imp : DynamicImpl) (self : Platform xlen) (extension function : Word xlen)
    (param : Params xlen) : Outcome xlen :=
  match dispatchArms.lookup extension with
  | some ext => self.contents ext function param (imp.field ext)
  | none =>
    if extension = eidBase then self.base imp.envInfo function param (imp.probeExtension self)
    else self.vendorDispatch imp.vendor extension function param

end DynamicImpl

/-- `RustSBI::handle_ecall` of a struct that derives it. -/
def Derived.handleEcall (self : Platform xlen) (extension function : Word xlen)
    (param : Params xlen) : Derived → Outcome xlen
  | .static imp => imp.handleEcall self extension function param
  | .dynamic imp => imp.handleEcall self extension function param

end RustSbi.Ecall
