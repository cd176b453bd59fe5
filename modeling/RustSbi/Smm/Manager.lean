import Mathlib.Data.Nat.Log
import RustSbi.Smm.Slots
import RustSbi.Target

/-!
The unified secure-memory manager (`smm/src/manager.rs`) with its regions
(`smm/src/lib.rs`) and the allocators inside them (`smm/src/allocators.rs`). The
buddy allocator of an application region is a crate of its own and a parameter here.
-/

namespace RustSbi.Smm

open Checked (Panic)

/-! ## Machine arithmetic -/

/-- How the crate is built: the width of `usize`, and whether arithmetic that
overflows panics (the development profile) or wraps (the release profile). -/
structure Build where
  xlen : Xlen
  overflowChecks : Bool
  deriving DecidableEq, Repr

namespace Build

/-- `a + b`. -/
def add (build : Build) (a b : Nat) : Except Panic Nat :=
  if a + b < build.xlen.words then pure (a + b)
  else if build.overflowChecks then throw .addOverflow
  else pure ((a + b) % build.xlen.words)

/-- `a - b`. -/
def sub (build : Build) (a b : Nat) : Except Panic Nat :=
  if b ≤ a then pure (a - b)
  else if build.overflowChecks then throw .subtractUnderflow
  else pure (a + build.xlen.words - b)

/-- `usize::checked_add`. -/
def checkedAdd (build : Build) (a b : Nat) : Option Nat :=
  if a + b < build.xlen.words then some (a + b) else none

/-- `usize::next_power_of_two`. -/
def nextPowerOfTwo (build : Build) (n : Nat) : Except Panic Nat :=
  if 2 ^ Nat.clog 2 n < build.xlen.words then pure (2 ^ Nat.clog 2 n)
  else if build.overflowChecks then throw .addOverflow
  else pure 0

end Build

/-- `core::alloc::Layout`. -/
structure Layout where
  size : Nat
  align : Nat
  deriving DecidableEq, Repr

/-- `Layout::from_size_align`: the alignment is a power of two, and the size
rounded up to it is at most `isize::MAX`. -/
def Layout.fromSizeAlign (build : Build) (size align : Nat) : Option Layout :=
  if align ≠ 0 ∧ align &&& (align - 1) = 0 ∧ size + align ≤ build.xlen.words / 2 then
    some ⟨size, align⟩
  else none

/-! ## Allocators -/

/-- `SecMemAllocator`. A pointer is its address, and `NonNull` one that is not zero. -/
class SecMemAllocator (α : Type) where
  new : α
  init : α → (addr len : Nat) → Except Panic α
  alloc : α → Layout → Except Panic (Option Nat × α)
  free : α → (ptr : Nat) → Layout → Except Panic α
  available : α → Except Panic Nat
  total : α → Nat

open SecMemAllocator

/-- `NoneAlloc`, which keeps the default methods. -/
inductive NoneAlloc
  | mk
  deriving DecidableEq, Repr

instance : SecMemAllocator NoneAlloc where
  new := .mk
  init a _ _ := pure a
  alloc a _ := pure (none, a)
  free a _ _ := pure a
  available _ := pure 0
  total _ := 0

/-- `RTAlloc`. -/
structure RTAlloc where
  addr : Nat
  len : Nat
  total : Nat
  deriving DecidableEq, Repr

namespace RTAlloc

/-- `NonNull::new`. -/
def nonNull (addr : Nat) : Option Nat := if addr = 0 then none else some addr

instance : SecMemAllocator RTAlloc where
  new := ⟨0, 0, 0⟩
  init _ addr len := pure ⟨addr, len, len⟩
  alloc a layout :=
    if a.len < layout.size then pure (none, a)
    -- The region counts as taken even when its address is no valid pointer.
    else pure (nonNull a.addr, { a with len := 0 })
  free a ptr layout :=
    if ptr ≠ a.addr then throw .explicit else pure { a with len := layout.size }
  available a := pure a.len
  total a := a.total

end RTAlloc

/-- `buddy_system_allocator::Heap`. -/
class BuddyHeap (H : Type) where
  new : H
  init : H → (start size : Nat) → Except Panic H
  alloc : H → Layout → Except Panic (Option Nat × H)
  dealloc : H → (ptr : Nat) → Layout → Except Panic H
  statsTotalBytes : H → Nat
  statsAllocActual : H → Nat

/-- `AppAlloc`. -/
structure AppAlloc (build : Build) (H : Type) where
  buddy : H
  deriving DecidableEq, Repr

instance (build : Build) (H : Type) [BuddyHeap H] : SecMemAllocator (AppAlloc build H) where
  new := ⟨BuddyHeap.new⟩
  init a addr len := do
    let buddy ← BuddyHeap.init a.buddy addr len
    pure ⟨buddy⟩
  alloc a layout := do
    let (ptr, buddy) ← BuddyHeap.alloc a.buddy layout
    pure (ptr, ⟨buddy⟩)
  free a ptr layout := do
    let buddy ← BuddyHeap.dealloc a.buddy ptr layout
    pure ⟨buddy⟩
  available a := build.sub (BuddyHeap.statsTotalBytes a.buddy) (BuddyHeap.statsAllocActual a.buddy)
  total a := BuddyHeap.statsTotalBytes a.buddy

/-- `SecMemAllocatorWrapper`. -/
inductive SecMemAllocatorWrapper (AR AA : Type)
  | none
  | general
  | runtime (alloc : AR)
  | application (alloc : AA)
  deriving DecidableEq, Repr

/-- `SecMemType`. -/
inductive SecMemType
  | none
  | general
  | runtime
  | application
  deriving DecidableEq, Repr

/-! ## Regions -/

/-- `SecMemRegion`. -/
structure SecMemRegion (AR AA : Type) where
  addr : Nat
  len : Nat
  id : Nat
  slot : Nat
  isUsed : Bool
  allocator : SecMemAllocatorWrapper AR AA
  deriving DecidableEq, Repr

namespace SecMemRegion

variable {AR AA : Type}

def new (addr len id slot : Nat) : SecMemRegion AR AA :=
  { addr, len, id, slot, isUsed := false, allocator := .general }

/-- `is_mem_overlap`. -/
def isMemOverlap (build : Build) (region : SecMemRegion AR AA) (addr len : Nat) :
    Except Panic Bool := do
  let selfEnd ← build.add region.addr region.len
  match build.checkedAdd addr len with
  | some targetEnd => pure (decide (addr < selfEnd) && decide (region.addr < targetEnd))
  | none => pure true

/-- `is_mem_contained`. -/
def isMemContained (build : Build) (region : SecMemRegion AR AA) (addr len : Nat) :
    Except Panic Bool := do
  let selfEnd ← build.add region.addr region.len
  match build.checkedAdd addr len with
  | some targetEnd => pure (decide (region.addr ≤ addr) && decide (targetEnd ≤ selfEnd))
  | none => pure false

variable [SecMemAllocator AR] [SecMemAllocator AA]

/-- The first part of the loop body of `alloc_em`: a general region takes the type
of the request. -/
def specialise (region : SecMemRegion AR AA) (emType : SecMemType) :
    Except Panic (SecMemRegion AR AA) :=
  match region.allocator, emType with
  | .general, .runtime => do
    let alloc ← SecMemAllocator.init (SecMemAllocator.new : AR) region.addr region.len
    pure { region with allocator := .runtime alloc }
  | .general, .application => do
    let alloc ← SecMemAllocator.init (SecMemAllocator.new : AA) region.addr region.len
    pure { region with allocator := .application alloc }
  | _, _ => pure region

/-- How the allocation in one region ends: with a pointer and the length it was
made for, with no layout of that length, which leaves `alloc_em`, or without memory,
which goes on to the next region. -/
inductive Attempt
  | found (ptr expectLen : Nat)
  | noLayout
  | refused (expectLen : Nat)
  deriving DecidableEq, Repr

/-- The second part of the loop body of `alloc_em`: a region of the requested type
with enough memory is asked for it. A runtime region is handed out whole. -/
def tryAlloc (build : Build) (region : SecMemRegion AR AA) (emType : SecMemType)
    (expectLen : Nat) : Except Panic (Attempt × SecMemRegion AR AA) :=
  match region.allocator, emType with
  | .runtime alloc, .runtime => do
    let available ← available alloc
    if expectLen ≤ available then
      match Layout.fromSizeAlign build available available with
      | Option.none => pure (.noLayout, region)
      | some layout =>
        match ← SecMemAllocator.alloc alloc layout with
        | (some ptr, alloc) =>
          pure (.found ptr available, { region with isUsed := true, allocator := .runtime alloc })
        | (Option.none, alloc) =>
          pure (.refused available, { region with allocator := .runtime alloc })
    else pure (.refused expectLen, region)
  | .application alloc, .application => do
    let available ← available alloc
    if expectLen ≤ available then
      match Layout.fromSizeAlign build expectLen expectLen with
      | Option.none => pure (.noLayout, region)
      | some layout =>
        match ← SecMemAllocator.alloc alloc layout with
        | (some ptr, alloc) =>
          pure (.found ptr expectLen,
            { region with isUsed := true, allocator := .application alloc })
        | (Option.none, alloc) =>
          pure (.refused expectLen, { region with allocator := .application alloc })
    else pure (.refused expectLen, region)
  | _, _ => pure (.refused expectLen, region)

/-- The body of `free_em` once the region is found: a region without allocated
memory becomes general again. -/
def release (region : SecMemRegion AR AA) (ptr : Nat) (layout : Layout) :
    Except Panic (Option Nat × SecMemRegion AR AA) :=
  match region.allocator with
  | .application alloc => do
    let alloc ← free alloc ptr layout
    if (← available alloc) = total alloc then
      pure (some region.id, { region with isUsed := false, allocator := .general })
    else pure (some region.id, { region with allocator := .application alloc })
  | .runtime alloc => do
    let alloc ← free alloc ptr layout
    if (← available alloc) = total alloc then
      pure (some region.id, { region with isUsed := false, allocator := .general })
    else pure (some region.id, { region with allocator := .runtime alloc })
  | _ => pure (Option.none, region)

end SecMemRegion

/-! ## The manager -/

/-- `UNI_SECMEM_SM_SLOT`. -/
def smSlot : Nat := 1 <<< 0

/-- `UNI_SECMEM_TEMP_SLOT`. -/
def tempSlot : Nat := 1 <<< 1

/-- `UNI_SECMEM_DEFAULT_SLOT`. -/
def defaultSlot : Nat := 1 <<< (maxPmpEntryCount - 1)

/-- `UNI_SECMEM_PMP_ALLOCMASK`. -/
def pmpAllocMask : BitVec 64 :=
  (1#64 <<< maxPmpEntryCount - 1#64) &&& ~~~BitVec.ofNat 64 (smSlot ||| tempSlot ||| tempSlot)

/-- `UNI_SECMEM_PMP_MANAGEMASK`. -/
def pmpManageMask : BitVec 64 :=
  pmpAllocMask &&& BitVec.ofNat 64 (smSlot ||| defaultSlot ||| tempSlot)

/-- The capacity that `new` gives the vector of managed regions. -/
def allocCapacity : Nat := maxPmpEntryCount - 3

/-- `UniSecMemManager`. -/
structure UniSecMemManager (AR AA : Type) where
  curIdx : Nat
  protector : TestSecMemProtector
  reservedRegions : List (SecMemRegion NoneAlloc NoneAlloc)
  allocRegions : List (SecMemRegion AR AA)
  deriving DecidableEq, Repr

namespace UniSecMemManager

variable {AR AA : Type}

def new : UniSecMemManager AR AA :=
  { curIdx := 0
    protector := .new pmpAllocMask pmpManageMask
    reservedRegions := []
    allocRegions := [] }

def init (build : Build) (m : UniSecMemManager AR AA) (smAddr smLen : Nat) :
    Except Panic (Bool × UniSecMemManager AR AA) := do
  let (disabled, protector) := m.protector.disable tempSlot
  if !disabled then pure (false, { m with protector })
  else
    let (granted, protector) := protector.grantAccessAll 0 build.xlen.usizeMax defaultSlot
    if !granted then pure (false, { m with protector })
    else if protector.isProtectable smAddr smLen then
      let (retrived, protector) := protector.retriveAccessAll smAddr smLen smSlot
      if retrived then
        let region := .new smAddr smLen m.curIdx smSlot
        let curIdx ← build.add m.curIdx 1
        pure (true, { m with
          curIdx, protector, reservedRegions := m.reservedRegions ++ [region] })
      else pure (false, { m with protector })
    else pure (false, { m with protector })

def extend (build : Build) (m : UniSecMemManager AR AA) (addr len : Nat) :
    Except Panic (Bool × UniSecMemManager AR AA) := do
  if !m.protector.isProtectable addr len then pure (false, m)
  else if allocCapacity ≤ m.allocRegions.length then pure (false, m)
  else if ← m.allocRegions.anyM fun r => r.isMemOverlap build addr len then pure (false, m)
  else
    match m.protector.alloc with
    | (some hwid, protector) =>
      let (retrived, protector) := protector.retriveAccessAll addr len hwid
      if !retrived then
        let (_, protector) := protector.free hwid
        pure (false, { m with protector })
      else
        let curIdx ← build.add m.curIdx 1
        pure (true, { m with
          curIdx, protector, allocRegions := m.allocRegions ++ [.new addr len curIdx hwid] })
    | (none, protector) => pure (true, { m with protector })

def reclaim (m : UniSecMemManager AR AA) :
    Except Panic (Option (Nat × Nat) × UniSecMemManager AR AA) := do
  match m.allocRegions.findIdx? fun region => region.isUsed == false with
  | none => pure (none, m)
  | some index =>
    let (region, allocRegions) ← Checked.swapRemove m.allocRegions index
    let (disabled, protector) := m.protector.disable region.slot
    if disabled then
      let (freed, protector) := protector.free region.slot
      if freed then pure (some (region.addr, region.len), { m with protector, allocRegions })
      else pure (none, { m with protector, allocRegions })
    else pure (none, { m with protector, allocRegions })

variable [SecMemAllocator AR] [SecMemAllocator AA]

/-- The loop of `alloc_em` over the regions. -/
def allocIn (build : Build) (len : Nat) (emType : SecMemType) :
    (expectLen : Nat) → List (SecMemRegion AR AA) →
      Except Panic (Option (Nat × Nat × Nat) × List (SecMemRegion AR AA))
  | _, [] => pure (none, [])
  | expectLen, region :: rest =>
    if region.len < len then do
      let (found, rest) ← allocIn build len emType expectLen rest
      pure (found, region :: rest)
    else do
      let region ← region.specialise emType
      match ← region.tryAlloc build emType expectLen with
      | (.found ptr expectLen, region) => pure (some (ptr, expectLen, region.id), region :: rest)
      | (.noLayout, region) => pure (none, region :: rest)
      | (.refused expectLen, region) =>
        let (found, rest) ← allocIn build len emType expectLen rest
        pure (found, region :: rest)

def allocEm (build : Build) (m : UniSecMemManager AR AA) (len : Nat) (emType : SecMemType) :
    Except Panic (Option (Nat × Nat × Nat) × UniSecMemManager AR AA) := do
  let expectLen ← build.nextPowerOfTwo len
  let (found, allocRegions) ← allocIn build len emType expectLen m.allocRegions
  pure (found, { m with allocRegions })

/-- The search of `free_em` for the region, and the release in it. -/
def freeIn (build : Build) (addr len : Nat) (layout : Layout) :
    List (SecMemRegion AR AA) → Except Panic (Option Nat × List (SecMemRegion AR AA))
  | [] => pure (none, [])
  | region :: rest => do
    if ← region.isMemContained build addr len then
      let (id, region) ← region.release addr layout
      pure (id, region :: rest)
    else
      let (id, rest) ← freeIn build addr len layout rest
      pure (id, region :: rest)

def freeEm (build : Build) (m : UniSecMemManager AR AA) (addr len : Nat) :
    Except Panic (Option Nat × UniSecMemManager AR AA) := do
  let expectLen ← build.nextPowerOfTwo len
  match Layout.fromSizeAlign build expectLen expectLen, RTAlloc.nonNull addr with
  | some layout, some ptr =>
    let (id, allocRegions) ← freeIn build ptr len layout m.allocRegions
    pure (id, { m with allocRegions })
  | _, _ => pure (none, m)

end UniSecMemManager

/-! ## Runs -/

/-- A call of the manager with the words that its caller passes. -/
inductive Request (build : Build)
  | init (smAddr smLen : BitVec build.xlen.bits)
  | extend (addr len : BitVec build.xlen.bits)
  | reclaim
  | allocEm (len : BitVec build.xlen.bits) (emType : SecMemType)
  | freeEm (addr len : BitVec build.xlen.bits)
  deriving DecidableEq, Repr

/-- What a call returns. -/
inductive Reply
  | done (ok : Bool)
  | area (region : Option (Nat × Nat))
  | block (found : Option (Nat × Nat × Nat))
  | region (id : Option Nat)
  deriving DecidableEq, Repr

namespace UniSecMemManager

variable {AR AA : Type} [SecMemAllocator AR] [SecMemAllocator AA] {build : Build}

/-- One call. -/
def call (m : UniSecMemManager AR AA) :
    Request build → Except Panic (Reply × UniSecMemManager AR AA)
  | .init smAddr smLen => do
    let (ok, m) ← m.init build smAddr.toNat smLen.toNat
    pure (.done ok, m)
  | .extend addr len => do
    let (ok, m) ← m.extend build addr.toNat len.toNat
    pure (.done ok, m)
  | .reclaim => do
    let (region, m) ← m.reclaim
    pure (.area region, m)
  | .allocEm len emType => do
    let (found, m) ← m.allocEm build len.toNat emType
    pure (.block found, m)
  | .freeEm addr len => do
    let (id, m) ← m.freeEm build addr.toNat len.toNat
    pure (.region id, m)

/-- A call that returns. A panic ends the run. -/
def Step (m : UniSecMemManager AR AA) (request : Request build) (m' : UniSecMemManager AR AA) :
    Prop :=
  ∃ reply, m.call request = .ok (reply, m')

/-- The state after a call, if it returns. -/
def exec (m : UniSecMemManager AR AA) (request : Request build) :
    Option (UniSecMemManager AR AA) :=
  (m.call request).toOption.map Prod.snd

theorem step_of_exec {m m' : UniSecMemManager AR AA} {request : Request build}
    (h : m.exec request = some m') : m.Step request m' := by
  simp only [exec, Option.map_eq_some_iff] at h
  obtain ⟨⟨reply, _⟩, hcall, rfl⟩ := h
  refine ⟨reply, ?_⟩
  cases hresult : m.call request with
  | error e => simp [hresult, Except.toOption] at hcall
  | ok result =>
    rw [hresult] at hcall
    exact congrArg Except.ok (Option.some.inj hcall)

end UniSecMemManager

end RustSbi.Smm
