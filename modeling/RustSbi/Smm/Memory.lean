import Mathlib.Data.BitVec
import RustSbi.Lib.Store
import RustSbi.Smm.Enclave

/-!
The memory that `free_em` zeroes (`smm/src/manager.rs`). The range is overwritten as soon
as a region is found for it, before the allocator of the region is asked, and for as many
bytes as the caller names; the allocator gets them rounded up to a power of two.
-/

namespace RustSbi.Smm

open Checked (Panic)
open Store (store)
open Transition (Run)

/-- A manager with the memory of its regions, one cell a byte. -/
structure Machine (AR AA α : Type) where
  manager : UniSecMemManager AR AA
  ram : Nat → α

/-- The search of `free_em` comes to the region. -/
def UniSecMemManager.Finds {AR AA : Type} (build : Build) (m : UniSecMemManager AR AA)
    (addr len : Nat) (region : SecMemRegion AR AA) : Prop :=
  addr ≠ 0 ∧ (Layout.fromSizeAlign build (2 ^ Nat.clog 2 len) (2 ^ Nat.clog 2 len)).isSome = true ∧
    m.allocRegions.find? (fun r => decide ((⟨addr, len⟩ : Area).Inside r.area)) = some region

namespace Machine

variable {AR AA α : Type}

section

variable [SecMemAllocator AR] [SecMemAllocator AA] [Zero α]

/-- The search of `free_em` for the region, which zeroes the range and releases it. -/
def freeIn (build : Build) (addr len : Nat) (layout : Layout) :
    List (SecMemRegion AR AA) → (Nat → α) →
      Except Panic (Option Nat × List (SecMemRegion AR AA) × (Nat → α))
  | [], ram => pure (none, [], ram)
  | region :: rest, ram => do
    if ← region.isMemContained build addr len then
      let ram := store ram addr (List.replicate len 0)
      let (id, region) ← region.release addr layout
      pure (id, region :: rest, ram)
    else
      let (id, rest, ram) ← freeIn build addr len layout rest ram
      pure (id, region :: rest, ram)

/-- `free_em`. -/
def freeEm (build : Build) (m : Machine AR AA α) (addr len : Nat) :
    Except Panic (Option Nat × Machine AR AA α) := do
  let expectLen ← build.nextPowerOfTwo len
  match Layout.fromSizeAlign build expectLen expectLen, RTAlloc.nonNull addr with
  | some layout, some ptr =>
    let (id, allocRegions, ram) ← freeIn build ptr len layout m.manager.allocRegions m.ram
    pure (id, ⟨{ m.manager with allocRegions }, ram⟩)
  | _, _ => pure (none, m)

/-- One call. Only `free_em` writes to the memory of the regions. -/
def call {build : Build} (m : Machine AR AA α) :
    Request build → Except Panic (Reply × Machine AR AA α)
  | .freeEm addr len => do
    let (id, m) ← m.freeEm build addr.toNat len.toNat
    pure (.region id, m)
  | request => do
    let (reply, manager) ← m.manager.call request
    pure (reply, { m with manager })

end

/-! ## The same calls without the memory -/

section Project

variable [SecMemAllocator AR] [SecMemAllocator AA] [Zero α] {build : Build} {addr len : Nat}
  {layout : Layout} {regions : List (SecMemRegion AR AA)}

theorem freeIn_regions (ram : Nat → α) : (freeIn build addr len layout regions ram).map (fun r => (r.1, r.2.1)) =
    UniSecMemManager.freeIn build addr len layout regions := by
  induction regions with
  | nil => rfl
  | cons region rest ih =>
    rw [UniSecMemManager.freeIn, ← ih, freeIn]
    cases region.isMemContained build addr len with
    | error e => rfl
    | ok contained =>
      cases contained with
      | true => cases region.release addr layout <;> rfl
      | false => cases freeIn build addr len layout rest ram <;> rfl

theorem freeEm_manager (build : Build) (m : Machine AR AA α) (addr len : Nat) :
    (m.freeEm build addr len).map (fun r => (r.1, r.2.manager)) =
      m.manager.freeEm build addr len := by
  unfold freeEm UniSecMemManager.freeEm
  cases build.nextPowerOfTwo len with
  | error e => rfl
  | ok expectLen =>
    simp only [Checked.ok_bind]
    cases Layout.fromSizeAlign build expectLen expectLen with
    | none => rfl
    | some layout =>
      cases RTAlloc.nonNull addr with
      | none => rfl
      | some ptr =>
        dsimp only
        rw [← freeIn_regions m.ram]
        cases freeIn build ptr len layout m.manager.allocRegions m.ram <;> rfl

/-- A call that returns does to the manager what it does without the memory. -/
theorem call_manager {m : Machine AR AA α} {m' : Machine AR AA α} {request : Request build}
    {reply : Reply} (h : m.call request = .ok (reply, m')) :
    m.manager.call request = .ok (reply, m'.manager) := by
  cases request with
  | freeEm addr len =>
    simp only [call, Checked.bind_eq_ok_iff, Checked.pure_eq_ok_iff, Prod.mk.injEq] at h
    obtain ⟨⟨id, m₁⟩, hfree, rfl, rfl⟩ := h
    have hmanager := freeEm_manager build m addr.toNat len.toNat
    rw [hfree] at hmanager
    simp only [UniSecMemManager.call, ← hmanager]
    rfl
  | init | extend | reclaim | allocEm =>
    simp only [call, Checked.bind_eq_ok_iff, Checked.pure_eq_ok_iff, Prod.mk.injEq] at h
    obtain ⟨⟨reply', manager⟩, hcall, rfl, rfl⟩ := h
    exact hcall

theorem call_ram {m : Machine AR AA α} {m' : Machine AR AA α} {request : Request build}
    {reply : Reply} (h : m.call request = .ok (reply, m'))
    (hfree : ∀ addr len, request ≠ .freeEm addr len) : m'.ram = m.ram := by
  cases request with
  | freeEm addr len => exact absurd rfl (hfree addr len)
  | init | extend | reclaim | allocEm =>
    simp only [call, Checked.bind_eq_ok_iff, Checked.pure_eq_ok_iff, Prod.mk.injEq] at h
    obtain ⟨⟨reply', manager⟩, -, -, rfl⟩ := h
    rfl

end Project

/-! ## Rejected calls -/

/-- Nothing is returned and nothing changes. -/
def Rejects [SecMemAllocator AR] [SecMemAllocator AA] [Zero α] (build : Build)
    (m : Machine AR AA α) (addr len : Nat) : Prop :=
  m.freeEm build addr len = .ok (none, m)

/-- The search comes to no region, or to one whose memory no enclave has and where the range
holds zeros already. -/
inductive Misses [Zero α] (build : Build) (addr len : Nat) (ram : Nat → α) :
    List (SecMemRegion AR AA) → Prop
  | nil : Misses build addr len ram []
  | skip {region : SecMemRegion AR AA} {rest : List (SecMemRegion AR AA)}
      (houtside : region.isMemContained build addr len = .ok false)
      (hrest : Misses build addr len ram rest) : Misses build addr len ram (region :: rest)
  | idle {region : SecMemRegion AR AA} {rest : List (SecMemRegion AR AA)}
      (hinside : region.isMemContained build addr len = .ok true)
      (hidle : region.allocator = .general ∨ region.allocator = .none)
      (hzero : ∀ a, addr ≤ a → a < addr + len → ram a = 0) :
      Misses build addr len ram (region :: rest)

/-- The length has a layout with which a region can be searched for, and none is found. -/
def Unserved [Zero α] (build : Build) (m : Machine AR AA α) (addr len : Nat) : Prop :=
  ∃ expectLen, build.nextPowerOfTwo len = .ok expectLen ∧
    (Layout.fromSizeAlign build expectLen expectLen = none ∨ addr = 0 ∨
      Misses build addr len m.ram m.manager.allocRegions)

section Reject

variable [SecMemAllocator AR] [SecMemAllocator AA] {build : Build} {addr len : Nat}
  {layout : Layout} {region region' : SecMemRegion AR AA} {regions : List (SecMemRegion AR AA)}

/-- An allocator that is asked answers with its region or not at all. -/
theorem release_eq_none_iff : region.release addr layout = .ok (none, region') ↔
    (region.allocator = .general ∨ region.allocator = .none) ∧ region' = region := by
  unfold SecMemRegion.release
  cases hallocator : region.allocator with
  | none => simp [Checked.pure_eq_ok_iff, eq_comm (a := region)]
  | general => simp [Checked.pure_eq_ok_iff, eq_comm (a := region)]
  | runtime alloc =>
    refine iff_of_false (fun h => ?_) (by simp)
    obtain ⟨alloc', -, h⟩ := Checked.bind_eq_ok_iff.mp h
    obtain ⟨available, -, h⟩ := Checked.bind_eq_ok_iff.mp h
    split at h <;> cases h
  | application alloc =>
    refine iff_of_false (fun h => ?_) (by simp)
    obtain ⟨alloc', -, h⟩ := Checked.bind_eq_ok_iff.mp h
    obtain ⟨available, -, h⟩ := Checked.bind_eq_ok_iff.mp h
    split at h <;> cases h

variable [Zero α] {ram : Nat → α}

theorem freeIn_rejects_iff (layout : Layout) : freeIn build addr len layout regions ram = .ok (none, regions, ram) ↔
    Misses build addr len ram regions := by
  induction regions with
  | nil => exact iff_of_true rfl .nil
  | cons region rest ih =>
    rw [freeIn]
    cases hcontained : region.isMemContained build addr len with
    | error e =>
      refine iff_of_false nofun ?_
      rintro (_ | ⟨houtside, -⟩ | ⟨hinside, -⟩)
      · cases hcontained.symm.trans houtside
      · cases hcontained.symm.trans hinside
    | ok contained =>
      cases contained with
      | true =>
        simp only [Checked.ok_bind, if_true, Checked.bind_eq_ok_iff, Checked.pure_eq_ok_iff,
          Prod.mk.injEq, List.cons.injEq, and_true]
        constructor
        · rintro ⟨⟨id, region'⟩, hrelease, rfl, rfl, hram⟩
          obtain ⟨hidle, -⟩ := release_eq_none_iff.mp hrelease
          exact .idle hcontained hidle ((Store.store_replicate_eq_self_iff _ _).mp hram)
        · rintro (_ | ⟨houtside, -⟩ | ⟨-, hidle, hzero⟩)
          · cases hcontained.symm.trans houtside
          · exact ⟨(none, region), release_eq_none_iff.mpr ⟨hidle, rfl⟩, rfl, rfl,
              (Store.store_replicate_eq_self_iff _ _).mpr hzero⟩
      | false =>
        simp only [Checked.ok_bind, Bool.false_eq_true, if_false, Checked.bind_eq_ok_iff,
          Checked.pure_eq_ok_iff, Prod.mk.injEq, List.cons.injEq, true_and]
        constructor
        · rintro ⟨⟨id, rest', ram'⟩, hrest, rfl, rfl, rfl⟩
          exact .skip hcontained (ih.mp hrest)
        · rintro (_ | ⟨-, hrest⟩ | ⟨hinside, -⟩)
          · exact ⟨(none, rest, ram), ih.mpr hrest, rfl, rfl, rfl⟩
          · cases hcontained.symm.trans hinside

/-- `free_em` refuses exactly the calls that come to no allocator. -/
theorem free_em_rejects_iff (m : Machine AR AA α) :
    m.Rejects build addr len ↔ m.Unserved build addr len := by
  unfold Rejects Unserved freeEm
  cases hexpect : build.nextPowerOfTwo len with
  | error e => exact iff_of_false nofun nofun
  | ok expectLen =>
    simp only [Checked.ok_bind, Except.ok.injEq, exists_eq_left']
    cases hlayout : Layout.fromSizeAlign build expectLen expectLen with
    | none => exact iff_of_true rfl (.inl rfl)
    | some layout =>
      by_cases haddr : addr = 0
      · rw [RTAlloc.nonNull, if_pos haddr]
        exact iff_of_true rfl (.inr (.inl haddr))
      · rw [RTAlloc.nonNull, if_neg haddr]
        simp only [reduceCtorEq, haddr, false_or]
        rw [← freeIn_rejects_iff layout]
        constructor
        · intro h
          obtain ⟨⟨id, regions, ram⟩, hfree, h⟩ := Checked.bind_eq_ok_iff.mp h
          obtain ⟨rfl, hsame⟩ := Prod.mk.inj (Checked.pure_eq_ok_iff.mp h)
          have hregions : regions = m.manager.allocRegions := congrArg (·.manager.allocRegions) hsame
          have hram : ram = m.ram := congrArg Machine.ram hsame
          rw [hfree, hregions, hram]
        · intro hfree
          rw [hfree]
          rfl

end Reject

/-! ## Rejected calls and the areas of the regions -/

section Areas

variable {build : Build} {addr len : Nat} {region : SecMemRegion AR AA}
  {regions : List (SecMemRegion AR AA)}

theorem misses_iff_find? [Zero α] {ram : Nat → α}
    (hstop : ∀ r ∈ regions, r.area.stop < build.xlen.words) :
    Misses build addr len ram regions ↔ ∀ region,
      regions.find? (fun r => decide ((⟨addr, len⟩ : Area).Inside r.area)) = some region →
        (region.allocator = .general ∨ region.allocator = .none) ∧
          ∀ a, addr ≤ a → a < addr + len → ram a = 0 := by
  induction regions with
  | nil => exact iff_of_true .nil fun _ hfind => nomatch hfind
  | cons region rest ih =>
    obtain ⟨hregion, hrest⟩ := List.forall_mem_cons.mp hstop
    have hcontained : region.isMemContained build addr len =
        .ok (decide ((⟨addr, len⟩ : Area).Inside region.area)) :=
      SecMemRegion.isMemContained_eq_ok hregion
    by_cases hinside : (⟨addr, len⟩ : Area).Inside region.area
    · simp only [List.find?_cons, hinside, decide_true, Option.some.injEq]
      rw [decide_eq_true hinside] at hcontained
      constructor
      · rintro (_ | ⟨houtside, -⟩ | ⟨-, hidle, hzero⟩) region' hregion'
        · cases hcontained.symm.trans houtside
        · exact hregion' ▸ ⟨hidle, hzero⟩
      · intro h
        exact .idle hcontained (h region rfl).1 (h region rfl).2
    · simp only [List.find?_cons, hinside, decide_false]
      rw [← ih hrest]
      rw [decide_eq_false hinside] at hcontained
      constructor
      · rintro (_ | ⟨-, hmisses⟩ | ⟨hinside', -⟩)
        · exact hmisses
        · cases hcontained.symm.trans hinside'
      · exact .skip hcontained

/-- Where the regions are kept apart, the search comes to the one that holds the range. -/
theorem finds_iff {m : UniSecMemManager AR AA} (hinv : AreaInv build m) (hlen : 0 < len) :
    m.Finds build addr len region ↔ addr ≠ 0 ∧
      (Layout.fromSizeAlign build (2 ^ Nat.clog 2 len) (2 ^ Nat.clog 2 len)).isSome = true ∧
      region ∈ m.allocRegions ∧ (⟨addr, len⟩ : Area).Inside region.area := by
  refine and_congr_right fun _ => and_congr_right fun _ => ?_
  constructor
  · intro hfind
    have hinside := List.find?_some hfind
    rw [decide_eq_true_eq] at hinside
    exact ⟨List.mem_of_find?_eq_some hfind, hinside⟩
  · rintro ⟨hregion, hinside⟩
    cases hfind : m.allocRegions.find? fun r => decide ((⟨addr, len⟩ : Area).Inside r.area) with
    | none => exact absurd (decide_eq_true hinside) (List.find?_eq_none.mp hfind region hregion)
    | some found =>
      have hfound := List.find?_some hfind
      rw [decide_eq_true_eq] at hfound
      by_contra hne
      have hapart := Area.apart_of_pairwise (List.pairwise_map.mp hinv.apart)
        (List.mem_of_find?_eq_some hfind) hregion fun heq => hne (congrArg some heq)
      have hself := hapart.mono hfound hinside
      simp only [Area.Apart, Area.stop] at hself
      omega

/-- Where the regions are kept apart, a call is refused when no region's area holds its range, or
when the region whose area does belongs to no enclave and has only zeros there. -/
theorem unserved_iff_finds [Zero α] {m : Machine AR AA α} (hinv : AreaInv build m.manager) :
    m.Unserved build addr len ↔ (∃ n, build.nextPowerOfTwo len = .ok n) ∧
      ∀ region, m.manager.Finds build addr len region →
        (region.allocator = .general ∨ region.allocator = .none) ∧
          ∀ a, addr ≤ a → a < addr + len → m.ram a = 0 := by
  simp only [Unserved, misses_iff_find? hinv.bounded]
  constructor
  · rintro ⟨n, hn, hcases⟩
    refine ⟨⟨n, hn⟩, ?_⟩
    rintro region ⟨haddr, hlayout, hfind⟩
    rw [Layout.of_nextPowerOfTwo hn] at hlayout
    obtain hnone | hzero | hmisses := hcases
    · rw [hnone] at hlayout
      cases hlayout
    · exact absurd hzero haddr
    · exact hmisses region hfind
  · rintro ⟨⟨n, hn⟩, hfinds⟩
    refine ⟨n, hn, or_iff_not_imp_left.mpr fun hlayout => or_iff_not_imp_left.mpr fun haddr => ?_⟩
    intro region hfind
    refine hfinds region ⟨haddr, ?_, hfind⟩
    rw [Layout.of_nextPowerOfTwo hn]
    exact Option.isSome_iff_ne_none.mpr hlayout

end Areas

end Machine

/-! ## A region that is taken whole -/

/-- A manager with one region of two pages, before and after a runtime enclave has taken it. -/
def twoPages : Session ⟨.rv64, true⟩ FirstFit where
  manager :=
    { curIdx := 1
      protector := ⟨⟨4#64, pmpAllocMask, pmpManageMask⟩, [2]⟩
      reservedRegions := []
      allocRegions := [.new 0x80000000 0x2000 1 2] }
  outstanding := []

def twoPagesTaken : Session ⟨.rv64, true⟩ FirstFit where
  manager :=
    { twoPages.manager with
      allocRegions := [⟨0x80000000, 0x2000, 1, 2, true, .runtime ⟨0x80000000, 0, 0x2000⟩⟩] }
  outstanding := [⟨0x80000000, 0x2000⟩]

/-- The block is taken back under a length that it does not have, and an address inside of it ends in
a panic. -/
theorem bad_frees_not_rejected :
    ∃ requests : List (Request ⟨.rv64, true⟩), Run Session.Step .new requests twoPagesTaken ∧
      (⟨0x80000000, 0x1001⟩ : Area) ∉ twoPagesTaken.outstanding ∧
      (⟨0x80000008, 8⟩ : Area) ∉ twoPagesTaken.outstanding ∧
      ∀ ram : Nat → BitVec 8,
        ¬ Machine.Rejects ⟨.rv64, true⟩ ⟨twoPagesTaken.manager, ram⟩ 0x80000000 0x1001 ∧
        Machine.freeEm ⟨.rv64, true⟩ ⟨twoPagesTaken.manager, ram⟩ 0x80000008 8 = .error .explicit := by
  let requests : List (Request ⟨.rv64, true⟩) :=
    [.extend 0x80000000#64 0x2000#64, .allocEm 0x2000#64 .runtime]
  have hextend : Session.Step .new (requests.get ⟨0, by decide⟩) twoPages :=
    ⟨trivial, .done true, by decide +kernel, ⟨by decide, by decide⟩, rfl⟩
  have halloc : twoPages.Step (requests.get ⟨1, by decide⟩) twoPagesTaken :=
    ⟨trivial, .block (some (0x80000000, 0x2000, 1)), by decide +kernel, ⟨by decide, by decide⟩, rfl⟩
  refine ⟨requests, .cons hextend (.cons halloc (.nil _)), by decide, by decide, fun ram => ⟨?_, ?_⟩⟩
  · intro hrejects
    have hmanager := Machine.freeEm_manager ⟨.rv64, true⟩ ⟨twoPagesTaken.manager, ram⟩ 0x80000000
      0x1001
    rw [hrejects] at hmanager
    have htaken : twoPagesTaken.manager.freeEm ⟨.rv64, true⟩ 0x80000000 0x1001 =
        .ok (some 1, twoPages.manager) := by decide +kernel
    cases (hmanager.trans htaken)
  · rfl

end RustSbi.Smm
