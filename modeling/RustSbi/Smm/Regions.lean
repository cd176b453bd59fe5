import RustSbi.Lib.Transition
import RustSbi.Smm.Manager

/-!
The regions of the secure-memory manager over whole runs: what each call does to
the managed regions and to the PMP slots, the invariants that every run keeps, and
the calls after which the areas and slots are not kept apart.
-/

namespace RustSbi.Smm

open Checked (Panic)
open Transition (Run)

/-! ## Areas -/

/-- A range of addresses. -/
structure Area where
  addr : Nat
  len : Nat
  deriving DecidableEq, Repr

namespace Area

/-- The first address after the area. -/
def stop (a : Area) : Nat := a.addr + a.len

/-- The areas share no address. -/
def Apart (a b : Area) : Prop := a.stop ≤ b.addr ∨ b.stop ≤ a.addr

/-- The first area lies in the second. -/
def Inside (a b : Area) : Prop := b.addr ≤ a.addr ∧ a.stop ≤ b.stop

/-- The PMP can protect the area: a power of two of at least eight bytes, aligned to its size. -/
def Protectable (a : Area) : Prop := checkPmpAreaAvailable a.addr a.len .napot = true

instance (a b : Area) : Decidable (a.Apart b) := inferInstanceAs (Decidable (_ ∨ _))

instance (a b : Area) : Decidable (a.Inside b) := inferInstanceAs (Decidable (_ ∧ _))

theorem Apart.symm {a b : Area} (h : a.Apart b) : b.Apart a := Or.symm h

theorem Apart.mono {a b c d : Area} (h : a.Apart b) (hc : c.Inside a) (hd : d.Inside b) :
    c.Apart d := by
  unfold Apart Inside at *
  omega

/-- What stands at different places of a list of areas is apart, in either order. -/
theorem apart_of_pairwise {ι : Type} {l : List ι} {area : ι → Area}
    (h : l.Pairwise fun i j => (area i).Apart (area j)) {i j : ι} (hi : i ∈ l) (hj : j ∈ l)
    (hne : i ≠ j) : (area i).Apart (area j) := by
  have hsymm : Std.Symm fun i j : ι => (area i).Apart (area j) := ⟨fun _ _ => Apart.symm⟩
  exact h.forall hi hj hne

end Area

/-- The area and the slot of a region, which no allocation changes. -/
def SecMemRegion.area {AR AA : Type} (r : SecMemRegion AR AA) : Area := ⟨r.addr, r.len⟩

def SecMemRegion.footprint {AR AA : Type} (r : SecMemRegion AR AA) : Area × Nat := (r.area, r.slot)

/-- The areas of a manager: the monitor's own and the managed ones. -/
def UniSecMemManager.areas {AR AA : Type} (m : UniSecMemManager AR AA) : List Area :=
  m.reservedRegions.map (·.area) ++ m.allocRegions.map (·.area)

def UniSecMemManager.slots {AR AA : Type} (m : UniSecMemManager AR AA) : List Nat :=
  m.allocRegions.map (·.slot)

section

variable {AR AA : Type} {build : Build} {r : SecMemRegion AR AA} {addr len : Nat}

theorem Build.add_eq_ok {a b : Nat} (h : a + b < build.xlen.words) :
    build.add a b = .ok (a + b) := by
  simp only [Build.add, if_pos h]
  rfl

theorem SecMemRegion.selfEnd_eq_ok (hstop : r.area.stop < build.xlen.words) :
    build.add r.addr r.len = .ok r.area.stop :=
  Build.add_eq_ok hstop

theorem SecMemRegion.isMemOverlap_eq_false_iff (hstop : r.area.stop < build.xlen.words) :
    r.isMemOverlap build addr len = .ok false ↔
      addr + len < build.xlen.words ∧ r.area.Apart ⟨addr, len⟩ := by
  simp only [isMemOverlap, selfEnd_eq_ok hstop, Checked.bind_eq_ok_iff, Except.ok.injEq,
    exists_eq_left', Build.checkedAdd]
  by_cases hadd : addr + len < build.xlen.words
  · simp only [hadd, if_true, Checked.pure_eq_ok_iff, Bool.and_eq_false_iff,
      decide_eq_false_iff_not, true_and, not_lt]
    rfl
  · simp [hadd]

theorem SecMemRegion.isMemContained_eq_ok (hstop : r.area.stop < build.xlen.words) :
    r.isMemContained build addr len = .ok (decide ((⟨addr, len⟩ : Area).Inside r.area)) := by
  simp only [isMemContained, selfEnd_eq_ok hstop, Checked.bind_eq_ok_iff, Except.ok.injEq,
    exists_eq_left', Build.checkedAdd]
  by_cases hadd : addr + len < build.xlen.words
  · simp only [hadd, if_true, Checked.pure_eq_ok_iff, ← Bool.decide_and]
    rfl
  · have hout : ¬ (⟨addr, len⟩ : Area).Inside r.area := by
      rintro ⟨-, hle⟩
      exact hadd (lt_of_le_of_lt hle hstop)
    simp [hadd, hout]

/-- An area that the hardware can protect ends at the top of the address space at the latest. -/
theorem stop_le_words_of_isProtectable {p : TestSecMemProtector}
    (h : p.isProtectable addr len = true) (haddr : addr < build.xlen.words)
    (hlen : len < build.xlen.words) : addr + len ≤ build.xlen.words := by
  obtain ⟨⟨k, -, rfl⟩, c, rfl⟩ := checkPmpAreaAvailable_napot_iff.mp h
  have hk : k < build.xlen.bits := (Nat.pow_lt_pow_iff_right (a := 2) (by decide)).mp hlen
  obtain ⟨d, hd⟩ := Nat.pow_dvd_pow 2 hk.le
  unfold Xlen.words at *
  rw [hd] at haddr ⊢
  have hcd : c + 1 ≤ d := Nat.lt_of_mul_lt_mul_left haddr
  calc 2 ^ k * c + 2 ^ k = 2 ^ k * (c + 1) := by ring
    _ ≤ 2 ^ k * d := Nat.mul_le_mul_left _ hcd

end

/-! ## The slots of the managed regions -/

theorem getLsbD_pmpAllocMask {slot : Nat} :
    pmpAllocMask.getLsbD slot = true ↔ 2 ≤ slot ∧ slot < maxPmpEntryCount := by
  have hbits : ∀ i : Fin 64, pmpAllocMask.getLsbD i = true ↔ 2 ≤ i.val ∧ i.val < maxPmpEntryCount := by
    decide
  constructor
  · intro h
    exact (hbits ⟨slot, BitVec.lt_of_getLsbD h⟩).mp h
  · intro h
    exact (hbits ⟨slot, lt_trans h.2 (by decide)⟩).mpr h

/-- The bitmap marks the slots of the managed regions, and no two of them share one. -/
structure SlotInv {AR AA : Type} (m : UniSecMemManager AR AA) : Prop where
  mask : m.protector.hwManager.allocMask = pmpAllocMask
  nodup : m.slots.Nodup
  held : ∀ slot, m.protector.hwManager.Holds slot ↔ slot ∈ m.slots

namespace SlotInv

variable {AR AA : Type} {m m' : UniSecMemManager AR AA}

theorem of_new : SlotInv (UniSecMemManager.new : UniSecMemManager AR AA) where
  mask := rfl
  nodup := List.nodup_nil
  held slot := by
    simp [PMPSlotAllocator.Holds, UniSecMemManager.new, TestSecMemProtector.new,
      PMPSlotAllocator.new, UniSecMemManager.slots]

theorem slot_range (hinv : SlotInv m) {slot : Nat} (hmem : slot ∈ m.slots) :
    2 ≤ slot ∧ slot < maxPmpEntryCount := by
  have hmask := ((hinv.held slot).mpr hmem).2
  rw [hinv.mask] at hmask
  exact getLsbD_pmpAllocMask.mp hmask

/-- Fourteen slots can be handed out, one more than there are places for regions. -/
theorem alloc_ne_none (hinv : SlotInv m) (hlen : m.allocRegions.length < allocCapacity)
    {p : TestSecMemProtector} : m.protector.alloc ≠ (none, p) := by
  intro halloc
  simp only [TestSecMemProtector.alloc] at halloc
  split at halloc
  · cases halloc
  next e hw herror =>
    obtain ⟨-, hfull⟩ := PMPSlotAllocator.alloc_eq_error herror
    have hsub : Finset.Ico 2 maxPmpEntryCount ⊆ m.slots.toFinset := by
      intro slot hslot
      rw [List.mem_toFinset, ← hinv.held]
      apply hfull
      rw [hinv.mask]
      exact getLsbD_pmpAllocMask.mpr (Finset.mem_Ico.mp hslot)
    have hcard := (Finset.card_le_card hsub).trans m.slots.toFinset_card_le
    rw [Nat.card_Ico, UniSecMemManager.slots, List.length_map] at hcard
    simp only [allocCapacity, maxPmpEntryCount] at hlen hcard
    omega

theorem of_footprints (hinv : SlotInv m) (hw : m'.protector.hwManager = m.protector.hwManager)
    (hslots : m'.slots = m.slots) : SlotInv m' where
  mask := by rw [hw, hinv.mask]
  nodup := by rw [hslots]; exact hinv.nodup
  held := by rw [hw, hslots]; exact hinv.held

end SlotInv

/-! ## What a call does -/

namespace UniSecMemManager

variable {AR AA : Type} {build : Build} {m m' : UniSecMemManager AR AA}

/-- The slots that `init` gives the protector, the last one if it gets that far. -/
theorem init_eq_ok {smAddr smLen : Nat} {ok : Bool}
    (h : m.init build smAddr smLen = .ok (ok, m')) :
    m'.allocRegions = m.allocRegions ∧ m'.protector.hwManager = m.protector.hwManager ∧
      defaultSlot ∈ m'.protector.passed := by
  simp only [init, TestSecMemProtector.disable, TestSecMemProtector.grantAccessAll,
    TestSecMemProtector.retriveAccessAll, TestSecMemProtector.program, Bool.not_true,
    Bool.false_eq_true, if_false, if_true] at h
  split at h
  · simp only [Checked.bind_eq_ok_iff, Checked.pure_eq_ok_iff, Prod.mk.injEq] at h
    obtain ⟨id, -, -, rfl⟩ := h
    simp
  · simp only [Checked.pure_eq_ok_iff, Prod.mk.injEq] at h
    obtain ⟨-, rfl⟩ := h
    simp

/-- An area is added with a slot of its own, or nothing changes. -/
theorem extend_eq_ok (hinv : SlotInv m) {addr len : Nat} {ok : Bool}
    (h : m.extend build addr len = .ok (ok, m')) :
    (ok = false ∧ m' = m) ∨
      (ok = true ∧ ∃ slot id hwManager,
        m.protector.isProtectable addr len = true ∧
        (∀ r ∈ m.allocRegions, r.isMemOverlap build addr len = .ok false) ∧
        m.protector.hwManager.alloc = (.ok slot, hwManager) ∧
        m' = { m with
          curIdx := id
          protector := ⟨hwManager, slot :: m.protector.passed⟩
          allocRegions := m.allocRegions ++ [.new addr len id slot] }) := by
  simp only [extend] at h
  split at h
  · simp only [Checked.pure_eq_ok_iff, Prod.mk.injEq] at h
    exact Or.inl ⟨h.1.symm, h.2.symm⟩
  next hprotectable =>
    split at h
    · simp only [Checked.pure_eq_ok_iff, Prod.mk.injEq] at h
      exact Or.inl ⟨h.1.symm, h.2.symm⟩
    next hcapacity =>
      obtain ⟨overlap, hoverlap, h⟩ := Checked.bind_eq_ok_iff.mp h
      cases overlap with
      | true =>
        simp only [if_true, Checked.pure_eq_ok_iff, Prod.mk.injEq] at h
        exact Or.inl ⟨h.1.symm, h.2.symm⟩
      | false =>
        simp only [Bool.false_eq_true, if_false] at h
        split at h
        next hwid protector halloc =>
          simp only [TestSecMemProtector.retriveAccessAll, TestSecMemProtector.program,
            Bool.not_true, Bool.false_eq_true, if_false, Checked.bind_eq_ok_iff,
            Checked.pure_eq_ok_iff, Prod.mk.injEq] at h
          obtain ⟨id, -, rfl, rfl⟩ := h
          simp only [TestSecMemProtector.alloc] at halloc
          split at halloc
          next slot hw hslot =>
            simp only [Prod.mk.injEq, Option.some.injEq] at halloc
            obtain ⟨rfl, rfl⟩ := halloc
            exact Or.inr ⟨rfl, slot, id, hw, by simpa using hprotectable,
              Checked.anyM_eq_ok_false_iff.mp hoverlap, hslot, rfl⟩
          · cases halloc
        next protector halloc =>
          exact absurd halloc (hinv.alloc_ne_none (not_le.mp hcapacity))

/-- The first unused region leaves with its slot, or every region is in use. -/
theorem reclaim_eq_ok (hinv : SlotInv m) {reply : Option (Nat × Nat)}
    (h : m.reclaim = .ok (reply, m')) :
    (reply = none ∧ m' = m ∧ ∀ r ∈ m.allocRegions, r.isUsed = true) ∨
      ∃ region hwManager, region.isUsed = false ∧ reply = some (region.addr, region.len) ∧
        m.allocRegions.Perm (region :: m'.allocRegions) ∧
        m.protector.hwManager.free region.slot = (.ok (), hwManager) ∧
        m'.protector = ⟨hwManager, region.slot :: region.slot :: m.protector.passed⟩ ∧
        m'.reservedRegions = m.reservedRegions := by
  simp only [reclaim] at h
  split at h
  next hused =>
    simp only [Checked.pure_eq_ok_iff, Prod.mk.injEq] at h
    refine Or.inl ⟨h.1.symm, h.2.symm, fun r hr => ?_⟩
    simpa using List.findIdx?_eq_none_iff.mp hused r hr
  next index hindex =>
    obtain ⟨⟨region, rest⟩, hremove, h⟩ := Checked.bind_eq_ok_iff.mp h
    obtain ⟨hregion, hperm⟩ := Checked.swapRemove_perm hremove
    obtain ⟨hlt, hunused, -⟩ := List.findIdx?_eq_some_iff_getElem.mp hindex
    rw [List.getElem?_eq_getElem hlt, Option.some.injEq] at hregion
    rw [hregion, beq_iff_eq] at hunused
    have hmem : region.slot ∈ m.slots :=
      List.mem_map_of_mem (hregion ▸ List.getElem_mem hlt)
    obtain ⟨hw, hfree, -, -⟩ :=
      PMPSlotAllocator.free_of_holds (hinv.slot_range hmem).2 ((hinv.held _).mpr hmem)
    simp only [TestSecMemProtector.disable, TestSecMemProtector.program, TestSecMemProtector.free,
      hfree, if_true, Checked.pure_eq_ok_iff, Prod.mk.injEq] at h
    obtain ⟨rfl, rfl⟩ := h
    exact Or.inr ⟨region, hw, hunused, rfl, hperm, hfree, rfl, rfl⟩

/-- `reclaim` always answers, with an area if a region is unused. -/
theorem reclaim_answers (hinv : SlotInv m) :
    ∃ reply m', m.reclaim = .ok (reply, m') ∧
      ((∃ r ∈ m.allocRegions, r.isUsed = false) → reply ≠ none) := by
  cases hindex : m.allocRegions.findIdx? fun region => region.isUsed == false with
  | none =>
    refine ⟨none, m, by simp only [reclaim, hindex]; rfl, ?_⟩
    rintro ⟨r, hr, hunused⟩
    have hused := List.findIdx?_eq_none_iff.mp hindex r hr
    simp [hunused] at hused
  | some index =>
    obtain ⟨hlt, -, -⟩ := List.findIdx?_eq_some_iff_getElem.mp hindex
    obtain ⟨rest, hremove⟩ := Checked.swapRemove_eq_ok hlt
    have hmem : m.allocRegions[index].slot ∈ m.slots := List.mem_map_of_mem (List.getElem_mem hlt)
    obtain ⟨hw, hfree, -, -⟩ :=
      PMPSlotAllocator.free_of_holds (hinv.slot_range hmem).2 ((hinv.held _).mpr hmem)
    refine ⟨some (m.allocRegions[index].addr, m.allocRegions[index].len), { m with
      protector := ⟨hw, m.allocRegions[index].slot :: m.allocRegions[index].slot ::
        m.protector.passed⟩
      allocRegions := rest }, ?_, fun _ => by simp⟩
    simp only [reclaim, hindex, hremove, Checked.ok_bind, TestSecMemProtector.disable,
      TestSecMemProtector.program, TestSecMemProtector.free, hfree, if_true]
    rfl

end UniSecMemManager

/-! ## Allocation keeps the footprints -/

section Footprint

variable {AR AA : Type} [SecMemAllocator AR] [SecMemAllocator AA] {build : Build}
  {region region' : SecMemRegion AR AA} {regions regions' : List (SecMemRegion AR AA)}
  {emType : SecMemType} {layout : Layout} {addr len expectLen : Nat}

theorem SecMemRegion.specialise_footprint (h : region.specialise emType = .ok region') :
    region'.footprint = region.footprint := by
  simp only [specialise] at h
  split at h
  · simp only [Checked.bind_eq_ok_iff, Checked.pure_eq_ok_iff] at h
    obtain ⟨alloc, -, rfl⟩ := h
    rfl
  · simp only [Checked.bind_eq_ok_iff, Checked.pure_eq_ok_iff] at h
    obtain ⟨alloc, -, rfl⟩ := h
    rfl
  · rw [Checked.pure_eq_ok_iff] at h
    rw [h]

theorem SecMemRegion.tryAlloc_footprint {attempt : Attempt}
    (h : region.tryAlloc build emType expectLen = .ok (attempt, region')) :
    region'.footprint = region.footprint := by
  simp only [tryAlloc] at h
  split at h
  · obtain ⟨available, -, h⟩ := Checked.bind_eq_ok_iff.mp h
    split at h
    · split at h
      · simp only [Checked.pure_eq_ok_iff, Prod.mk.injEq] at h
        rw [h.2]
      · obtain ⟨⟨ptr, alloc⟩, -, h⟩ := Checked.bind_eq_ok_iff.mp h
        cases ptr with
        | none =>
          simp only [Checked.pure_eq_ok_iff, Prod.mk.injEq] at h
          exact h.2 ▸ rfl
        | some ptr =>
          simp only [Checked.pure_eq_ok_iff, Prod.mk.injEq] at h
          exact h.2 ▸ rfl
    · simp only [Checked.pure_eq_ok_iff, Prod.mk.injEq] at h
      rw [h.2]
  · obtain ⟨available, -, h⟩ := Checked.bind_eq_ok_iff.mp h
    split at h
    · split at h
      · simp only [Checked.pure_eq_ok_iff, Prod.mk.injEq] at h
        rw [h.2]
      · obtain ⟨⟨ptr, alloc⟩, -, h⟩ := Checked.bind_eq_ok_iff.mp h
        cases ptr with
        | none =>
          simp only [Checked.pure_eq_ok_iff, Prod.mk.injEq] at h
          exact h.2 ▸ rfl
        | some ptr =>
          simp only [Checked.pure_eq_ok_iff, Prod.mk.injEq] at h
          exact h.2 ▸ rfl
    · simp only [Checked.pure_eq_ok_iff, Prod.mk.injEq] at h
      rw [h.2]
  · simp only [Checked.pure_eq_ok_iff, Prod.mk.injEq] at h
    rw [h.2]

theorem SecMemRegion.release_footprint {id : Option Nat}
    (h : region.release addr layout = .ok (id, region')) :
    region'.footprint = region.footprint := by
  simp only [release] at h
  split at h
  · simp only [Checked.bind_eq_ok_iff] at h
    obtain ⟨alloc, -, available, -, h⟩ := h
    split at h
    all_goals
      simp only [Checked.pure_eq_ok_iff, Prod.mk.injEq] at h
      exact h.2 ▸ rfl
  · simp only [Checked.bind_eq_ok_iff] at h
    obtain ⟨alloc, -, available, -, h⟩ := h
    split at h
    all_goals
      simp only [Checked.pure_eq_ok_iff, Prod.mk.injEq] at h
      exact h.2 ▸ rfl
  · simp only [Checked.pure_eq_ok_iff, Prod.mk.injEq] at h
    rw [h.2]

theorem UniSecMemManager.allocIn_footprints {found : Option (Nat × Nat × Nat)}
    (h : allocIn build len emType expectLen regions = .ok (found, regions')) :
    regions'.map (·.footprint) = regions.map (·.footprint) := by
  induction regions generalizing expectLen found regions' with
  | nil =>
    simp only [allocIn, Checked.pure_eq_ok_iff, Prod.mk.injEq] at h
    rw [← h.2]
  | cons region rest ih =>
    simp only [allocIn] at h
    split at h
    · simp only [Checked.bind_eq_ok_iff, Checked.pure_eq_ok_iff, Prod.mk.injEq] at h
      obtain ⟨⟨found, rest'⟩, hrest, -, rfl⟩ := h
      simp only [List.map_cons, ih hrest]
    · obtain ⟨special, hspecial, h⟩ := Checked.bind_eq_ok_iff.mp h
      obtain ⟨⟨attempt, region'⟩, htry, h⟩ := Checked.bind_eq_ok_iff.mp h
      have hfoot : region'.footprint = region.footprint :=
        (SecMemRegion.tryAlloc_footprint htry).trans (SecMemRegion.specialise_footprint hspecial)
      cases attempt with
      | found ptr expectLen =>
        simp only [Checked.pure_eq_ok_iff, Prod.mk.injEq] at h
        rw [← h.2, List.map_cons, List.map_cons, hfoot]
      | noLayout =>
        simp only [Checked.pure_eq_ok_iff, Prod.mk.injEq] at h
        rw [← h.2, List.map_cons, List.map_cons, hfoot]
      | refused expectLen =>
        simp only [Checked.bind_eq_ok_iff, Checked.pure_eq_ok_iff, Prod.mk.injEq] at h
        obtain ⟨⟨found, rest'⟩, hrest, -, rfl⟩ := h
        simp only [List.map_cons, hfoot, ih hrest]

theorem UniSecMemManager.freeIn_footprints {id : Option Nat}
    (h : freeIn build addr len layout regions = .ok (id, regions')) :
    regions'.map (·.footprint) = regions.map (·.footprint) := by
  induction regions generalizing id regions' with
  | nil =>
    simp only [freeIn, Checked.pure_eq_ok_iff, Prod.mk.injEq] at h
    rw [← h.2]
  | cons region rest ih =>
    simp only [freeIn] at h
    obtain ⟨contained, -, h⟩ := Checked.bind_eq_ok_iff.mp h
    cases contained with
    | true =>
      simp only [if_true, Checked.bind_eq_ok_iff, Checked.pure_eq_ok_iff, Prod.mk.injEq] at h
      obtain ⟨⟨id, region'⟩, hrelease, -, rfl⟩ := h
      simp only [List.map_cons, SecMemRegion.release_footprint hrelease]
    | false =>
      simp only [Bool.false_eq_true, if_false, Checked.bind_eq_ok_iff, Checked.pure_eq_ok_iff,
        Prod.mk.injEq] at h
      obtain ⟨⟨id, rest'⟩, hrest, -, rfl⟩ := h
      simp only [List.map_cons, ih hrest]

end Footprint

/-! ## Steps -/

namespace UniSecMemManager

section Keeps

variable {AR AA : Type} {build : Build} {m m' : UniSecMemManager AR AA}

/-- The calls that use the memory of the regions change nothing of the regions themselves. -/
def KeepsRegions (m m' : UniSecMemManager AR AA) : Prop :=
  m'.protector = m.protector ∧ m'.reservedRegions = m.reservedRegions ∧
    m'.allocRegions.map (·.footprint) = m.allocRegions.map (·.footprint)

theorem KeepsRegions.areas_eq (h : KeepsRegions m m') :
    m'.allocRegions.map (·.area) = m.allocRegions.map (·.area) := by
  have hmap := congrArg (List.map Prod.fst) h.2.2
  rw [List.map_map, List.map_map] at hmap
  exact hmap

theorem KeepsRegions.slots_eq (h : KeepsRegions m m') : m'.slots = m.slots := by
  have hmap := congrArg (List.map Prod.snd) h.2.2
  rw [List.map_map, List.map_map] at hmap
  exact hmap

end Keeps

variable {AR AA : Type} [SecMemAllocator AR] [SecMemAllocator AA] {build : Build}
  {m m' : UniSecMemManager AR AA}

theorem allocEm_keepsRegions {len : Nat} {emType : SecMemType}
    {found : Option (Nat × Nat × Nat)} (h : m.allocEm build len emType = .ok (found, m')) :
    KeepsRegions m m' := by
  simp only [allocEm, Checked.bind_eq_ok_iff, Checked.pure_eq_ok_iff, Prod.mk.injEq] at h
  obtain ⟨expectLen, -, ⟨found, regions⟩, hloop, -, rfl⟩ := h
  exact ⟨rfl, rfl, allocIn_footprints hloop⟩

theorem freeEm_keepsRegions {addr len : Nat} {id : Option Nat}
    (h : m.freeEm build addr len = .ok (id, m')) : KeepsRegions m m' := by
  simp only [freeEm] at h
  obtain ⟨expectLen, -, h⟩ := Checked.bind_eq_ok_iff.mp h
  split at h
  · simp only [Checked.bind_eq_ok_iff, Checked.pure_eq_ok_iff, Prod.mk.injEq] at h
    obtain ⟨⟨id, regions⟩, hloop, -, rfl⟩ := h
    exact ⟨rfl, rfl, freeIn_footprints hloop⟩
  · simp only [Checked.pure_eq_ok_iff, Prod.mk.injEq] at h
    rw [← h.2]
    exact ⟨rfl, rfl, rfl⟩

/-- Everything that a call can do to the regions and to the protector. -/
inductive Effect (build : Build) (m : UniSecMemManager AR AA) :
    Request build → UniSecMemManager AR AA → Prop
  | init {smAddr smLen : BitVec build.xlen.bits} {m' : UniSecMemManager AR AA}
      (hregions : m'.allocRegions = m.allocRegions)
      (hw : m'.protector.hwManager = m.protector.hwManager) : Effect build m (.init smAddr smLen) m'
  | stay {request : Request build} : Effect build m request m
  | extend {addr len : BitVec build.xlen.bits} {slot id : Nat} {hwManager : PMPSlotAllocator}
      (hprotectable : m.protector.isProtectable addr.toNat len.toNat = true)
      (hoverlap : ∀ r ∈ m.allocRegions, r.isMemOverlap build addr.toNat len.toNat = .ok false)
      (halloc : m.protector.hwManager.alloc = (.ok slot, hwManager)) :
      Effect build m (.extend addr len) { m with
        curIdx := id
        protector := ⟨hwManager, slot :: m.protector.passed⟩
        allocRegions := m.allocRegions ++ [.new addr.toNat len.toNat id slot] }
  | reclaim {region : SecMemRegion AR AA} {hwManager : PMPSlotAllocator}
      {m' : UniSecMemManager AR AA} (hunused : region.isUsed = false)
      (hperm : m.allocRegions.Perm (region :: m'.allocRegions))
      (hfree : m.protector.hwManager.free region.slot = (.ok (), hwManager))
      (hprotector : m'.protector =
        ⟨hwManager, region.slot :: region.slot :: m.protector.passed⟩)
      (hreserved : m'.reservedRegions = m.reservedRegions) : Effect build m .reclaim m'
  | keep {request : Request build} {m' : UniSecMemManager AR AA} (hkeep : KeepsRegions m m') :
      Effect build m request m'

theorem Step.effect {request : Request build} (h : m.Step request m') (hinv : SlotInv m) :
    Effect build m request m' := by
  obtain ⟨reply, h⟩ := h
  cases request with
  | init smAddr smLen =>
    simp only [call, Checked.bind_eq_ok_iff, Checked.pure_eq_ok_iff, Prod.mk.injEq] at h
    obtain ⟨⟨ok, m'⟩, hinit, -, rfl⟩ := h
    obtain ⟨hregions, hw, -⟩ := init_eq_ok hinit
    exact .init hregions hw
  | extend addr len =>
    simp only [call, Checked.bind_eq_ok_iff, Checked.pure_eq_ok_iff, Prod.mk.injEq] at h
    obtain ⟨⟨ok, m'⟩, hextend, -, rfl⟩ := h
    obtain ⟨-, rfl⟩ | ⟨-, slot, id, hwManager, hprotectable, hoverlap, halloc, rfl⟩ :=
      extend_eq_ok hinv hextend
    · exact .stay
    · exact .extend hprotectable hoverlap halloc
  | reclaim =>
    simp only [call, Checked.bind_eq_ok_iff, Checked.pure_eq_ok_iff, Prod.mk.injEq] at h
    obtain ⟨⟨reply, m'⟩, hreclaim, -, rfl⟩ := h
    obtain ⟨-, rfl, -⟩ | ⟨region, hwManager, hunused, -, hperm, hfree, hprotector, hreserved⟩ :=
      reclaim_eq_ok hinv hreclaim
    · exact .stay
    · exact .reclaim hunused hperm hfree hprotector hreserved
  | allocEm len emType =>
    simp only [call, Checked.bind_eq_ok_iff, Checked.pure_eq_ok_iff, Prod.mk.injEq] at h
    obtain ⟨⟨found, m'⟩, halloc, -, rfl⟩ := h
    exact .keep (allocEm_keepsRegions halloc)
  | freeEm addr len =>
    simp only [call, Checked.bind_eq_ok_iff, Checked.pure_eq_ok_iff, Prod.mk.injEq] at h
    obtain ⟨⟨id, m'⟩, hfree, -, rfl⟩ := h
    exact .keep (freeEm_keepsRegions hfree)

/-- The calls that do not look at the memory of the regions. -/
def ManagesRegions : Request build → Prop
  | .allocEm _ _ => False
  | .freeEm _ _ => False
  | _ => True

/-- Such a call adds a region, takes an unused one away, or leaves the list of them. -/
theorem call_regions (hinv : SlotInv m) {request : Request build} {reply : Reply}
    (h : m.call request = .ok (reply, m')) (hmanages : ManagesRegions request) :
    m'.allocRegions = m.allocRegions ∨
    (∃ addr len id slot, (⟨addr, len⟩ : Area).Protectable ∧
      m'.allocRegions = m.allocRegions ++ [.new addr len id slot]) ∨
    ∃ region, region.isUsed = false ∧ m.allocRegions.Perm (region :: m'.allocRegions) := by
  cases request with
  | init smAddr smLen =>
    simp only [call, Checked.bind_eq_ok_iff, Checked.pure_eq_ok_iff, Prod.mk.injEq] at h
    obtain ⟨⟨ok, m'⟩, hinit, -, rfl⟩ := h
    exact .inl (init_eq_ok hinit).1
  | extend addr len =>
    simp only [call, Checked.bind_eq_ok_iff, Checked.pure_eq_ok_iff, Prod.mk.injEq] at h
    obtain ⟨⟨ok, m'⟩, hextend, -, rfl⟩ := h
    obtain ⟨-, rfl⟩ | ⟨-, slot, id, hwManager, hprotectable, -, -, rfl⟩ := extend_eq_ok hinv hextend
    · exact .inl rfl
    · exact .inr (.inl ⟨addr.toNat, len.toNat, id, slot, hprotectable, rfl⟩)
  | reclaim =>
    simp only [call, Checked.bind_eq_ok_iff, Checked.pure_eq_ok_iff, Prod.mk.injEq] at h
    obtain ⟨⟨area, m'⟩, hreclaim, -, rfl⟩ := h
    obtain ⟨-, rfl, -⟩ | ⟨region, hwManager, hunused, -, hperm, -, -, -⟩ :=
      reclaim_eq_ok hinv hreclaim
    · exact .inl rfl
    · exact .inr (.inr ⟨region, hunused, hperm⟩)
  | allocEm len emType => exact hmanages.elim
  | freeEm addr len => exact hmanages.elim

end UniSecMemManager

open UniSecMemManager (Effect)

section Invariants

variable {AR AA : Type} {build : Build}
  {m m' : UniSecMemManager AR AA} {request : Request build}

/-- The slot of a region that leaves is free again. -/
theorem SlotInv.of_reclaim (hinv : SlotInv m) {region : SecMemRegion AR AA}
    {hwManager : PMPSlotAllocator} {passed : List Nat}
    (hperm : m.allocRegions.Perm (region :: m'.allocRegions))
    (hfree : m.protector.hwManager.free region.slot = (.ok (), hwManager))
    (hprotector : m'.protector = ⟨hwManager, passed⟩) : SlotInv m' := by
  have hslots : m.slots.Perm (region.slot :: m'.slots) := hperm.map SecMemRegion.slot
  have hnodup := List.nodup_cons.mp (hslots.nodup_iff.mp hinv.nodup)
  have hmem : region.slot ∈ m.slots := hslots.mem_iff.mpr List.mem_cons_self
  obtain ⟨hw, hfree', hmask, hheld⟩ :=
    PMPSlotAllocator.free_of_holds (hinv.slot_range hmem).2 ((hinv.held _).mpr hmem)
  rw [hfree, Prod.mk.injEq] at hfree'
  obtain ⟨-, rfl⟩ := hfree'
  constructor
  · rw [hprotector]
    exact hmask.trans hinv.mask
  · exact hnodup.2
  · intro other
    rw [hprotector, hheld, hinv.held, hslots.mem_iff, List.mem_cons]
    constructor
    · rintro ⟨rfl | hother, hne⟩
      · exact absurd rfl hne
      · exact hother
    · intro hother
      exact ⟨Or.inr hother, fun heq => hnodup.1 (heq ▸ hother)⟩

theorem SlotInv.effect (h : Effect build m request m') (hinv : SlotInv m) : SlotInv m' := by
  cases h with
  | init hregions hw =>
    exact hinv.of_footprints hw (by simp only [UniSecMemManager.slots, hregions])
  | stay => exact hinv
  | @extend addr len slot id hwManager hprotectable hoverlap halloc =>
    obtain ⟨hfresh, hmask, hheld⟩ := PMPSlotAllocator.alloc_eq_ok halloc
    have hslots : ∀ other, other ∈ m.slots ++ [slot] ↔ other ∈ m.slots ∨ other = slot := by
      simp
    constructor
    · exact hmask.trans hinv.mask
    · simp only [UniSecMemManager.slots, List.map_append]
      exact hinv.nodup.append (List.nodup_singleton slot)
        (List.disjoint_singleton.mpr fun hmem => hfresh ((hinv.held slot).mpr hmem))
    · intro other
      simp only [UniSecMemManager.slots, List.map_append]
      rw [hheld, hinv.held]
      exact (hslots other).symm
  | @reclaim region hwManager m' hunused hperm hfree hprotector hreserved =>
    exact hinv.of_reclaim hperm hfree hprotector
  | keep hkeep =>
    exact hinv.of_footprints (by rw [hkeep.1]) hkeep.slots_eq

/-- The managed regions share no address, and none of them ends past the address space. -/
structure AreaInv (build : Build) (m : UniSecMemManager AR AA) : Prop where
  apart : (m.allocRegions.map (·.area)).Pairwise Area.Apart
  bounded : ∀ r ∈ m.allocRegions, r.area.stop < build.xlen.words

/-- The call does not place the first region at the top of the address space. -/
def BelowTop (m : UniSecMemManager AR AA) : Request build → Prop
  | .extend addr len =>
    m.allocRegions = [] → m.protector.isProtectable addr.toNat len.toNat = true →
      addr.toNat + len.toNat ≠ build.xlen.words
  | _ => True

instance [DecidableEq AR] [DecidableEq AA] :
    (request : Request build) → Decidable (BelowTop m request)
  | .extend _ _ => inferInstanceAs (Decidable (_ → _ → _))
  | .init _ _ => isTrue trivial
  | .reclaim => isTrue trivial
  | .allocEm _ _ => isTrue trivial
  | .freeEm _ _ => isTrue trivial

theorem AreaInv.bounded_area (hinv : AreaInv build m) :
    ∀ area ∈ m.allocRegions.map (·.area), area.stop < build.xlen.words := by
  rintro area harea
  obtain ⟨r, hr, rfl⟩ := List.mem_map.mp harea
  exact hinv.bounded r hr

theorem AreaInv.of_areas (hapart : (m.allocRegions.map (·.area)).Pairwise Area.Apart)
    (hbounded : ∀ area ∈ m.allocRegions.map (·.area), area.stop < build.xlen.words) :
    AreaInv build m :=
  ⟨hapart, fun _ hr => hbounded _ (List.mem_map_of_mem hr)⟩

theorem AreaInv.effect (h : Effect build m request m') (hbelow : BelowTop m request)
    (hinv : AreaInv build m) : AreaInv build m' := by
  cases h with
  | init hregions _ =>
    apply AreaInv.of_areas
    · rw [hregions]
      exact hinv.apart
    · rw [hregions]
      exact hinv.bounded_area
  | stay => exact hinv
  | @extend addr len slot id hwManager hprotectable hoverlap halloc =>
    have hnew : ∀ r ∈ m.allocRegions, addr.toNat + len.toNat < build.xlen.words ∧
        r.area.Apart ⟨addr.toNat, len.toNat⟩ := fun r hr =>
      (SecMemRegion.isMemOverlap_eq_false_iff (hinv.bounded r hr)).mp (hoverlap r hr)
    have hstop : addr.toNat + len.toNat < build.xlen.words := by
      -- With a region in place the overlap check also rejects an end that does not fit.
      cases hregions : m.allocRegions with
      | nil =>
        have hle : addr.toNat + len.toNat ≤ build.xlen.words :=
          stop_le_words_of_isProtectable hprotectable addr.isLt len.isLt
        exact lt_of_le_of_ne hle (hbelow hregions hprotectable)
      | cons r rest => exact (hnew r (hregions ▸ List.mem_cons_self)).1
    constructor
    · simp only [List.map_append]
      rw [List.pairwise_append]
      refine ⟨hinv.apart, List.pairwise_singleton _ _, ?_⟩
      rintro area harea other hother
      obtain ⟨r, hr, rfl⟩ := List.mem_map.mp harea
      rw [List.map_singleton, List.mem_singleton] at hother
      exact hother ▸ (hnew r hr).2
    · intro r hr
      rcases List.mem_append.mp hr with hr | hr
      · exact hinv.bounded r hr
      · rw [List.mem_singleton.mp hr]
        exact hstop
  | @reclaim region hwManager m' hunused hperm hfree hprotector hreserved =>
    have hareas : (m.allocRegions.map (·.area)).Perm (region.area :: m'.allocRegions.map (·.area)) :=
      hperm.map SecMemRegion.area
    have hapart := (hareas.pairwise_iff Area.Apart.symm).mp hinv.apart
    exact AreaInv.of_areas (List.pairwise_cons.mp hapart).2 fun area harea =>
      hinv.bounded_area area (hareas.mem_iff.mpr (List.mem_cons_of_mem _ harea))
  | keep hkeep =>
    apply AreaInv.of_areas
    · rw [hkeep.areas_eq]
      exact hinv.apart
    · rw [hkeep.areas_eq]
      exact hinv.bounded_area

/-- Without `init` the protector only sees the slots of managed regions. -/
structure PlainInv (m : UniSecMemManager AR AA) : Prop where
  reserved : m.reservedRegions = []
  passed : ∀ slot ∈ m.protector.passed, slot < maxPmpEntryCount

def Request.isInit : Request build → Bool
  | .init _ _ => true
  | _ => false

theorem PlainInv.effect (h : Effect build m request m') (hplain : request.isInit = false)
    (hslots : SlotInv m) (hslots' : SlotInv m') (hinv : PlainInv m) : PlainInv m' := by
  cases h with
  | init _ _ => cases hplain
  | stay => exact hinv
  | @extend addr len slot id hwManager hprotectable hoverlap halloc =>
    have hnew : slot < maxPmpEntryCount := by
      refine (hslots'.slot_range ?_).2
      simp [UniSecMemManager.slots, SecMemRegion.new]
    exact ⟨hinv.reserved, List.forall_mem_cons.mpr ⟨hnew, hinv.passed⟩⟩
  | @reclaim region hwManager m' hunused hperm hfree hprotector hreserved =>
    have hmem : region.slot ∈ m.slots :=
      (hperm.map SecMemRegion.slot).mem_iff.mpr List.mem_cons_self
    have hlt := (hslots.slot_range hmem).2
    refine ⟨hreserved.trans hinv.reserved, ?_⟩
    rw [hprotector]
    exact List.forall_mem_cons.mpr ⟨hlt, List.forall_mem_cons.mpr ⟨hlt, hinv.passed⟩⟩
  | keep hkeep =>
    refine ⟨hkeep.2.1.trans hinv.reserved, ?_⟩
    rw [hkeep.1]
    exact hinv.passed

end Invariants

/-! ## Runs of the manager -/

section Runs

variable {AR AA : Type} [SecMemAllocator AR] [SecMemAllocator AA] {build : Build}

/-- The slots in use for the entries that are not those of a managed region: `init`
takes one for the monitor, one for temporary access and one for the default grant. -/
def entrySlots (requests : List (Request build)) : List Nat :=
  if requests.any Request.isInit then [smSlot, tempSlot, defaultSlot] else []

/-- What a manager keeps to over a run: its areas share no address and end below the
top of the address space, the slots in use are distinct and PMP indices, and `extend`
reports whether it has added the area and changes nothing when it has not. -/
structure Sound (requests : List (Request build)) (m : UniSecMemManager AR AA) : Prop where
  apart : m.areas.Pairwise Area.Apart
  bounded : ∀ area ∈ m.areas, area.stop < build.xlen.words
  passed : ∀ slot ∈ m.protector.passed, slot < maxPmpEntryCount
  distinct : (entrySlots requests ++ m.slots).Nodup
  extended : ∀ (addr len : BitVec build.xlen.bits) (ok : Bool) (m' : UniSecMemManager AR AA),
    m.extend build addr.toNat len.toNat = .ok (ok, m') →
      (ok = true ↔ ∃ region : SecMemRegion AR AA, region.area = ⟨addr.toNat, len.toNat⟩ ∧
        m'.allocRegions = m.allocRegions ++ [region]) ∧
      (ok = false → m' = m)

/-- The calls that keep a manager sound: all but `init`, and an `extend` only below
the top of the address space while there is no region. -/
def KeepsSound (m : UniSecMemManager AR AA) (request : Request build) : Prop :=
  request.isInit = false ∧ BelowTop m request

instance [DecidableEq AR] [DecidableEq AA] (m : UniSecMemManager AR AA) (request : Request build) :
    Decidable (KeepsSound m request) :=
  inferInstanceAs (Decidable (_ ∧ _))

omit [SecMemAllocator AR] [SecMemAllocator AA] in
theorem extend_reports {m : UniSecMemManager AR AA} (hinv : SlotInv m)
    (addr len : BitVec build.xlen.bits) (ok : Bool) (m' : UniSecMemManager AR AA)
    (h : m.extend build addr.toNat len.toNat = .ok (ok, m')) :
    (ok = true ↔ ∃ region : SecMemRegion AR AA, region.area = ⟨addr.toNat, len.toNat⟩ ∧
      m'.allocRegions = m.allocRegions ++ [region]) ∧ (ok = false → m' = m) := by
  obtain ⟨rfl, rfl⟩ | ⟨rfl, slot, id, hwManager, -, -, -, rfl⟩ :=
    UniSecMemManager.extend_eq_ok hinv h
  · simp
  · simp only [true_iff, Bool.true_eq_false, false_implies, and_true]
    exact ⟨.new addr.toNat len.toNat id slot, rfl, rfl⟩

/-- Over every run of such calls the manager stays sound. -/
theorem manager_sound {requests : List (Request build)} {m : UniSecMemManager AR AA}
    (hrun : Run (fun m request m' => m.Step request m' ∧ KeepsSound m request) .new requests m) :
    Sound requests m := by
  have hinv : SlotInv m ∧ AreaInv build m ∧ PlainInv m := by
    refine hrun.invariant (P := fun m => SlotInv m ∧ AreaInv build m ∧ PlainInv m) ?_
      ⟨.of_new, ⟨List.Pairwise.nil, by simp [UniSecMemManager.new]⟩,
        ⟨rfl, by simp [UniSecMemManager.new, TestSecMemProtector.new]⟩⟩
    rintro m request m' ⟨hslots, hareas, hplain⟩ ⟨hstep, hinit, hbelow⟩
    have heffect := hstep.effect hslots
    have hslots' := hslots.effect heffect
    exact ⟨hslots', hareas.effect heffect hbelow, hplain.effect heffect hinit hslots hslots'⟩
  obtain ⟨hslots, hareas, hplain⟩ := hinv
  have hentries : entrySlots requests = [] := by
    have hlabels := hrun.forall_label (p := fun request => request.isInit = false)
      fun _ _ _ hstep => hstep.2.1
    simpa [entrySlots] using hlabels
  have hmanaged : m.areas = m.allocRegions.map (·.area) := by
    rw [UniSecMemManager.areas, hplain.reserved, List.map_nil, List.nil_append]
  constructor
  · rw [hmanaged]
    exact hareas.apart
  · rw [hmanaged]
    exact hareas.bounded_area
  · exact hplain.passed
  · rw [hentries, List.nil_append]
    exact hslots.nodup
  · exact extend_reports hslots

/-- A manager with one region that a runtime enclave has taken. -/
def takenRegion : UniSecMemManager RTAlloc RTAlloc where
  curIdx := 2
  protector := ⟨⟨4#64, pmpAllocMask, pmpManageMask⟩, [3, 3, 3, 2]⟩
  reservedRegions := []
  allocRegions := [⟨0x80000000, 0x1000, 1, 2, true, .runtime ⟨0x80000000, 0, 0x1000⟩⟩]

/-- Two regions are added, one of them is taken by a runtime enclave and the other reclaimed. -/
theorem manager_sound_two_regions :
    ∃ requests : List (Request ⟨.rv64, true⟩),
      Run UniSecMemManager.Step .new requests takenRegion ∧ Sound requests takenRegion := by
  let requests : List (Request ⟨.rv64, true⟩) :=
    [.extend 0x80000000#64 0x1000#64, .extend 0x80002000#64 0x2000#64,
      .allocEm 0x800#64 .runtime, .reclaim]
  let exec (m : UniSecMemManager RTAlloc RTAlloc) (request : Request ⟨.rv64, true⟩) :=
    if KeepsSound m request then m.exec request else none
  have hrun : Run (fun (m : UniSecMemManager RTAlloc RTAlloc) request m' =>
      m.Step request m' ∧ KeepsSound m request) .new requests takenRegion := by
    refine Run.of_foldlM (e := exec) (fun m request m' hexec => ?_) (by decide +kernel)
    obtain ⟨hkeeps, hexec⟩ := Option.ite_none_right_eq_some.mp hexec
    exact ⟨UniSecMemManager.step_of_exec hexec, hkeeps⟩
  exact ⟨requests, hrun.mono fun _ _ _ hstep => hstep.1, manager_sound hrun⟩

/-- A manager whose region lies in the memory of the monitor. -/
def sharedRegion : UniSecMemManager RTAlloc RTAlloc where
  curIdx := 2
  protector := ⟨⟨4#64, pmpAllocMask, pmpManageMask⟩, [2, smSlot, defaultSlot, tempSlot]⟩
  reservedRegions := [.new 0x80000000 0x200000 0 smSlot]
  allocRegions := [.new 0x80100000 0x100000 2 2]

/-- `init` names the default entry by its bit instead of its index, gives temporary
access the slot of the first managed region, and does not keep later regions off the
monitor's own. -/
theorem init_unsound :
    ∃ requests : List (Request ⟨.rv64, true⟩),
      requests = [.init 0x80000000#64 0x200000#64, .extend 0x80100000#64 0x100000#64] ∧
        Run UniSecMemManager.Step .new requests sharedRegion ∧
        ¬ sharedRegion.areas.Pairwise Area.Apart ∧
        ¬ (∀ slot ∈ sharedRegion.protector.passed, slot < maxPmpEntryCount) ∧
        ¬ (entrySlots requests ++ sharedRegion.slots).Nodup ∧
        ¬ Sound requests sharedRegion := by
  refine ⟨_, rfl, ?_, ?_, ?_, ?_, fun hsound => ?_⟩
  · exact Run.of_foldlM (fun _ _ _ => UniSecMemManager.step_of_exec) (by decide +kernel)
  · decide
  · decide
  · decide
  · exact absurd hsound.passed (by decide)

end Runs

end RustSbi.Smm
