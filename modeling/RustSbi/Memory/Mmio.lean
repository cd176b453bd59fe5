import RustSbi.Memory.Registry

/-!
Device-register windows (`memory/mmio.rs` and `MemoryRegistry::acquire_mmio`):
issuing a window records it, so that windows never meet each other, RAM,
reserved memory or the firmware image, and every volatile access through a
window is aligned and stays inside it.
-/

namespace RustSbi.Memory

open HalfOpen PhysAddrRange

variable {xlen : Xlen}

/-- `DeviceRegisterRange`: a range the platform description authorizes. -/
structure DeviceRegisterRange (xlen : Xlen) where
  physicalRange : PhysAddrRange xlen
  deriving DecidableEq, Repr

namespace DeviceRegisterRange

/-- `DeviceRegisterRange::start`. -/
def start (registers : DeviceRegisterRange xlen) : Nat := registers.physicalRange.start

/-- `DeviceRegisterRange::has_aligned_bounds`. -/
def hasAlignedBounds (registers : DeviceRegisterRange xlen) (alignment : Nat) : Bool :=
  alignment != 0 && registers.physicalRange.start % alignment == 0 &&
    registers.physicalRange.stop % alignment == 0

/-- `DeviceRegisterRange::contains`. -/
def contains (registers : DeviceRegisterRange xlen) (range : PhysAddrRange xlen) : Bool :=
  registers.physicalRange.contains range

/-- `DeviceRegisterRange::subrange`. -/
def subrange (registers : DeviceRegisterRange xlen) (offset len : Nat) :
    Result (DeviceRegisterRange xlen) :=
  (registers.physicalRange.subrange offset len).map DeviceRegisterRange.mk

end DeviceRegisterRange

/-- `MmioRegion`. -/
structure MmioRegion (xlen : Xlen) where
  range : PhysAddrRange xlen
  deriving DecidableEq, Repr

/-- `MmioValue`: the integers of one volatile access. A `u64` is offered on
64-bit targets only. -/
inductive MmioValue : Xlen → Type
  | u8 {x : Xlen} : MmioValue x
  | u16 {x : Xlen} : MmioValue x
  | u32 {x : Xlen} : MmioValue x
  | u64 : MmioValue .rv64
  deriving DecidableEq, Repr

/-- `size_of::<T>()`, which is also `align_of::<T>()` for these types. -/
def MmioValue.size {x : Xlen} : MmioValue x → Nat
  | u8 => 1
  | u16 => 2
  | u32 => 4
  | u64 => 8

/-- What the hardware does on one volatile access of `size` bytes at an
address, for a device with internal state `σ`. -/
structure Device (σ : Type) where
  readVolatile : (address size : Nat) → σ → Nat × σ
  writeVolatile : (address size value : Nat) → σ → σ

namespace MmioRegion

/-- `MmioRegion::checked_address`. -/
def checkedAddress (region : MmioRegion xlen) (t : MmioValue xlen) (offset : Nat) : Result Nat := do
  let access ← region.range.subrange offset t.size
  if access.start % t.size ≠ 0 then throw .invalidArgs
  return access.start

/-- `MmioRegion::read`. -/
def read {σ : Type} (region : MmioRegion xlen) (t : MmioValue xlen) (offset : Nat)
    (device : Device σ) (s : σ) : Result Nat × σ :=
  match region.checkedAddress t offset with
  | .error e => (.error e, s)
  | .ok address =>
    let (value, s') := device.readVolatile address t.size s
    (.ok value, s')

/-- `MmioRegion::write`. -/
def write {σ : Type} (region : MmioRegion xlen) (t : MmioValue xlen) (offset value : Nat)
    (device : Device σ) (s : σ) : Result Unit × σ :=
  match region.checkedAddress t offset with
  | .error e => (.error e, s)
  | .ok address => (.ok (), device.writeVolatile address t.size value s)

end MmioRegion

namespace MemoryRegistry

/-- `MemoryRegistry::acquire_mmio`, returning the registry it leaves. -/
def acquireMmio (registry : MemoryRegistry xlen) (registers : DeviceRegisterRange xlen) :
    Result (MmioRegion xlen) × MemoryRegistry xlen :=
  let range := registers.physicalRange
  if (registry.ramRanges ++ registry.reservedRanges).any (fun unavailable =>
        unavailable.overlaps range) ||
      registry.acquiredMmio.any (fun acquired => acquired.overlaps range) then
    (.error .accessDenied, registry)
  else
    (.ok ⟨range⟩, { registry with acquiredMmio := registry.acquiredMmio ++ [range] })

/-- A sequence of `acquire_mmio` calls: the windows issued, in order, and the
registry after the last call. -/
def acquireAll (registry : MemoryRegistry xlen) :
    List (DeviceRegisterRange xlen) → List (MmioRegion xlen) × MemoryRegistry xlen
  | [] => ([], registry)
  | call :: calls =>
    let (result, registry') := registry.acquireMmio call
    let (issued, registry'') := registry'.acquireAll calls
    match result with
    | .ok region => (region :: issued, registry'')
    | .error _ => (issued, registry'')

end MemoryRegistry

/-- The code that binds a driver to its windows. -/
abbrev Binding (xlen : Xlen) (α : Type) := ExceptT Error (StateM (MemoryRegistry xlen)) α

/-- `memory.acquire_mmio(registers)?`. -/
def acquire (registers : DeviceRegisterRange xlen) : Binding xlen (MmioRegion xlen) :=
  ExceptT.mk fun memory => memory.acquireMmio registers

/-! ## Accesses -/

theorem subrange_eq_ok_iff {r s : PhysAddrRange xlen} {offset len : Nat} :
    r.subrange offset len = .ok s ↔
      0 < len ∧ s.start = r.start + offset ∧ s.stop = r.start + offset + len ∧ s.stop ≤ r.stop := by
  have hr := r.stop_lt_words
  unfold subrange
  constructor
  · intro h
    split at h
    · simp at h
    · split at h
      · split at h
        · split at h
          · simp at h
          · cases h
            exact ⟨by omega, rfl, rfl, not_lt.mp (by assumption)⟩
        · simp at h
      · simp at h
  · rintro ⟨h₁, h₂, h₃, h₄⟩
    have hw : r.start + offset + len < xlen.words := by omega
    rw [dif_neg (by omega), if_pos (by omega), dif_pos hw, if_neg (by omega)]
    exact congrArg _ (PhysAddrRange.ext h₂.symm h₃.symm)

/-- An accepted access is aligned to its width and its bytes are bytes of the window. -/
theorem checkedAddress_ok {region : MmioRegion xlen} {t : MmioValue xlen} {offset address : Nat}
    (h : region.checkedAddress t offset = .ok address) :
    address % t.size = 0 ∧ ∀ b, address ≤ b → b < address + t.size → b ∈ region.range := by
  unfold MmioRegion.checkedAddress at h
  cases hs : region.range.subrange offset t.size with
  | error e => simp [hs, bind, Except.bind] at h
  | ok access =>
    obtain ⟨_, hstart, hstop, hle⟩ := subrange_eq_ok_iff.mp hs
    simp only [hs, bind, Except.bind] at h
    split at h
    · simp [throw, throwThe, MonadExceptOf.throw] at h
    · rename_i halign
      simp only [pure, Except.pure, Except.ok.injEq] at h
      subst h
      refine ⟨not_not.mp halign, fun b hb₁ hb₂ => ?_⟩
      rw [mem_iff]
      omega

theorem checkedAddress_eq {region : MmioRegion xlen} {t : MmioValue xlen} {offset : Nat}
    (hinside : region.range.start + offset + t.size ≤ region.range.stop)
    (haligned : (region.range.start + offset) % t.size = 0) :
    region.checkedAddress t offset = .ok (region.range.start + offset) := by
  have hsize : 0 < t.size := by cases t <;> exact Nat.succ_pos _
  have hstop := region.range.stop_lt_words
  have hsub : region.range.subrange offset t.size =
      .ok ⟨region.range.start + offset, region.range.start + offset + t.size, by omega, by omega⟩ :=
    subrange_eq_ok_iff.mpr ⟨hsize, rfl, rfl, hinside⟩
  simp [MmioRegion.checkedAddress, hsub, Bind.bind, Except.bind, haligned, pure, Except.pure]

/-- An access that ends behind the window is rejected. -/
theorem checkedAddress_outside {region : MmioRegion xlen} {t : MmioValue xlen} {offset : Nat}
    (houtside : region.range.stop < region.range.start + offset + t.size) :
    ∃ e, region.checkedAddress t offset = .error e := by
  unfold MmioRegion.checkedAddress
  cases hsub : region.range.subrange offset t.size with
  | error e => exact ⟨e, rfl⟩
  | ok access =>
    obtain ⟨-, -, hstop, hle⟩ := subrange_eq_ok_iff.mp hsub
    omega

theorem DeviceRegisterRange.subrange_eq_ok_iff {registers part : DeviceRegisterRange xlen}
    {offset len : Nat} : registers.subrange offset len = .ok part ↔
      0 < len ∧ part.physicalRange.start = registers.physicalRange.start + offset ∧
      part.physicalRange.stop = registers.physicalRange.start + offset + len ∧
      part.physicalRange.stop ≤ registers.physicalRange.stop := by
  rw [← Memory.subrange_eq_ok_iff, DeviceRegisterRange.subrange]
  cases registers.physicalRange.subrange offset len with
  | error e => simp [Except.map]
  | ok range =>
    simp only [Except.map, Except.ok.injEq]
    exact ⟨fun h => h ▸ rfl, fun h => h ▸ rfl⟩

theorem DeviceRegisterRange.hasAlignedBounds_iff {registers : DeviceRegisterRange xlen}
    {alignment : Nat} : registers.hasAlignedBounds alignment = true ↔
      alignment ≠ 0 ∧ alignment ∣ registers.physicalRange.start ∧
        alignment ∣ registers.physicalRange.stop := by
  simp [hasAlignedBounds, Nat.dvd_iff_mod_eq_zero, and_assoc]

/-! ## Binding -/

section Binding

variable {α β : Type} {memory memory' : MemoryRegistry xlen}

theorem binding_bind_eq_ok_iff {p : Binding xlen α} {f : α → Binding xlen β} {b : β} :
    (p >>= f) memory = (.ok b, memory') ↔
      ∃ a memory'', p memory = (.ok a, memory'') ∧ f a memory'' = (.ok b, memory') := by
  have hbind : (p >>= f) memory = match p memory with
      | (.ok a, memory'') => f a memory''
      | (.error e, memory'') => (.error e, memory'') := by
    change (ExceptT.bind p f).run memory = _
    simp only [ExceptT.bind, ExceptT.bindCont, ExceptT.run, ExceptT.mk, Bind.bind, StateT.bind]
    rcases p memory with ⟨_ | a, memory''⟩ <;> rfl
  rw [hbind]
  rcases p memory with ⟨_ | a, memory''⟩
  · exact iff_of_false nofun (by rintro ⟨_, _, ⟨⟩, -⟩)
  · constructor
    · exact fun h => ⟨a, memory'', rfl, h⟩
    · rintro ⟨_, _, ⟨⟩, h⟩
      exact h

@[simp] theorem binding_pure_eq_ok_iff {a b : α} :
    (pure a : Binding xlen α) memory = (.ok b, memory') ↔ a = b ∧ memory = memory' := by
  change (Except.ok a, memory) = (.ok b, memory') ↔ _
  simp

@[simp] theorem binding_lift_eq_ok_iff {result : Result α} {a : α} :
    (liftM result : Binding xlen α) memory = (.ok a, memory') ↔ result = .ok a ∧ memory = memory' := by
  change (result, memory) = (.ok a, memory') ↔ _
  simp

@[simp] theorem binding_throw_ne_ok {e : Error} {a : α} :
    (throw e : Binding xlen α) memory ≠ (.ok a, memory') := by
  change (Except.error e, memory) ≠ (.ok a, memory')
  simp

end Binding

/-! ## Issued windows -/

/-- The windows recorded so far keep off each other and off the memory ranges. -/
structure WindowsExclusive (registry : MemoryRegistry xlen) : Prop where
  pairwise : registry.acquiredMmio.Pairwise fun p q => ∀ a, ¬ (a ∈ p ∧ a ∈ q)
  off_memory : ∀ w ∈ registry.acquiredMmio, ∀ a ∈ w,
    ¬ Covered (registry.ramRanges ++ registry.reservedRanges) a

private theorem any_overlaps_eq_false {l : List (PhysAddrRange xlen)} {range : PhysAddrRange xlen} :
    (l.any fun p => p.overlaps range) = false ↔ ∀ a ∈ range, ¬ Covered l a := by
  rw [← Bool.not_eq_true, List.any_eq_true]
  simp only [overlaps_iff_exists]
  constructor
  · rintro h a ha ⟨p, hp, hpa⟩
    exact h ⟨p, hp, a, hpa, ha⟩
  · rintro h ⟨p, hp, a, hpa, ha⟩
    exact h a ha ⟨p, hp, hpa⟩

/-- The two outcomes of a call. -/
theorem acquireMmio_cases (registry : MemoryRegistry xlen) (call : DeviceRegisterRange xlen) :
    ((∀ a ∈ call.physicalRange,
        ¬ Covered (registry.ramRanges ++ registry.reservedRanges) a ∧
          ¬ Covered registry.acquiredMmio a) ∧
      registry.acquireMmio call = (.ok ⟨call.physicalRange⟩,
        { registry with acquiredMmio := registry.acquiredMmio ++ [call.physicalRange] })) ∨
    ((∃ a ∈ call.physicalRange,
        Covered (registry.ramRanges ++ registry.reservedRanges) a ∨
          Covered registry.acquiredMmio a) ∧
      registry.acquireMmio call = (.error .accessDenied, registry)) := by
  by_cases hm : ((registry.ramRanges ++ registry.reservedRanges).any
      fun p => p.overlaps call.physicalRange) = false
  · by_cases hw : (registry.acquiredMmio.any fun p => p.overlaps call.physicalRange) = false
    · refine Or.inl ⟨fun a ha => ⟨any_overlaps_eq_false.mp hm a ha,
        any_overlaps_eq_false.mp hw a ha⟩, ?_⟩
      unfold MemoryRegistry.acquireMmio
      simp only [hm, hw, Bool.or_self, Bool.false_eq_true, if_false]
    · refine Or.inr ⟨?_, ?_⟩
      · rw [any_overlaps_eq_false] at hw
        push Not at hw
        obtain ⟨a, ha, hc⟩ := hw
        exact ⟨a, ha, Or.inr hc⟩
      · unfold MemoryRegistry.acquireMmio
        rw [Bool.not_eq_false] at hw
        simp only [hw, Bool.or_true, if_true]
  · refine Or.inr ⟨?_, ?_⟩
    · rw [any_overlaps_eq_false] at hm
      push Not at hm
      obtain ⟨a, ha, hc⟩ := hm
      exact ⟨a, ha, Or.inl hc⟩
    · unfold MemoryRegistry.acquireMmio
      rw [Bool.not_eq_false] at hm
      simp only [hm, Bool.true_or, if_true]

/-- A window that was acquired is the range that was asked for. -/
theorem range_of_acquire {registers : DeviceRegisterRange xlen} {memory memory' : MemoryRegistry xlen}
    {region : MmioRegion xlen} (h : acquire registers memory = (.ok region, memory')) :
    region.range = registers.physicalRange := by
  have hcall : memory.acquireMmio registers = (.ok region, memory') := h
  rcases acquireMmio_cases memory registers with ⟨-, heq⟩ | ⟨-, heq⟩
  · rw [heq] at hcall
    cases hcall
    rfl
  · rw [heq] at hcall
    cases hcall

/-- One call keeps the memory ranges and the exclusion of the windows. -/
theorem acquireMmio_exclusive {registry : MemoryRegistry xlen} (hx : WindowsExclusive registry)
    (call : DeviceRegisterRange xlen) : WindowsExclusive (registry.acquireMmio call).2 := by
  rcases acquireMmio_cases registry call with ⟨hfree, heq⟩ | ⟨_, heq⟩
  · rw [heq]
    refine ⟨?_, ?_⟩
    · refine List.pairwise_append.mpr ⟨hx.pairwise, List.pairwise_singleton _ _, ?_⟩
      intro p hp q hq a ha
      rw [List.mem_singleton] at hq
      subst hq
      exact (hfree a ha.2).2 ⟨p, hp, ha.1⟩
    · intro w hw a ha
      rcases List.mem_append.mp hw with hw | hw
      · exact hx.off_memory w hw a ha
      · rw [List.mem_singleton] at hw
        subst hw
        exact (hfree a ha).1
  · rw [heq]
    exact hx

/-- A sequence of calls appends the issued windows to the recorded ones and
keeps everything else of the registry. -/
theorem acquireAll_spec (calls : List (DeviceRegisterRange xlen)) {registry : MemoryRegistry xlen}
    (hx : WindowsExclusive registry) :
    WindowsExclusive (registry.acquireAll calls).2 ∧
      (registry.acquireAll calls).2 = { registry with
        acquiredMmio := registry.acquiredMmio ++
          (registry.acquireAll calls).1.map MmioRegion.range } := by
  induction calls generalizing registry with
  | nil => simpa [MemoryRegistry.acquireAll] using hx
  | cons call calls ih =>
    have hx' := acquireMmio_exclusive hx call
    obtain ⟨h₁, h₂⟩ := ih hx'
    rcases acquireMmio_cases registry call with ⟨_, heq⟩ | ⟨_, heq⟩
    · simp only [MemoryRegistry.acquireAll, heq] at h₁ h₂ ⊢
      refine ⟨h₁, h₂.trans ?_⟩
      simp
    · simp only [MemoryRegistry.acquireAll, heq] at h₁ h₂ ⊢
      exact ⟨h₁, h₂⟩

theorem windowsExclusive_of_registration {firmware : PhysAddrRange xlen}
    {ram reserved : List (PhysAddrRange xlen)} {supervisor : SupervisorMemory xlen}
    {registry : MemoryRegistry xlen}
    (h : MemoryRegistry.fromRangesWithFirmware firmware ram reserved = .ok (supervisor, registry)) :
    WindowsExclusive registry := by
  rw [(fromRangesWithFirmware_ok h).1]
  exact ⟨List.Pairwise.nil, by simp⟩

/-- The addresses a registry guards are those of the ranges it was built from:
the firmware image lies in RAM. -/
theorem covered_guarded {firmware : PhysAddrRange xlen}
    {ram reserved : List (PhysAddrRange xlen)} {supervisor : SupervisorMemory xlen}
    {registry : MemoryRegistry xlen}
    (h : MemoryRegistry.fromRangesWithFirmware firmware ram reserved = .ok (supervisor, registry))
    (a : Nat) :
    Covered (registry.ramRanges ++ registry.reservedRanges) a ↔
      (∃ p ∈ ram, a ∈ p) ∨ (∃ p ∈ reserved, a ∈ p) ∨ a ∈ firmware := by
  obtain ⟨heq, ⟨p, hp, hpf⟩, _⟩ := fromRangesWithFirmware_ok h
  have hfw : a ∈ firmware → Covered ram a := by
    intro ha
    rw [contains_iff] at hpf
    rw [← covered_normalizeReservedRanges]
    refine ⟨p, hp, ?_⟩
    rw [mem_iff] at ha
    exact ⟨hpf.1.trans ha.1, ha.2.trans_le hpf.2⟩
  rw [heq]
  simp only [covers_append, covered_normalizeReservedRanges]
  rw [← covered_iff, ← covered_iff]
  tauto

/-- Windows are exclusive after every sequence of calls; what the next call
does; and what the accesses through an issued window may touch. -/
theorem mmio_windows_exclusive {firmware : PhysAddrRange xlen}
    {ram reserved : List (PhysAddrRange xlen)} {supervisor : SupervisorMemory xlen}
    {registry : MemoryRegistry xlen}
    (h : MemoryRegistry.fromRangesWithFirmware firmware ram reserved = .ok (supervisor, registry))
    (calls : List (DeviceRegisterRange xlen)) :
    let issued := (registry.acquireAll calls).1
    let current := (registry.acquireAll calls).2
    (issued.Pairwise fun v w => ∀ a, ¬ (a ∈ v.range ∧ a ∈ w.range)) ∧
    (∀ w ∈ issued, ∀ a ∈ w.range, (∀ p ∈ ram, a ∉ p) ∧ (∀ p ∈ reserved, a ∉ p) ∧
      a ∉ firmware ∧ ∀ p ∈ supervisor.regions, a ∉ p) ∧
    (∀ call : DeviceRegisterRange xlen,
      ((∃ region, (current.acquireMmio call).1 = .ok region) ↔
        ∀ a ∈ call.physicalRange, (∀ p ∈ ram, a ∉ p) ∧ (∀ p ∈ reserved, a ∉ p) ∧
          a ∉ firmware ∧ ∀ w ∈ issued, a ∉ w.range) ∧
      (∀ region, (current.acquireMmio call).1 = .ok region → region.range = call.physicalRange) ∧
      (∀ e, (current.acquireMmio call).1 = .error e → (current.acquireMmio call).2 = current)) ∧
    (∀ w ∈ issued, ∀ (t : MmioValue xlen) (offset : Nat) (σ : Type) (device : Device σ) (s : σ),
      (∀ v, (w.read t offset device s).1 = .ok v →
        ∃ address, w.read t offset device s =
            (.ok (device.readVolatile address t.size s).1,
              (device.readVolatile address t.size s).2) ∧
          address % t.size = 0 ∧ ∀ b, address ≤ b → b < address + t.size → b ∈ w.range) ∧
      (∀ value, (w.write t offset value device s).1 = .ok () →
        ∃ address, w.write t offset value device s =
            (.ok (), device.writeVolatile address t.size value s) ∧
          address % t.size = 0 ∧ ∀ b, address ≤ b → b < address + t.size → b ∈ w.range)) := by
  intro issued current
  obtain ⟨hx, hcur⟩ := acquireAll_spec calls (windowsExclusive_of_registration h)
  have hnone : registry.acquiredMmio = [] := by rw [(fromRangesWithFirmware_ok h).1]
  have hacq : current.acquiredMmio = issued.map MmioRegion.range := by
    show (registry.acquireAll calls).2.acquiredMmio = _
    rw [hcur, hnone]
    rfl
  have hguard : ∀ a, Covered (current.ramRanges ++ current.reservedRanges) a ↔
      (∃ p ∈ ram, a ∈ p) ∨ (∃ p ∈ reserved, a ∈ p) ∨ a ∈ firmware := by
    intro a
    rw [← covered_guarded h a, show current = _ from hcur]
  have hmem : ∀ w ∈ issued, w.range ∈ current.acquiredMmio := by
    intro w hw
    rw [hacq]
    exact List.mem_map_of_mem hw
  refine ⟨?_, ?_, ?_, ?_⟩
  · have hp := hx.pairwise
    rw [show (registry.acquireAll calls).2.acquiredMmio = _ from hacq] at hp
    exact List.pairwise_map.mp hp
  · intro w hw a ha
    have hoff := hx.off_memory w.range (hmem w hw) a ha
    have hsup : Covered supervisor.regions a → False := by
      intro hc
      exact hoff ((hguard a).mpr (Or.inl ((covered_regions h a).mp hc).1))
    rw [show Covered _ a ↔ _ from hguard a] at hoff
    push Not at hoff
    exact ⟨hoff.1, hoff.2.1, hoff.2.2, fun p hp hap => hsup ⟨p, hp, hap⟩⟩
  · intro call
    have hwin : ∀ a, Covered current.acquiredMmio a ↔ ∃ w ∈ issued, a ∈ w.range := by
      intro a
      rw [hacq, covered_iff]
      simp
    rcases acquireMmio_cases current call with ⟨hfree, heq⟩ | ⟨⟨a, ha, hmeet⟩, heq⟩
    · rw [heq]
      refine ⟨⟨fun _ a ha => ?_, fun _ => ⟨_, rfl⟩⟩, ?_, by simp⟩
      · have hf := hfree a ha
        rw [hguard, hwin] at hf
        push Not at hf
        exact ⟨hf.1.1, hf.1.2.1, hf.1.2.2, hf.2⟩
      · intro region hr
        cases hr
        rfl
    · rw [heq]
      refine ⟨⟨by simp, fun hall => ?_⟩, by simp, fun _ _ => rfl⟩
      obtain ⟨h₁, h₂, h₃, h₄⟩ := hall a ha
      rw [hguard, hwin] at hmeet
      rcases hmeet with (⟨p, hp, hap⟩ | ⟨p, hp, hap⟩ | hap) | ⟨w, hw, haw⟩
      · exact absurd hap (h₁ p hp)
      · exact absurd hap (h₂ p hp)
      · exact absurd hap h₃
      · exact absurd haw (h₄ w hw)
  · intro w _ t offset σ device s
    unfold MmioRegion.read MmioRegion.write
    cases hc : w.checkedAddress t offset with
    | error e => simp
    | ok address => exact ⟨fun _ _ => ⟨address, rfl, checkedAddress_ok hc⟩,
        fun _ _ => ⟨address, rfl, checkedAddress_ok hc⟩⟩

/-- The registry of a test of the source: RAM, one reservation among the devices
and three requests, of which the second meets the first. -/
theorem mmio_windows_three_requests :
    ((⟨⟨0x1200, 0x1300, by decide, by decide⟩,
        [⟨0x1000, 0x2000, by decide, by decide⟩], [⟨0x3080, 0x3090, by decide, by decide⟩],
        []⟩ : MemoryRegistry .rv64).acquireAll
      [⟨⟨0x3000, 0x3040, by decide, by decide⟩⟩, ⟨⟨0x3030, 0x3050, by decide, by decide⟩⟩,
       ⟨⟨0x3090, 0x3100, by decide, by decide⟩⟩]).1.Pairwise
      fun v w => ∀ a, ¬ (a ∈ v.range ∧ a ∈ w.range) :=
  (@mmio_windows_exclusive .rv64 ⟨0x1200, 0x1300, by decide, by decide⟩
    [⟨0x1000, 0x2000, by decide, by decide⟩] [⟨0x3080, 0x3090, by decide, by decide⟩]
    ⟨[⟨0x1000, 0x1200, by decide, by decide⟩, ⟨0x1300, 0x2000, by decide, by decide⟩]⟩ _
    (by decide) _).1

end RustSbi.Memory
