import RustSbi.Memory.Region

/-!
Validation and allocation of physical address ranges (`memory/registry.rs`,
`memory/supervisor.rs`, `memory/mmio.rs`): RAM and reserved ranges are put into
a normal form, supervisor memory is RAM without the reserved ranges and the
firmware image, and device-register windows are issued outside all of them.
-/

namespace RustSbi.Memory

open HalfOpen PhysAddrRange

variable {xlen : Xlen}

/-! ## Normal form of RAM and reserved ranges

Both loops keep the last normalized range at hand. The list `normalized` holds
it first, so it is the vector of the source in reverse. -/

/-- One iteration of the loop of `normalize_ram_ranges`. -/
def normalizeRamStep (normalized : List (PhysAddrRange xlen)) (range : PhysAddrRange xlen) :
    Result (List (PhysAddrRange xlen)) :=
  match normalized with
  | [] => .ok [range]
  | previous :: rest =>
    if previous.overlaps range then .error .invalidArgs
    else if previous.adjacent range then .ok (previous.join range :: rest)
    else .ok (range :: previous :: rest)

/-- `normalize_ram_ranges`. -/
def normalizeRamRanges (ranges : List (PhysAddrRange xlen)) :
    Result (List (PhysAddrRange xlen)) := do
  let normalized ← (sortByStart ranges).foldlM normalizeRamStep []
  return normalized.reverse

/-- One iteration of the loop of `normalize_reserved_ranges`. -/
def normalizeReservedStep (normalized : List (PhysAddrRange xlen)) (range : PhysAddrRange xlen) :
    List (PhysAddrRange xlen) :=
  match normalized with
  | [] => [range]
  | previous :: rest =>
    if previous.overlaps range || previous.adjacent range then previous.join range :: rest
    else range :: previous :: rest

/-- `normalize_reserved_ranges`. -/
def normalizeReservedRanges (ranges : List (PhysAddrRange xlen)) : List (PhysAddrRange xlen) :=
  ((sortByStart ranges).foldl normalizeReservedStep []).reverse

/-- `validate_memory_ranges`: a reserved range is inside a RAM range or apart from it. -/
def validateMemoryRanges (ramRanges reservedRanges : List (PhysAddrRange xlen)) : Result Unit :=
  if reservedRanges.any fun reserved =>
      ramRanges.any fun ram => ram.overlaps reserved && !ram.contains reserved
  then .error .invalidArgs
  else .ok ()

/-! ## The registry -/

/-- `SupervisorMemory`. -/
structure SupervisorMemory (xlen : Xlen) where
  regions : List (PhysAddrRange xlen)
  deriving DecidableEq, Repr

/-- `SupervisorMemory::check_range`. -/
def SupervisorMemory.checkRange (memory : SupervisorMemory xlen) (range : PhysAddrRange xlen) :
    Result Unit :=
  if memory.regions.any fun available => available.contains range then .ok ()
  else .error .invalidArgs

/-- `MemoryRegistry`. -/
structure MemoryRegistry (xlen : Xlen) where
  firmwareImageRange : PhysAddrRange xlen
  ramRanges : List (PhysAddrRange xlen)
  reservedRanges : List (PhysAddrRange xlen)
  acquiredMmio : List (PhysAddrRange xlen)
  deriving DecidableEq, Repr

namespace MemoryRegistry

/-- `MemoryRegistry::firmware_is_reserved`. -/
def firmwareIsReserved (registry : MemoryRegistry xlen) : Bool :=
  registry.reservedRanges.any fun range => range.contains registry.firmwareImageRange

/-- `MemoryRegistry::derive_supervisor_memory`. -/
def deriveSupervisorMemory (registry : MemoryRegistry xlen) : Result (SupervisorMemory xlen) :=
  if !registry.ramRanges.any fun ram => ram.contains registry.firmwareImageRange then
    .error .invalidArgs
  else
    let excluded := registry.reservedRanges ++ [registry.firmwareImageRange]
    let accessible := registry.ramRanges.flatMap fun ram => ram.excluding excluded
    if accessible.isEmpty then .error .notEnoughResources else .ok ⟨accessible⟩

/-- `MemoryRegistry::from_ranges_with_firmware`. -/
def fromRangesWithFirmware (firmwareImageRange : PhysAddrRange xlen)
    (ram reserved : List (PhysAddrRange xlen)) :
    Result (SupervisorMemory xlen × MemoryRegistry xlen) := do
  let ramRanges ← normalizeRamRanges ram
  let reservedRanges := normalizeReservedRanges reserved
  validateMemoryRanges ramRanges reservedRanges
  let registry : MemoryRegistry xlen := ⟨firmwareImageRange, ramRanges, reservedRanges, []⟩
  let supervisor ← registry.deriveSupervisorMemory
  return (supervisor, registry)

end MemoryRegistry

/-! ## Both loops produce separated ranges -/

/-- What the loops keep of the ranges consumed so far, when the ranges still to
come start at `bound` or later: the normalized ranges are apart, cover the
consumed ones, and the last of them starts no later than `bound`. -/
structure Normalized (acc consumed : List (PhysAddrRange xlen)) (bound : Nat) : Prop where
  apart : Apart acc.reverse
  covered : ∀ a, Covered acc a ↔ Covered consumed a
  start_le : ∀ p ∈ acc, p.start ≤ bound

theorem Normalized.nil (bound : Nat) : Normalized ([] : List (PhysAddrRange xlen)) [] bound :=
  ⟨List.Pairwise.nil, fun _ => Iff.rfl, by simp⟩

theorem Normalized.mono {acc consumed : List (PhysAddrRange xlen)} {b c : Nat}
    (h : Normalized acc consumed b) (hbc : b ≤ c) : Normalized acc consumed c :=
  ⟨h.apart, h.covered, fun p hp => (h.start_le p hp).trans hbc⟩

theorem apart_reverse_cons {p : PhysAddrRange xlen} {l : List (PhysAddrRange xlen)} :
    Apart (p :: l).reverse ↔ Apart l.reverse ∧ ∀ q ∈ l, q.stop < p.start := by
  unfold Apart Separated
  rw [List.reverse_cons, List.pairwise_append]
  simp

/-- The last range is extended by one that touches or overlaps it. -/
theorem Normalized.join {previous range : PhysAddrRange xlen}
    {rest consumed : List (PhysAddrRange xlen)}
    (h : Normalized (previous :: rest) consumed range.start) (ht : range.start ≤ previous.stop) :
    Normalized (previous.join range :: rest) (range :: consumed) range.start := by
  have hs : previous.start ≤ range.start := h.start_le _ (List.mem_cons_self ..)
  have hj : (previous.join range).start = previous.start := by
    simp only [PhysAddrRange.join]
    split <;> omega
  refine ⟨?_, ?_, ?_⟩
  · rw [apart_reverse_cons, hj]
    exact apart_reverse_cons.mp h.apart
  · intro a
    have hc := h.covered a
    have hm := mem_join_of_le hs ht a
    simp only [covers_cons, Set.mem_Ico, ← mem_iff] at hc ⊢
    rw [hm]
    tauto
  · intro p hp
    rcases List.mem_cons.mp hp with rfl | hp
    · exact hj.le.trans hs
    · exact h.start_le p (List.mem_cons_of_mem _ hp)

/-- A range that starts past the last one is appended. -/
theorem Normalized.push {range : PhysAddrRange xlen} {acc consumed : List (PhysAddrRange xlen)}
    (h : Normalized acc consumed range.start) (hlt : ∀ p ∈ acc.head?, p.stop < range.start) :
    Normalized (range :: acc) (range :: consumed) range.start := by
  refine ⟨?_, ?_, ?_⟩
  · rw [apart_reverse_cons]
    refine ⟨h.apart, ?_⟩
    cases acc with
    | nil => simp
    | cons previous rest =>
      have hp : previous.stop < range.start := hlt previous rfl
      intro q hq
      rcases List.mem_cons.mp hq with rfl | hq
      · exact hp
      · have := (apart_reverse_cons.mp h.apart).2 q hq
        have := previous.start_lt_stop
        omega
  · intro a
    simp only [covers_cons, h.covered a]
  · intro p hp
    rcases List.mem_cons.mp hp with rfl | hp
    · exact le_rfl
    · exact h.start_le p hp

/-- Against a range that starts no earlier, the test of the loops asks whether
it starts before or at the end. -/
theorem touches_iff {previous range : PhysAddrRange xlen} (hs : previous.start ≤ range.start) :
    (previous.overlaps range || previous.adjacent range) = true ↔
      range.start ≤ previous.stop := by
  have := range.start_lt_stop
  simp only [overlaps, adjacent, Bool.or_eq_true, Bool.and_eq_true, decide_eq_true_eq, beq_iff_eq]
  omega

theorem normalizeReservedStep_normalized {range : PhysAddrRange xlen}
    {acc consumed : List (PhysAddrRange xlen)} (h : Normalized acc consumed range.start) :
    Normalized (normalizeReservedStep acc range) (range :: consumed) range.start := by
  cases acc with
  | nil => exact h.push (by simp)
  | cons previous rest =>
    have hs : previous.start ≤ range.start := h.start_le _ (List.mem_cons_self ..)
    unfold normalizeReservedStep
    by_cases ht : range.start ≤ previous.stop
    · simp only [if_pos ((touches_iff hs).mpr ht)]
      exact h.join ht
    · simp only [if_neg (mt (touches_iff hs).mp ht)]
      refine h.push fun p hp => ?_
      cases hp
      exact not_le.mp ht

/-- A successful step of the RAM loop is a step of the reserved loop. -/
theorem normalizeRamStep_eq_reserved {range : PhysAddrRange xlen}
    {acc acc' : List (PhysAddrRange xlen)} (h : normalizeRamStep acc range = .ok acc') :
    acc' = normalizeReservedStep acc range := by
  cases acc with
  | nil =>
    simp only [normalizeRamStep, Except.ok.injEq] at h
    exact h.symm
  | cons previous rest =>
    simp only [normalizeRamStep] at h
    simp only [normalizeReservedStep]
    split at h
    · simp at h
    · rename_i ho
      simp only [ho, Bool.false_or]
      split at h <;> simp_all

theorem foldl_normalized (l : List (PhysAddrRange xlen)) (acc consumed : List (PhysAddrRange xlen))
    (hs : l.Pairwise fun p q => p.start ≤ q.start)
    (h : ∀ p ∈ l.head?, Normalized acc consumed p.start) (h₀ : Apart acc.reverse)
    (h₁ : ∀ a, Covered acc a ↔ Covered consumed a) :
    Apart (l.foldl normalizeReservedStep acc).reverse ∧
      ∀ a, Covered (l.foldl normalizeReservedStep acc) a ↔ Covered (l ++ consumed) a := by
  induction l generalizing acc consumed with
  | nil => exact ⟨h₀, h₁⟩
  | cons range l ih =>
    obtain ⟨hr, hs'⟩ := List.pairwise_cons.mp hs
    have hn := normalizeReservedStep_normalized (h range rfl)
    have hnext : ∀ p ∈ l.head?,
        Normalized (normalizeReservedStep acc range) (range :: consumed) p.start := by
      intro p hp
      exact hn.mono (hr p (List.mem_of_mem_head? hp))
    obtain ⟨ha, hc⟩ := ih _ _ hs' hnext hn.apart hn.covered
    refine ⟨ha, fun a => ?_⟩
    rw [List.foldl_cons, hc]
    simp only [covers_append, covers_cons]
    tauto

theorem normalizeReservedRanges_apart (ranges : List (PhysAddrRange xlen)) :
    Apart (normalizeReservedRanges ranges) :=
  (foldl_normalized _ [] [] (sortByStart_sorted ranges) (fun _ _ => Normalized.nil _)
    List.Pairwise.nil fun _ => Iff.rfl).1

theorem covered_normalizeReservedRanges (ranges : List (PhysAddrRange xlen)) (a : Nat) :
    Covered (normalizeReservedRanges ranges) a ↔ Covered ranges a := by
  have h := (foldl_normalized _ [] [] (sortByStart_sorted ranges) (fun _ _ => Normalized.nil _)
    List.Pairwise.nil fun _ => Iff.rfl).2 a
  rw [List.append_nil] at h
  exact (covers_reverse _ a).trans (h.trans (covered_sortByStart ranges a))

theorem foldlM_ram_eq_reserved (l : List (PhysAddrRange xlen))
    (acc acc' : List (PhysAddrRange xlen)) (h : l.foldlM normalizeRamStep acc = .ok acc') :
    acc' = l.foldl normalizeReservedStep acc := by
  induction l generalizing acc with
  | nil =>
    simp only [List.foldlM_nil, pure, Except.pure, Except.ok.injEq] at h
    exact h.symm
  | cons range l ih =>
    rw [List.foldlM_cons] at h
    cases hstep : normalizeRamStep acc range with
    | error e => simp [hstep, bind, Except.bind] at h
    | ok next =>
      rw [hstep] at h
      rw [List.foldl_cons, ← normalizeRamStep_eq_reserved hstep]
      exact ih next h

/-- When RAM is accepted, both normalizations agree on it. -/
theorem normalizeRamRanges_eq_reserved {ranges normalized : List (PhysAddrRange xlen)}
    (h : normalizeRamRanges ranges = .ok normalized) :
    normalized = normalizeReservedRanges ranges := by
  unfold normalizeRamRanges at h
  cases hf : (sortByStart ranges).foldlM normalizeRamStep [] with
  | error e => simp [hf, bind, Except.bind] at h
  | ok acc =>
    simp only [hf, bind, Except.bind, pure, Except.pure, Except.ok.injEq] at h
    rw [← h, foldlM_ram_eq_reserved _ _ _ hf]
    rfl

/-! ## Supervisor memory -/

/-- What a successful registration has established. -/
theorem fromRangesWithFirmware_ok {firmware : PhysAddrRange xlen}
    {ram reserved : List (PhysAddrRange xlen)} {supervisor : SupervisorMemory xlen}
    {registry : MemoryRegistry xlen}
    (h : MemoryRegistry.fromRangesWithFirmware firmware ram reserved = .ok (supervisor, registry)) :
    registry = ⟨firmware, normalizeReservedRanges ram, normalizeReservedRanges reserved, []⟩ ∧
      (∃ p ∈ normalizeReservedRanges ram, p.contains firmware = true) ∧
      supervisor.regions = (normalizeReservedRanges ram).flatMap fun p =>
        p.excluding (normalizeReservedRanges reserved ++ [firmware]) := by
  unfold MemoryRegistry.fromRangesWithFirmware at h
  cases hn : normalizeRamRanges ram with
  | error e => simp [hn, bind, Except.bind] at h
  | ok ramRanges =>
    cases hv : validateMemoryRanges ramRanges (normalizeReservedRanges reserved) with
    | error e => simp [hn, hv, bind, Except.bind] at h
    | ok u =>
      obtain rfl := normalizeRamRanges_eq_reserved hn
      simp only [hn, hv, bind, Except.bind, pure, Except.pure,
        MemoryRegistry.deriveSupervisorMemory] at h
      by_cases hc : (normalizeReservedRanges ram).any (fun p => p.contains firmware) = true
      · rw [hc] at h
        simp only [Bool.not_true, Bool.false_eq_true, if_false] at h
        split at h
        · simp at h
        · rename_i hs
          split at hs
          · simp at hs
          · simp only [Except.ok.injEq] at hs h
            obtain ⟨rfl, rfl⟩ := Prod.mk.inj h
            refine ⟨rfl, List.any_eq_true.mp hc, ?_⟩
            rw [← hs]
      · rw [Bool.not_eq_true] at hc
        simp [hc] at h

/-- Pieces of separated ranges that keep to their own range are separated. -/
theorem flatMap_apart {l : List (PhysAddrRange xlen)}
    {f : PhysAddrRange xlen → List (PhysAddrRange xlen)} (hl : Apart l)
    (hf : ∀ p, Apart (f p)) (hb : ∀ p, ∀ q ∈ f p, p.start ≤ q.start ∧ q.stop ≤ p.stop) :
    Apart (l.flatMap f) := by
  induction l with
  | nil => exact List.Pairwise.nil
  | cons p l ih =>
    obtain ⟨hp, hl'⟩ := List.pairwise_cons.mp hl
    rw [List.flatMap_cons]
    refine List.pairwise_append.mpr ⟨hf p, ih hl', ?_⟩
    intro a ha b hb'
    obtain ⟨q, hq, hbq⟩ := List.mem_flatMap.mp hb'
    have h₁ := (hb p a ha).2
    have h₂ := (hb q b hbq).1
    have h₃ : p.stop < q.start := hp q hq
    omega

section Registration

variable {firmware : PhysAddrRange xlen} {ram reserved : List (PhysAddrRange xlen)}
  {supervisor : SupervisorMemory xlen} {registry : MemoryRegistry xlen}

theorem regions_apart
    (h : MemoryRegistry.fromRangesWithFirmware firmware ram reserved = .ok (supervisor, registry)) :
    Apart supervisor.regions := by
  rw [(fromRangesWithFirmware_ok h).2.2]
  exact flatMap_apart (normalizeReservedRanges_apart ram) (fun p => excluding_apart p _)
    fun p => excluding_bounds p _

/-- The regions cover RAM without the reserved ranges and the firmware image. -/
theorem covered_regions
    (h : MemoryRegistry.fromRangesWithFirmware firmware ram reserved = .ok (supervisor, registry))
    (a : Nat) :
    Covered supervisor.regions a ↔ Covered ram a ∧ ¬ Covered reserved a ∧ a ∉ firmware := by
  have hex : ∀ p : PhysAddrRange xlen,
      Covered (p.excluding (normalizeReservedRanges reserved ++ [firmware])) a ↔
        a ∈ p ∧ ¬ Covered reserved a ∧ a ∉ firmware := by
    intro p
    rw [covered_excluding]
    simp only [covers_append, covers_cons, covers_nil, or_false, Set.mem_Ico, ← mem_iff,
      covered_normalizeReservedRanges, not_or]
  rw [(fromRangesWithFirmware_ok h).2.2, covered_iff]
  constructor
  · rintro ⟨q, hq, ha⟩
    obtain ⟨p, hp, hqp⟩ := List.mem_flatMap.mp hq
    obtain ⟨hap, hrest⟩ := (hex p).mp ⟨q, hqp, ha⟩
    exact ⟨(covered_normalizeReservedRanges ram a).mp ⟨p, hp, hap⟩, hrest⟩
  · rintro ⟨hram, hrest⟩
    obtain ⟨p, hp, hap⟩ := (covered_normalizeReservedRanges ram a).mpr hram
    obtain ⟨q, hq, haq⟩ := (hex p).mpr ⟨hap, hrest⟩
    exact ⟨q, List.mem_flatMap.mpr ⟨p, hp, hq⟩, haq⟩

theorem checkRange_eq_ok_iff (memory : SupervisorMemory xlen) (r : PhysAddrRange xlen) :
    memory.checkRange r = .ok () ↔ ∃ p ∈ memory.regions, p.contains r = true := by
  simp [SupervisorMemory.checkRange]

/-- Supervisor memory is exactly RAM minus reservations minus firmware, stored
as sorted, disjoint, never adjacent regions. -/
theorem supervisor_memory_exact
    (h : MemoryRegistry.fromRangesWithFirmware firmware ram reserved = .ok (supervisor, registry)) :
    (∀ r : PhysAddrRange xlen, supervisor.checkRange r = .ok () ↔
      ∀ a ∈ r, (∃ p ∈ ram, a ∈ p) ∧ (∀ p ∈ reserved, a ∉ p) ∧ a ∉ firmware) ∧
    (∀ p ∈ supervisor.regions, p.start < p.stop) ∧
    supervisor.regions.Pairwise (fun p q => p.start < q.start) ∧
    supervisor.regions.Pairwise (fun p q => ∀ a, ¬ (a ∈ p ∧ a ∈ q)) ∧
    supervisor.regions.Pairwise (fun p q => p.adjacent q = false) := by
  have hapart := regions_apart h
  refine ⟨?_, fun p _ => p.start_lt_stop, ?_, ?_, ?_⟩
  · intro r
    have hpoint : ∀ a, ((∃ p ∈ ram, a ∈ p) ∧ (∀ p ∈ reserved, a ∉ p) ∧ a ∉ firmware) ↔
        Covered supervisor.regions a := by
      intro a
      rw [covered_regions h, covered_iff, covered_iff]
      simp
    simp only [hpoint, checkRange_eq_ok_iff, contains_iff]
    constructor
    · rintro ⟨p, hp, h₁, h₂⟩ a ha
      exact covers_of_contains hp h₁ h₂ a ha
    · intro hr
      exact hapart.exists_contains r.start_lt_stop hr
  · exact hapart.imp fun {p q} hpq => p.start_lt_stop.trans hpq
  · refine hapart.imp fun {p q} hpq a ha => ?_
    have := ha.1.2
    have := ha.2.1
    omega
  · refine hapart.imp fun {p q} hpq => ?_
    have := p.start_lt_stop
    have := q.start_lt_stop
    simp only [adjacent, Bool.or_eq_false_iff, beq_eq_false_iff_ne]
    omega

end Registration

/-- Two touching RAM banks, one reservation across their border, firmware in the
first bank: the registration of a test of the source. -/
theorem supervisor_memory_two_banks :
    let firmware : PhysAddrRange .rv64 := ⟨0x1200, 0x1400, by decide, by decide⟩
    let ram : List (PhysAddrRange .rv64) :=
      [⟨0x1800, 0x2000, by decide, by decide⟩, ⟨0x1000, 0x1800, by decide, by decide⟩]
    let reserved : List (PhysAddrRange .rv64) := [⟨0x1780, 0x1880, by decide, by decide⟩]
    let supervisor : SupervisorMemory .rv64 :=
      ⟨[⟨0x1000, 0x1200, by decide, by decide⟩, ⟨0x1400, 0x1780, by decide, by decide⟩,
        ⟨0x1880, 0x2000, by decide, by decide⟩]⟩
    (MemoryRegistry.fromRangesWithFirmware firmware ram reserved).map Prod.fst = .ok supervisor ∧
    ∀ r : PhysAddrRange .rv64, supervisor.checkRange r = .ok () ↔
      ∀ a ∈ r, (∃ p ∈ ram, a ∈ p) ∧ (∀ p ∈ reserved, a ∉ p) ∧ a ∉ firmware := by
  intro firmware ram reserved supervisor
  have h : MemoryRegistry.fromRangesWithFirmware firmware ram reserved =
      .ok (supervisor, ⟨firmware, [⟨0x1000, 0x2000, by decide, by decide⟩], reserved, []⟩) := by
    decide
  refine ⟨by rw [h]; rfl, (supervisor_memory_exact h).1⟩

end RustSbi.Memory
