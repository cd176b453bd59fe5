import RustSbi.Memory.Registry

/-!
Discovery of memory does not depend on the order in which ranges are found. Every
list that the source sorts is put into a normal form afterwards, and the addresses
that a list covers determine its normal form. `sort_unstable_by_key` may put ranges
with one start in any order, so it is a parameter here: any function that permutes
a list into the order of the starts.
-/

namespace RustSbi.Memory

open HalfOpen PhysAddrRange

variable {xlen : Xlen}

/-- What `sort_unstable_by_key(|range| range.start())` promises. -/
structure SortsByStart (sort : List (PhysAddrRange xlen) → List (PhysAddrRange xlen)) : Prop where
  perm : ∀ l, (sort l).Perm l
  sorted : ∀ l, (sort l).Pairwise fun p q => p.start ≤ q.start

theorem sortsByStart_sortByStart :
    SortsByStart (sortByStart : List (PhysAddrRange xlen) → List (PhysAddrRange xlen)) :=
  ⟨sortByStart_perm, sortByStart_sorted⟩

/-! ## The functions over any such sort -/

section

variable (sort : List (PhysAddrRange xlen) → List (PhysAddrRange xlen))

def PhysAddrRange.excludingBy (r : PhysAddrRange xlen) (excluded : List (PhysAddrRange xlen)) :
    List (PhysAddrRange xlen) :=
  excludingFrom r r.start (sort (excluded.filterMap r.clip))

def normalizeRamRangesBy (ranges : List (PhysAddrRange xlen)) :
    Result (List (PhysAddrRange xlen)) := do
  let normalized ← (sort ranges).foldlM normalizeRamStep []
  return normalized.reverse

def normalizeReservedRangesBy (ranges : List (PhysAddrRange xlen)) : List (PhysAddrRange xlen) :=
  ((sort ranges).foldl normalizeReservedStep []).reverse

def MemoryRegistry.deriveSupervisorMemoryBy (registry : MemoryRegistry xlen) :
    Result (SupervisorMemory xlen) :=
  if !registry.ramRanges.any fun ram => ram.contains registry.firmwareImageRange then
    .error .invalidArgs
  else
    let excluded := registry.reservedRanges ++ [registry.firmwareImageRange]
    let accessible := registry.ramRanges.flatMap fun ram => ram.excludingBy sort excluded
    if accessible.isEmpty then .error .notEnoughResources else .ok ⟨accessible⟩

/-- `MemoryRegistry::from_ranges_with_firmware`. -/
def MemoryRegistry.fromRangesWithFirmwareBy (firmwareImageRange : PhysAddrRange xlen)
    (ram reserved : List (PhysAddrRange xlen)) :
    Result (SupervisorMemory xlen × MemoryRegistry xlen) := do
  let ramRanges ← normalizeRamRangesBy sort ram
  let reservedRanges := normalizeReservedRangesBy sort reserved
  validateMemoryRanges ramRanges reservedRanges
  let registry : MemoryRegistry xlen := ⟨firmwareImageRange, ramRanges, reservedRanges, []⟩
  let supervisor ← registry.deriveSupervisorMemoryBy sort
  return (supervisor, registry)

end

/-- At the sort of the model they are the functions of the model. -/
theorem fromRangesWithFirmwareBy_sortByStart (firmware : PhysAddrRange xlen)
    (ram reserved : List (PhysAddrRange xlen)) :
    MemoryRegistry.fromRangesWithFirmwareBy sortByStart firmware ram reserved =
      MemoryRegistry.fromRangesWithFirmware firmware ram reserved := rfl

/-! ## Normal forms -/

/-- The addresses that ranges with gaps between them cover determine the ranges. -/
theorem Apart.eq_of_covered {l m : List (PhysAddrRange xlen)} (hl : Apart l) (hm : Apart m)
    (h : ∀ a, Covered l a ↔ Covered m a) : l = m :=
  hl.eq_of_covers hm start_lt_stop (fun _ _ => PhysAddrRange.ext) h

section

variable {sort : List (PhysAddrRange xlen) → List (PhysAddrRange xlen)} (hsort : SortsByStart sort)

include hsort

theorem excludingBy_eq (r : PhysAddrRange xlen) (excluded : List (PhysAddrRange xlen)) :
    r.excludingBy sort excluded = r.excluding excluded := by
  have hstop : ∀ q ∈ sort (excluded.filterMap r.clip), q.stop ≤ r.stop := by
    intro q hq
    rw [(hsort.perm _).mem_iff] at hq
    obtain ⟨p, -, hp⟩ := List.mem_filterMap.mp hq
    exact stop_le_of_clip hp
  refine Apart.eq_of_covered (excludingFrom_apart r _ _ hstop) (excluding_apart r excluded) ?_
  intro a
  have hcovered : Covered (sort (excluded.filterMap r.clip)) a ↔ a ∈ r ∧ Covered excluded a :=
    (covers_of_perm (hsort.perm _) a).trans (covered_filterMap_clip r excluded a)
  rw [excludingBy, covered_excludingFrom r _ _ (hsort.sorted _) hstop, covered_excluding, hcovered,
    ← mem_iff]
  tauto

theorem normalizeReservedRangesBy_eq {ranges ranges' : List (PhysAddrRange xlen)}
    (h : ranges.Perm ranges') :
    normalizeReservedRangesBy sort ranges = normalizeReservedRanges ranges' := by
  obtain ⟨hapart, hcovered⟩ := foldl_normalized _ [] [] (hsort.sorted ranges)
    (fun _ _ => Normalized.nil _) List.Pairwise.nil fun _ => Iff.rfl
  refine Apart.eq_of_covered hapart (normalizeReservedRanges_apart ranges') ?_
  intro a
  rw [covered_normalizeReservedRanges]
  refine (covers_reverse _ a).trans ((hcovered a).trans ?_)
  rw [List.append_nil]
  exact covers_of_perm ((hsort.perm ranges).trans h) a

end

/-! ## RAM that overlaps -/

/-- A range that starts no earlier than those consumed overlaps one of them if and only if it
overlaps the last normalized one. -/
theorem normalizeRamStep_eq {range : PhysAddrRange xlen} {acc consumed : List (PhysAddrRange xlen)}
    (h : Normalized acc consumed range.start) :
    normalizeRamStep acc range =
      if ∀ q ∈ consumed, q.overlaps range = false then .ok (normalizeReservedStep acc range)
      else .error .invalidArgs := by
  cases acc with
  | nil =>
    have hnone : ∀ q ∈ consumed, q.overlaps range = false := by
      intro q hq
      have hcovered := (h.covered q.start).mpr ⟨q, hq, le_rfl, q.start_lt_stop⟩
      exact absurd hcovered (covers_nil _)
    rw [if_pos hnone]
    rfl
  | cons previous rest =>
    have hs : previous.start ≤ range.start := h.start_le _ List.mem_cons_self
    have hoverlaps : previous.overlaps range = false ↔ ∀ q ∈ consumed, q.overlaps range = false := by
      simp only [← Bool.not_eq_true, overlaps_iff_exists]
      constructor
      · rintro hprevious q hq ⟨a, haq, har⟩
        obtain ⟨p, hp, hap⟩ := (h.covered a).mpr ⟨q, hq, haq⟩
        rcases List.mem_cons.mp hp with rfl | hp
        · exact hprevious ⟨a, hap, har⟩
        · -- An earlier range ends before the last one starts.
          have hbefore : p.stop < previous.start := (apart_reverse_cons.mp h.apart).2 p hp
          have hstop : a < p.stop := hap.2
          have hstart : range.start ≤ a := har.1
          omega
      · rintro hconsumed ⟨a, hap, har⟩
        obtain ⟨q, hq, haq⟩ := (h.covered a).mp ⟨previous, List.mem_cons_self, hap⟩
        exact hconsumed q hq ⟨a, haq, har⟩
    simp only [normalizeRamStep, normalizeReservedStep, ← hoverlaps]
    cases previous.overlaps range with
    | true => simp
    | false =>
      simp only [Bool.false_eq_true, if_false, Bool.false_or, if_true]
      split <;> rfl

theorem foldlM_ram_eq (l acc consumed : List (PhysAddrRange xlen))
    (hs : l.Pairwise fun p q => p.start ≤ q.start)
    (h : ∀ p ∈ l.head?, Normalized acc consumed p.start) :
    l.foldlM normalizeRamStep acc =
      if (∀ p ∈ l, ∀ q ∈ consumed, q.overlaps p = false) ∧ l.Pairwise (fun p q => p.overlaps q = false)
      then .ok (l.foldl normalizeReservedStep acc) else .error .invalidArgs := by
  induction l generalizing acc consumed with
  | nil => simp [pure, Except.pure]
  | cons range l ih =>
    obtain ⟨hr, hs'⟩ := List.pairwise_cons.mp hs
    have hfirst := h range rfl
    rw [List.foldlM_cons, normalizeRamStep_eq hfirst]
    by_cases hfree : ∀ q ∈ consumed, q.overlaps range = false
    · have hnext : ∀ p ∈ l.head?,
          Normalized (normalizeReservedStep acc range) (range :: consumed) p.start := by
        intro p hp
        exact (normalizeReservedStep_normalized hfirst).mono (hr p (List.mem_of_mem_head? hp))
      rw [if_pos hfree]
      refine (ih _ _ hs' hnext).trans ?_
      congr 1
      simp only [List.forall_mem_cons, List.pairwise_cons, eq_iff_iff]
      constructor
      · rintro ⟨hall, hpair⟩
        exact ⟨⟨hfree, fun p hp => (hall p hp).2⟩, fun p hp => (hall p hp).1, hpair⟩
      · rintro ⟨⟨-, hconsumed⟩, hrange, hpair⟩
        exact ⟨fun p hp => ⟨hrange p hp, hconsumed p hp⟩, hpair⟩
    · rw [if_neg hfree, if_neg fun hall => hfree (hall.1 range List.mem_cons_self)]
      rfl

theorem overlaps_comm (p q : PhysAddrRange xlen) : p.overlaps q = q.overlaps p := by
  rw [overlaps, overlaps, Bool.and_comm]

section

variable {sort sort' : List (PhysAddrRange xlen) → List (PhysAddrRange xlen)}

/-- RAM is accepted if and only if no two of its ranges overlap. -/
theorem normalizeRamRangesBy_eq (hsort : SortsByStart sort) (ranges : List (PhysAddrRange xlen)) :
    normalizeRamRangesBy sort ranges =
      if ranges.Pairwise (fun p q => p.overlaps q = false) then .ok (normalizeReservedRanges ranges)
      else .error .invalidArgs := by
  have hpair : (sort ranges).Pairwise (fun p q => p.overlaps q = false) ↔
      ranges.Pairwise (fun p q => p.overlaps q = false) :=
    (hsort.perm ranges).pairwise_iff fun hpq => (overlaps_comm _ _).trans hpq
  rw [normalizeRamRangesBy, foldlM_ram_eq _ [] [] (hsort.sorted ranges)
    fun _ _ => Normalized.nil _]
  simp only [List.not_mem_nil, false_implies, implies_true, true_and, hpair]
  split
  · exact congrArg Except.ok (normalizeReservedRangesBy_eq hsort (List.Perm.refl ranges))
  · rfl

theorem deriveSupervisorMemoryBy_eq (hsort : SortsByStart sort) (registry : MemoryRegistry xlen) :
    registry.deriveSupervisorMemoryBy sort = registry.deriveSupervisorMemory := by
  simp only [MemoryRegistry.deriveSupervisorMemoryBy, MemoryRegistry.deriveSupervisorMemory,
    excludingBy_eq hsort]

/-- Two runs over the same ranges in other orders, with ties sorted in any way, have the same
outcome: the same error, or the same supervisor memory and registry. -/
theorem discovery_order_free (hsort : SortsByStart sort) (hsort' : SortsByStart sort')
    (firmware : PhysAddrRange xlen) {ram ram' reserved reserved' : List (PhysAddrRange xlen)}
    (hram : ram.Perm ram') (hreserved : reserved.Perm reserved') :
    MemoryRegistry.fromRangesWithFirmwareBy sort firmware ram reserved =
      MemoryRegistry.fromRangesWithFirmwareBy sort' firmware ram' reserved' := by
  have hpair : ram.Pairwise (fun p q => p.overlaps q = false) ↔
      ram'.Pairwise (fun p q => p.overlaps q = false) :=
    hram.pairwise_iff fun hpq => (overlaps_comm _ _).trans hpq
  have hnormal : normalizeReservedRanges ram = normalizeReservedRanges ram' :=
    normalizeReservedRangesBy_eq sortsByStart_sortByStart hram
  simp only [MemoryRegistry.fromRangesWithFirmwareBy, normalizeRamRangesBy_eq hsort,
    normalizeRamRangesBy_eq hsort', hpair, hnormal, deriveSupervisorMemoryBy_eq hsort,
    deriveSupervisorMemoryBy_eq hsort', normalizeReservedRangesBy_eq hsort hreserved,
    normalizeReservedRangesBy_eq hsort' (List.Perm.refl reserved')]

end

/-- Ranges listed backwards and a sort that puts ties the other way round. -/
theorem discovery_order_free_two_banks :
    let firmware : PhysAddrRange .rv64 := ⟨0x1200, 0x1400, by decide, by decide⟩
    let ram : List (PhysAddrRange .rv64) :=
      [⟨0x1800, 0x2000, by decide, by decide⟩, ⟨0x1000, 0x1800, by decide, by decide⟩]
    let reserved : List (PhysAddrRange .rv64) :=
      [⟨0x1780, 0x1800, by decide, by decide⟩, ⟨0x1780, 0x1880, by decide, by decide⟩]
    MemoryRegistry.fromRangesWithFirmwareBy sortByStart firmware ram reserved =
        MemoryRegistry.fromRangesWithFirmwareBy (fun l => sortByStart l.reverse) firmware
          ram.reverse reserved.reverse ∧
      (MemoryRegistry.fromRangesWithFirmwareBy sortByStart firmware ram reserved).isOk = true := by
  intro firmware ram reserved
  have hsort' : SortsByStart fun l : List (PhysAddrRange .rv64) => sortByStart l.reverse :=
    ⟨fun l => (sortByStart_perm _).trans l.reverse_perm, fun l => sortByStart_sorted _⟩
  exact ⟨discovery_order_free sortsByStart_sortByStart hsort' firmware ram.reverse_perm.symm
    reserved.reverse_perm.symm, by decide⟩

end RustSbi.Memory
