import RustSbi.Memory.Order

/-!
Which platform descriptions a registration accepts. Reserved ranges that touch are merged
before they are compared with RAM, so ranges that are in RAM or apart from it one by one can
be refused together: this happens exactly when two of them touch at an edge of RAM.
-/

namespace RustSbi.Memory

open HalfOpen PhysAddrRange

variable {xlen : Xlen} {firmware p : PhysAddrRange xlen} {ranges ram reserved : List (PhysAddrRange xlen)}

/-! ## Maximal ranges -/

/-- A maximal range of the addresses that a list covers. -/
structure IsMaximal (ranges : List (PhysAddrRange xlen)) (p : PhysAddrRange xlen) : Prop where
  covered : ∀ a ∈ p, Covered ranges a
  maximal : ∀ q : PhysAddrRange xlen, q.contains p = true → (∀ a ∈ q, Covered ranges a) → q = p

theorem mem_normalizeReservedRanges_iff (ranges : List (PhysAddrRange xlen)) :
    p ∈ normalizeReservedRanges ranges ↔ IsMaximal ranges p := by
  have hapart := normalizeReservedRanges_apart ranges
  have hcovered := covered_normalizeReservedRanges ranges
  constructor
  · intro hp
    refine ⟨fun a ha => (hcovered a).mp ⟨p, hp, ha⟩, fun q hqp hq => ?_⟩
    obtain ⟨r, hr, hrstart, hrstop⟩ := hapart.exists_contains q.start_lt_stop
      fun a ha => (hcovered a).mpr (hq a ha)
    obtain ⟨hqstart, hqstop⟩ := (contains_iff q p).mp hqp
    have hlt := p.start_lt_stop
    rcases hapart.trichotomy hp hr with rfl | hbefore | hafter
    · exact PhysAddrRange.ext (le_antisymm hqstart hrstart) (le_antisymm hrstop hqstop)
    · omega
    · omega
  · rintro ⟨hp, hmaximal⟩
    obtain ⟨r, hr, hstart, hstop⟩ := hapart.exists_contains p.start_lt_stop
      fun a ha => (hcovered a).mpr (hp a ha)
    have hsame : r = p := hmaximal r ((contains_iff r p).mpr ⟨hstart, hstop⟩)
      fun a ha => (hcovered a).mp ⟨r, hr, ha⟩
    exact hsame ▸ hr

theorem isMaximal_singleton {q : PhysAddrRange xlen} : IsMaximal [p] q ↔ q = p := by
  rw [← mem_normalizeReservedRanges_iff]
  exact List.mem_singleton

/-! ## Reservations across an edge -/

/-- The addresses on both sides of an edge are reserved. -/
def ReservedAcross (reserved : List (PhysAddrRange xlen)) (edge : Nat) : Prop :=
  ∃ a, a + 1 = edge ∧ Covered reserved a ∧ Covered reserved edge

/-- A merged reserved range is neither in a range of RAM nor apart from it if and only if it goes
across one of its edges. -/
theorem merged_straddles_iff :
    (∃ q ∈ normalizeReservedRanges reserved, p.overlaps q = true ∧ p.contains q = false) ↔
      ReservedAcross reserved p.start ∨ ReservedAcross reserved p.stop := by
  have hapart := normalizeReservedRanges_apart reserved
  have hcovered := covered_normalizeReservedRanges reserved
  have hp := p.start_lt_stop
  constructor
  · rintro ⟨q, hq, hoverlaps, hnot⟩
    have hin : ∀ a, q.start ≤ a → a < q.stop → Covered reserved a :=
      fun a hstart hstop => (hcovered a).mp ⟨q, hq, hstart, hstop⟩
    simp only [overlaps, contains, Bool.and_eq_true, Bool.and_eq_false_iff, decide_eq_true_eq,
      decide_eq_false_iff_not, not_le] at hoverlaps hnot
    rcases hnot with hstart | hstop
    · exact .inl ⟨p.start - 1, by omega, hin _ (by omega) (by omega), hin _ (by omega) (by omega)⟩
    · exact .inr ⟨p.stop - 1, by omega, hin _ (by omega) (by omega), hin _ (by omega) (by omega)⟩
  · intro hacross
    obtain ⟨edge, hedge, a, ha, hbelow, habove⟩ :
        ∃ edge, (edge = p.start ∨ edge = p.stop) ∧ ReservedAcross reserved edge :=
      hacross.elim (fun h => ⟨_, .inl rfl, h⟩) fun h => ⟨_, .inr rfl, h⟩
    obtain ⟨q, hq, hstart, hstop⟩ := hapart.exists_contains (Nat.lt_add_of_pos_right (n := a) two_pos)
      fun b hb => (hcovered b).mpr (by
        obtain rfl | rfl : b = a ∨ b = edge := by
          have := hb.1
          have := hb.2
          omega
        · exact hbelow
        · exact habove)
    refine ⟨q, hq, ?_⟩
    simp only [overlaps, contains, Bool.and_eq_true, Bool.and_eq_false_iff, decide_eq_true_eq,
      decide_eq_false_iff_not, not_le]
    omega

/-- When every reserved range is in a range of RAM or apart from it, the reservations go across an
edge of that range if and only if one ends and another begins there. -/
theorem reservedAcross_iff_touch
    (hjudged : ∀ r ∈ reserved, p.contains r = true ∨ p.overlaps r = false) {edge : Nat}
    (hedge : edge = p.start ∨ edge = p.stop) :
    ReservedAcross reserved edge ↔
      ∃ r ∈ reserved, ∃ r' ∈ reserved, r.stop = edge ∧ r'.start = edge := by
  have hp := p.start_lt_stop
  have hside : ∀ r ∈ reserved, (p.start ≤ r.start ∧ r.stop ≤ p.stop) ∨ r.stop ≤ p.start ∨
      p.stop ≤ r.start := by
    intro r hr
    refine (hjudged r hr).imp (contains_iff p r).mp fun hapart => ?_
    simp only [overlaps, Bool.and_eq_false_iff, decide_eq_false_iff_not] at hapart
    omega
  constructor
  · rintro ⟨a, ha, ⟨r, hr, hrstart, hrstop⟩, ⟨r', hr', hrstart', hrstop'⟩⟩
    have hbelow := hside r hr
    have habove := hside r' hr'
    exact ⟨r, hr, r', hr', by omega, by omega⟩
  · rintro ⟨r, hr, r', hr', rfl, hstart⟩
    have hlt := r.start_lt_stop
    have hlt' := r'.start_lt_stop
    exact ⟨r.stop - 1, by omega, ⟨r, hr, by omega, by omega⟩, r', hr', by omega, by omega⟩

/-! ## Acceptance -/

theorem isOk_iff {α : Type} {x : Result α} : x.isOk = true ↔ ∃ a, x = .ok a := by
  cases x with
  | error e => exact iff_of_false Bool.false_ne_true fun ⟨_, h⟩ => nomatch h
  | ok a => exact iff_of_true rfl ⟨a, rfl⟩

theorem isOk_bind_iff {α β : Type} {x : Result α} {f : α → Result β} :
    (x >>= f).isOk = true ↔ ∃ a, x = .ok a ∧ (f a).isOk = true := by
  cases x with
  | error e => exact iff_of_false Bool.false_ne_true fun ⟨_, h, _⟩ => nomatch h
  | ok a => exact ⟨fun h => ⟨a, rfl, h⟩, fun ⟨_, h, hf⟩ => by cases h; exact hf⟩

theorem validateMemoryRanges_eq_ok_iff :
    validateMemoryRanges ram reserved = .ok () ↔
      ∀ p ∈ ram, ∀ q ∈ reserved, p.overlaps q = true → p.contains q = true := by
  simp only [validateMemoryRanges, ite_eq_right_iff, reduceCtorEq, imp_false, Bool.not_eq_true,
    List.any_eq_false, Bool.and_eq_true, Bool.not_eq_true', not_and, Bool.not_eq_false]
  exact ⟨fun h p hp q hq => h q hq p hp, fun h q hq p hp => h p hp q hq⟩

theorem deriveSupervisorMemory_isOk_iff (registry : MemoryRegistry xlen) :
    registry.deriveSupervisorMemory.isOk = true ↔
      (∃ p ∈ registry.ramRanges, p.contains registry.firmwareImageRange = true) ∧
      ∃ a, Covered registry.ramRanges a ∧ ¬ Covered registry.reservedRanges a ∧
        a ∉ registry.firmwareImageRange := by
  have hleft : (∃ a, Covered registry.ramRanges a ∧ ¬ Covered registry.reservedRanges a ∧
        a ∉ registry.firmwareImageRange) ↔
      ∃ p ∈ registry.ramRanges, ∃ q,
        q ∈ p.excluding (registry.reservedRanges ++ [registry.firmwareImageRange]) := by
    have hexcluded : ∀ p : PhysAddrRange xlen, ∀ a,
        Covered (p.excluding (registry.reservedRanges ++ [registry.firmwareImageRange])) a ↔
          a ∈ p ∧ ¬ Covered registry.reservedRanges a ∧ a ∉ registry.firmwareImageRange := by
      intro p a
      rw [covered_excluding]
      simp only [covers_append, covers_cons, covers_nil, or_false, Set.mem_Ico, ← mem_iff, not_or]
    constructor
    · rintro ⟨a, ⟨p, hp, ha⟩, hrest⟩
      obtain ⟨q, hq, -⟩ := (hexcluded p a).mpr ⟨ha, hrest⟩
      exact ⟨p, hp, q, hq⟩
    · rintro ⟨p, hp, q, hq⟩
      obtain ⟨ha, hrest⟩ := (hexcluded p q.start).mp ⟨q, hq, le_rfl, q.start_lt_stop⟩
      exact ⟨q.start, ⟨p, hp, ha⟩, hrest⟩
  unfold MemoryRegistry.deriveSupervisorMemory
  by_cases hfirmware : ∃ p ∈ registry.ramRanges, p.contains registry.firmwareImageRange = true
  · have hany := List.any_eq_true.mpr hfirmware
    simp only [hany, Bool.not_true, Bool.false_eq_true, if_false, hleft, hfirmware, true_and]
    split
    next hempty =>
      rw [List.isEmpty_iff, List.flatMap_eq_nil_iff] at hempty
      refine iff_of_false Bool.false_ne_true ?_
      rintro ⟨p, hp, q, hq⟩
      rw [hempty p hp] at hq
      exact List.not_mem_nil hq
    next hfull =>
      refine iff_of_true rfl ?_
      obtain ⟨q, hq⟩ := List.exists_mem_of_ne_nil _ (mt List.isEmpty_iff.mpr hfull)
      obtain ⟨p, hp, hqp⟩ := List.mem_flatMap.mp hq
      exact ⟨p, hp, q, hqp⟩
  · have hany : (registry.ramRanges.any fun ram => ram.contains registry.firmwareImageRange) = false :=
      Bool.eq_false_iff.mpr (mt List.any_eq_true.mp hfirmware)
    simp only [hany, Bool.not_false, if_true]
    exact iff_of_false Bool.false_ne_true fun h => hfirmware h.1

/-- A registration succeeds if and only if RAM has no overlaps, every merged reserved range is in a
merged range of RAM or apart from it, the firmware is in one, and some of RAM is left. -/
theorem fromRangesWithFirmware_isOk_iff :
    (MemoryRegistry.fromRangesWithFirmware firmware ram reserved).isOk = true ↔
      ram.Pairwise (fun p q => p.overlaps q = false) ∧
      (∀ p ∈ normalizeReservedRanges ram, ∀ q ∈ normalizeReservedRanges reserved,
        p.overlaps q = true → p.contains q = true) ∧
      (∃ p ∈ normalizeReservedRanges ram, p.contains firmware = true) ∧
      ∃ a, Covered ram a ∧ ¬ Covered reserved a ∧ a ∉ firmware := by
  have hnormal : normalizeRamRanges ram = _ := normalizeRamRangesBy_eq sortsByStart_sortByStart ram
  have hderive := deriveSupervisorMemory_isOk_iff
    ⟨firmware, normalizeReservedRanges ram, normalizeReservedRanges reserved, []⟩
  simp only [covered_normalizeReservedRanges] at hderive
  unfold MemoryRegistry.fromRangesWithFirmware
  simp only [isOk_bind_iff, ← validateMemoryRanges_eq_ok_iff, ← hderive]
  by_cases hram : ram.Pairwise fun p q => p.overlaps q = false
  · rw [if_pos hram] at hnormal
    simp only [hnormal, hram, Except.ok.injEq, exists_eq_left', true_and]
    constructor
    · rintro ⟨_, hvalid, supervisor, hsupervisor, -⟩
      exact ⟨hvalid, isOk_iff.mpr ⟨supervisor, hsupervisor⟩⟩
    · rintro ⟨hvalid, hok⟩
      obtain ⟨supervisor, hsupervisor⟩ := isOk_iff.mp hok
      exact ⟨⟨⟩, hvalid, supervisor, hsupervisor, rfl⟩
  · rw [if_neg hram] at hnormal
    simp only [hnormal, hram, reduceCtorEq, false_and, exists_false]

/-- Ranges that are in RAM or apart from it one by one are accepted exactly when no two reserved
ranges touch at an edge of a maximal range of RAM. -/
theorem registration_accepts_iff (hram : ram.Pairwise fun p q => p.overlaps q = false)
    (hreserved : ∀ r ∈ reserved, ∀ p, IsMaximal ram p →
      p.contains r = true ∨ p.overlaps r = false)
    (hfirmware : ∃ p, IsMaximal ram p ∧ p.contains firmware = true)
    (hleft : ∃ a, Covered ram a ∧ ¬ Covered reserved a ∧ a ∉ firmware) :
    (MemoryRegistry.fromRangesWithFirmware firmware ram reserved).isOk = true ↔
      ∀ p, IsMaximal ram p → ∀ r ∈ reserved, ∀ r' ∈ reserved, r.stop = r'.start →
        r.stop ≠ p.start ∧ r.stop ≠ p.stop := by
  rw [fromRangesWithFirmware_isOk_iff]
  simp only [mem_normalizeReservedRanges_iff ram, hram, hfirmware, hleft, true_and,
    and_true]
  refine forall₂_congr fun p hp => ?_
  have hjudged : ∀ r ∈ reserved, p.contains r = true ∨ p.overlaps r = false :=
    fun r hr => hreserved r hr p hp
  have hmerged : (∀ q ∈ normalizeReservedRanges reserved,
      p.overlaps q = true → p.contains q = true) ↔
      ¬ (ReservedAcross reserved p.start ∨ ReservedAcross reserved p.stop) := by
    rw [← merged_straddles_iff]
    simp only [not_exists, not_and, Bool.not_eq_false]
  rw [hmerged, reservedAcross_iff_touch hjudged (.inl rfl),
    reservedAcross_iff_touch hjudged (.inr rfl)]
  constructor
  · intro hnot r hr r' hr' htouch
    exact ⟨fun hstart => hnot (.inl ⟨r, hr, r', hr', hstart, htouch ▸ hstart⟩),
      fun hstop => hnot (.inr ⟨r, hr, r', hr', hstop, htouch ▸ hstop⟩)⟩
  · rintro hfree (⟨r, hr, r', hr', hstop, hstart⟩ | ⟨r, hr, r', hr', hstop, hstart⟩)
    · exact (hfree r hr r' hr' (hstop.trans hstart.symm)).1 hstop
    · exact (hfree r hr r' hr' (hstop.trans hstart.symm)).2 hstop

/-! ## A board with one range of RAM -/

def boardRam : PhysAddrRange .rv64 := ⟨0x1000, 0x3000, by decide, by decide⟩

def boardFirmware : PhysAddrRange .rv64 := ⟨0x1200, 0x1400, by decide, by decide⟩

/-- Reservations that touch inside of RAM. -/
def innerReserved : List (PhysAddrRange .rv64) :=
  [⟨0x2e00, 0x2f00, by decide, by decide⟩, ⟨0x2f00, 0x3000, by decide, by decide⟩]

/-- Reservations on both sides of the end of RAM. -/
def boardReserved : List (PhysAddrRange .rv64) :=
  [⟨0x2f00, 0x3000, by decide, by decide⟩, ⟨0x3000, 0x3100, by decide, by decide⟩]

section Board

variable {reserved : List (PhysAddrRange .rv64)}

theorem board_judged
    (h : ∀ r ∈ reserved, boardRam.contains r = true ∨ boardRam.overlaps r = false) :
    ∀ r ∈ reserved, ∀ p, IsMaximal [boardRam] p → p.contains r = true ∨ p.overlaps r = false := by
  intro r hr p hp
  rw [isMaximal_singleton] at hp
  subst hp
  exact h r hr

/-- The first byte of RAM is left to the supervisor. -/
theorem board_left (h : ∀ r ∈ reserved, 0x1000 < r.start) :
    ∃ a, Covered [boardRam] a ∧ ¬ Covered reserved a ∧ a ∉ boardFirmware := by
  refine ⟨0x1000, ⟨boardRam, List.mem_singleton_self _, by decide, by decide⟩, ?_, by decide⟩
  rintro ⟨r, hr, hstart, -⟩
  exact absurd (h r hr) (not_lt.mpr hstart)

end Board

theorem registration_accepts_iff_board :
    (MemoryRegistry.fromRangesWithFirmware boardFirmware [boardRam] innerReserved).isOk = true := by
  refine (registration_accepts_iff (List.pairwise_singleton _ _) (board_judged (by decide))
    ⟨boardRam, isMaximal_singleton.mpr rfl, by decide⟩ (board_left (by decide))).mpr ?_
  intro p hp
  rw [isMaximal_singleton] at hp
  subst hp
  decide

/-- The board is refused with reservations that touch at the end of its RAM. -/
theorem touching_reservations_refused :
    ¬ ∀ (firmware : PhysAddrRange .rv64) (ram reserved : List (PhysAddrRange .rv64)),
      ram.Pairwise (fun p q => p.overlaps q = false) →
      (∀ r ∈ reserved, ∀ p, IsMaximal ram p → p.contains r = true ∨ p.overlaps r = false) →
      (∃ p, IsMaximal ram p ∧ p.contains firmware = true) →
      (∃ a, Covered ram a ∧ ¬ Covered reserved a ∧ a ∉ firmware) →
      (MemoryRegistry.fromRangesWithFirmware firmware ram reserved).isOk = true := by
  intro haccepts
  have hok := haccepts boardFirmware [boardRam] boardReserved (List.pairwise_singleton _ _)
    (board_judged (by decide)) ⟨boardRam, isMaximal_singleton.mpr rfl, by decide⟩
    (board_left (by decide))
  revert hok
  decide

end RustSbi.Memory
