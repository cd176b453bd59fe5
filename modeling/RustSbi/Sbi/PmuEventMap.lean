import RustSbi.Lib.FirstMatch
import RustSbi.Sbi.Pmu

/-!
Filling the event maps from the device tree: a row goes in unless it overlaps
a row that is there. Two event ranges overlap when they share an event, but the
test for raw events only finds rows with the same selector and mask.
-/

namespace RustSbi.Pmu

open Bits Checked FirstMatch

variable {xlen : Xlen}

/-- `EventToCounterMap::is_overlap`. -/
def EventToCounterMap.isOverlap (row other : EventToCounterMap) : Bool :=
  if (row.eventEndIdx < other.eventStartIdx ∧ row.eventEndIdx < other.eventEndIdx) ∨
      (row.eventStartIdx > other.eventStartIdx ∧ row.eventStartIdx > other.eventEndIdx) then false
  else true

/-- `RawEventToCounterMap::is_overlap`. -/
def RawEventToCounterMap.isOverlap (row other : RawEventToCounterMap) : Bool :=
  row.selectMask == other.selectMask && row.rawEventSelect == other.rawEventSelect

namespace SbiPmu

/-- `SbiPmu::default`. -/
def default : SbiPmu := ⟨none, none, none⟩

/-- `SbiPmu::insert_event_to_mhpmevent`: the first mapping of an event stays. -/
def insertEventToMhpmevent (sbiPmu : SbiPmu) (event : Nat) (mhpmevent : BitVec 64) : SbiPmu :=
  let map := sbiPmu.eventToMhpmevent.getD []
  { sbiPmu with
    eventToMhpmevent := some (if (map.lookup event).isSome then map else map ++ [(event, mhpmevent)]) }

/-- `SbiPmu::insert_event_to_mhpmcounter`. -/
def insertEventToMhpmcounter (sbiPmu : SbiPmu) (eventToCounter : EventToCounterMap) : SbiPmu :=
  { sbiPmu with
    eventToMhpmcounter := some (insertDisjoint EventToCounterMap.isOverlap
      (sbiPmu.eventToMhpmcounter.getD []) eventToCounter) }

/-- `SbiPmu::insert_raw_event_to_mhpmcounter`. -/
def insertRawEventToMhpmcounter (sbiPmu : SbiPmu) (rawEventToCounter : RawEventToCounterMap) :
    SbiPmu :=
  { sbiPmu with
    rawEventToMhpmcounter := some (insertDisjoint RawEventToCounterMap.isOverlap
      (sbiPmu.rawEventToMhpmcounter.getD []) rawEventToCounter) }

end SbiPmu

/-- A row of one of the three device-tree properties. -/
inductive Row
  | mhpmevent (event : Nat) (value : BitVec 64)
  | counters (row : EventToCounterMap)
  | rawCounters (row : RawEventToCounterMap)
  deriving DecidableEq, Repr

namespace SbiPmu

def insert (sbiPmu : SbiPmu) : Row → SbiPmu
  | .mhpmevent event value => sbiPmu.insertEventToMhpmevent event value
  | .counters row => sbiPmu.insertEventToMhpmcounter row
  | .rawCounters row => sbiPmu.insertRawEventToMhpmcounter row

/-- The maps after a sequence of rows. -/
def insertAll (sbiPmu : SbiPmu) (rows : List Row) : SbiPmu := rows.foldl insert sbiPmu

/-- The same rows, stored in another order. -/
structure SameRows (sbiPmu stored : SbiPmu) : Prop where
  mhpmevent : stored.eventToMhpmevent = sbiPmu.eventToMhpmevent
  counters : Option.Rel List.Perm sbiPmu.eventToMhpmcounter stored.eventToMhpmcounter
  rawCounters : Option.Rel List.Perm sbiPmu.rawEventToMhpmcounter stored.rawEventToMhpmcounter

/-- No event matches two rows of a map, and the search for a counter does not
see the order of the rows. -/
structure RowOrderFree (sbiPmu : SbiPmu) : Prop where
  counters : ∀ rows, sbiPmu.eventToMhpmcounter = some rows →
    AtMostOne EventToCounterMap.haveEvent rows
  rawCounters : ∀ rows, sbiPmu.rawEventToMhpmcounter = some rows →
    AtMostOne RawEventToCounterMap.haveEvent rows
  search : ∀ stored, sbiPmu.SameRows stored → ∀ {xlen : Xlen} (features : HartFeatures)
    (pmu : PmuState xlen) (counters : CounterMask xlen) (eventIdx : Nat) (eventData : BitVec 64),
    findHardwareCounter features stored pmu counters eventIdx eventData =
      findHardwareCounter features sbiPmu pmu counters eventIdx eventData

end SbiPmu

/-! ## The overlap tests -/

/-- Ranges that share an event overlap, whichever way round their ends are given. -/
theorem EventToCounterMap.not_conflict {row other : EventToCounterMap}
    (h : row.isOverlap other = false) : ¬ Conflict haveEvent row other := by
  rintro ⟨e, hrow, hother⟩
  simp only [haveEvent, Bool.and_eq_true, decide_eq_true_eq] at hrow hother
  simp only [isOverlap, ite_eq_left_iff, reduceCtorEq, imp_false, not_not] at h
  omega

namespace RawEventToCounterMap

/-- Neither row selects a bit outside its mask, and they agree on the bits of both masks. -/
def Compatible (row other : RawEventToCounterMap) : Prop :=
  row.rawEventSelect &&& ~~~row.selectMask = 0#64 ∧
  other.rawEventSelect &&& ~~~other.selectMask = 0#64 ∧
  (row.rawEventSelect ^^^ other.rawEventSelect) &&& (row.selectMask &&& other.selectMask) = 0#64

instance (row other : RawEventToCounterMap) : Decidable (row.Compatible other) :=
  inferInstanceAs (Decidable (_ ∧ _ ∧ _))

theorem isOverlap_self (row : RawEventToCounterMap) : row.isOverlap row = true := by
  simp [isOverlap]

theorem isOverlap_eq_true_iff {row other : RawEventToCounterMap} : row.isOverlap other = true ↔
    row.selectMask = other.selectMask ∧ row.rawEventSelect = other.rawEventSelect := by
  simp [isOverlap]

/-- The bits of a word against the bits of a masked word. -/
theorem haveEvent_iff {row : RawEventToCounterMap} {e : BitVec 64} : row.haveEvent e = true ↔
    ∀ i, i < 64 → row.rawEventSelect.getLsbD i = (e.getLsbD i && row.selectMask.getLsbD i) := by
  rw [haveEvent, beq_iff_eq]
  constructor
  · intro h i _
    rw [h, BitVec.getLsbD_and]
  · intro h
    apply BitVec.eq_of_getLsbD_eq
    intro i hi
    rw [h i hi, BitVec.getLsbD_and]

theorem compatible_iff {row other : RawEventToCounterMap} : row.Compatible other ↔
    ∀ i, i < 64 →
      (row.rawEventSelect.getLsbD i = true → row.selectMask.getLsbD i = true) ∧
      (other.rawEventSelect.getLsbD i = true → other.selectMask.getLsbD i = true) ∧
      (row.selectMask.getLsbD i = true → other.selectMask.getLsbD i = true →
        row.rawEventSelect.getLsbD i = other.rawEventSelect.getLsbD i) := by
  have hzero : ∀ x : BitVec 64, x = 0#64 ↔ ∀ i, i < 64 → x.getLsbD i = false := by
    intro x
    constructor
    · rintro rfl i _
      exact BitVec.getLsbD_zero
    · intro h
      apply BitVec.eq_of_getLsbD_eq
      intro i hi
      rw [h i hi, BitVec.getLsbD_zero]
  rw [Compatible, hzero, hzero, hzero, ← forall₂_and, ← forall₂_and]
  refine forall₂_congr fun i hi => ?_
  simp only [BitVec.getLsbD_and, BitVec.getLsbD_not, BitVec.getLsbD_xor, hi, decide_true,
    Bool.true_and]
  cases row.rawEventSelect.getLsbD i <;> cases row.selectMask.getLsbD i <;>
    cases other.rawEventSelect.getLsbD i <;> cases other.selectMask.getLsbD i <;> decide

/-- Some raw event matches both rows exactly when the rows are compatible. -/
theorem conflict_iff_compatible {row other : RawEventToCounterMap} :
    Conflict haveEvent row other ↔ row.Compatible other := by
  rw [compatible_iff]
  constructor
  · rintro ⟨e, hrow, hother⟩ i hi
    rw [haveEvent_iff.mp hrow i hi, haveEvent_iff.mp hother i hi]
    cases e.getLsbD i <;> cases row.selectMask.getLsbD i <;>
      cases other.selectMask.getLsbD i <;> decide
  · intro h
    refine ⟨row.rawEventSelect ||| other.rawEventSelect, haveEvent_iff.mpr fun i hi => ?_,
      haveEvent_iff.mpr fun i hi => ?_⟩
    all_goals
      have hbit := h i hi
      rw [BitVec.getLsbD_or]
      revert hbit
      cases row.rawEventSelect.getLsbD i <;> cases row.selectMask.getLsbD i <;>
        cases other.rawEventSelect.getLsbD i <;> cases other.selectMask.getLsbD i <;> decide

end RawEventToCounterMap

/-! ## Filling the maps -/

namespace SbiPmu

/-- What the maps hold after the rows: no two overlapping ones, and for every
raw row one with its selector and mask. -/
structure Filled (sbiPmu : SbiPmu) (rows : List Row) : Prop where
  counters : (sbiPmu.eventToMhpmcounter.getD []).Pairwise fun a b => a.isOverlap b = false
  rawCounters : (sbiPmu.rawEventToMhpmcounter.getD []).Pairwise fun a b => a.isOverlap b = false
  inserted : ∀ row ∈ sbiPmu.rawEventToMhpmcounter.getD [], .rawCounters row ∈ rows
  covered : ∀ row, .rawCounters row ∈ rows →
    ∃ a ∈ sbiPmu.rawEventToMhpmcounter.getD [], a.isOverlap row = true

theorem Filled.default : Filled default [] where
  counters := .nil
  rawCounters := .nil
  inserted := by simp [SbiPmu.default]
  covered := by simp

theorem Filled.insert {sbiPmu : SbiPmu} {rows : List Row} (h : sbiPmu.Filled rows) (row : Row) :
    (sbiPmu.insert row).Filled (rows ++ [row]) := by
  cases row with
  | mhpmevent event value => exact ⟨h.counters, h.rawCounters,
      fun a ha => List.mem_append_left _ (h.inserted a ha), fun a ha => h.covered a (by simpa using ha)⟩
  | counters row => exact ⟨pairwise_insertDisjoint h.counters, h.rawCounters,
      fun a ha => List.mem_append_left _ (h.inserted a ha), fun a ha => h.covered a (by simpa using ha)⟩
  | rawCounters row =>
    refine ⟨h.counters, pairwise_insertDisjoint h.rawCounters, fun a ha => ?_, fun a ha => ?_⟩
    · rcases mem_insertDisjoint ha with hmem | rfl
      · exact List.mem_append_left _ (h.inserted a hmem)
      · exact List.mem_append_right _ (List.mem_singleton_self _)
    · rcases List.mem_append.mp ha with hmem | hmem
      · obtain ⟨b, hb, hoverlap⟩ := h.covered a hmem
        exact ⟨b, subset_insertDisjoint hb, hoverlap⟩
      · obtain rfl : a = row := by simpa using hmem
        exact exists_overlap_insertDisjoint a.isOverlap_self

theorem Filled.insertAll {sbiPmu : SbiPmu} {seen : List Row} (h : sbiPmu.Filled seen)
    (rows : List Row) : (sbiPmu.insertAll rows).Filled (seen ++ rows) := by
  induction rows generalizing sbiPmu seen with
  | nil => simpa [SbiPmu.insertAll] using h
  | cons row rest ih =>
    rw [SbiPmu.insertAll, List.foldl_cons, ← List.singleton_append, ← List.append_assoc]
    exact ih (h.insert row)

section

variable {sbiPmu : SbiPmu} {rows : List Row}

theorem Filled.atMostOne_counters (h : sbiPmu.Filled rows) {table : List EventToCounterMap}
    (htable : sbiPmu.eventToMhpmcounter = some table) :
    AtMostOne EventToCounterMap.haveEvent table := by
  have hpairwise := h.counters
  rw [htable, Option.getD_some] at hpairwise
  exact atMostOne_of_pairwise hpairwise fun a b => EventToCounterMap.not_conflict

/-- No raw event matches two of the rows read. -/
def RawRowsApart (rows : List Row) : Prop :=
  ∀ a b, .rawCounters a ∈ rows → .rawCounters b ∈ rows →
    (a.selectMask ≠ b.selectMask ∨ a.rawEventSelect ≠ b.rawEventSelect) → ¬ a.Compatible b

theorem Filled.atMostOne_rawCounters_iff (h : sbiPmu.Filled rows) :
    AtMostOne RawEventToCounterMap.haveEvent (sbiPmu.rawEventToMhpmcounter.getD []) ↔
      RawRowsApart rows := by
  constructor
  · intro hone a b ha hb hne hcompatible
    obtain ⟨a', ha', hoverlap⟩ := h.covered a ha
    obtain ⟨b', hb', hoverlap'⟩ := h.covered b hb
    obtain ⟨hmask, hselect⟩ := RawEventToCounterMap.isOverlap_eq_true_iff.mp hoverlap
    obtain ⟨hmask', hselect'⟩ := RawEventToCounterMap.isOverlap_eq_true_iff.mp hoverlap'
    have hconflict : Conflict RawEventToCounterMap.haveEvent a' b' := by
      rw [RawEventToCounterMap.conflict_iff_compatible, RawEventToCounterMap.Compatible, hmask,
        hselect, hmask', hselect']
      exact hcompatible
    obtain rfl := hone.eq_of_conflict ha' hb' hconflict
    rw [← hmask, ← hmask', ← hselect, ← hselect'] at hne
    exact hne.elim (· rfl) (· rfl)
  · intro hapart
    refine atMostOne_iff_pairwise.mpr (h.rawCounters.imp_of_mem fun {a b} ha hb hoverlap hconflict => ?_)
    refine hapart a b (h.inserted a ha) (h.inserted b hb) ?_
      (RawEventToCounterMap.conflict_iff_compatible.mp hconflict)
    rw [← not_and_or, ← RawEventToCounterMap.isOverlap_eq_true_iff, hoverlap]
    exact Bool.false_ne_true

/-! ## The order of the rows -/

theorem SameRows.mhpmeventVal {stored : SbiPmu} (h : sbiPmu.SameRows stored) :
    mhpmeventVal stored = mhpmeventVal sbiPmu := by
  have hsome : stored.eventToMhpmcounter.isSome = sbiPmu.eventToMhpmcounter.isSome := by
    rcases rel_perm_cases h.counters with ⟨hnone, hnone'⟩ | ⟨_, _, hrows, hrows', -⟩
    · rw [hnone, hnone']
    · rw [hrows, hrows', Option.isSome_some, Option.isSome_some]
  funext eventIdx eventData
  rw [Pmu.mhpmeventVal, Pmu.mhpmeventVal, h.mhpmevent, hsome]

theorem SameRows.findHardwareCounterLoop {stored : SbiPmu} (h : sbiPmu.SameRows stored)
    (features : HartFeatures) (pmu : PmuState xlen) (canUseCounterMask : BitVec 32) (eventIdx : Nat)
    (eventData : BitVec 64) (fixed : Except SbiRet Nat) (counters : List Nat) :
    findHardwareCounterLoop features stored pmu canUseCounterMask eventIdx eventData fixed counters =
      findHardwareCounterLoop features sbiPmu pmu canUseCounterMask eventIdx eventData fixed
        counters := by
  induction counters with
  | nil => rfl
  | cons counterIdx rest ih =>
    simp only [Pmu.findHardwareCounterLoop, ih, pmuUpdateHardwareMhpmevent, h.mhpmeventVal]

theorem SameRows.findHardwareCounter {stored : SbiPmu} (h : sbiPmu.SameRows stored)
    (hcounters : ∀ rows, sbiPmu.eventToMhpmcounter = some rows →
      AtMostOne EventToCounterMap.haveEvent rows)
    (hrawCounters : ∀ rows, sbiPmu.rawEventToMhpmcounter = some rows →
      AtMostOne RawEventToCounterMap.haveEvent rows)
    (features : HartFeatures) (pmu : PmuState xlen) (counters : CounterMask xlen) (eventIdx : Nat)
    (eventData : BitVec 64) :
    findHardwareCounter features stored pmu counters eventIdx eventData =
      findHardwareCounter features sbiPmu pmu counters eventIdx eventData := by
  simp only [Pmu.findHardwareCounter, h.findHardwareCounterLoop]
  split
  · rcases rel_perm_cases h.rawCounters with ⟨hnone, hnone'⟩ | ⟨table, table', hrows, hrows', hperm⟩
    · rw [hnone, hnone']
    · simp only [hrows, hrows', (hrawCounters table hrows).find?_perm hperm]
  · rcases rel_perm_cases h.counters with ⟨hnone, hnone'⟩ | ⟨table, table', hrows, hrows', hperm⟩
    · rw [hnone, hnone']
    · simp only [hrows, hrows', (hcounters table hrows).find?_perm hperm]

/-- Whatever rows are inserted, in whatever order: no event matches two accepted rows and the
search does not see their order exactly when no raw event matches two of the raw rows that
differ. -/
theorem rowOrderFree_iff (rows : List Row) :
    (insertAll default rows).RowOrderFree ↔ RawRowsApart rows := by
  have hfilled : (insertAll default rows).Filled rows := Filled.default.insertAll rows
  rw [← hfilled.atMostOne_rawCounters_iff]
  constructor
  · intro h
    cases htable : (insertAll default rows).rawEventToMhpmcounter with
    | none => simp [AtMostOne]
    | some table => exact h.rawCounters table htable
  · intro h
    have hcounters : ∀ table, (insertAll default rows).eventToMhpmcounter = some table →
        AtMostOne EventToCounterMap.haveEvent table := fun _ htable => hfilled.atMostOne_counters htable
    have hrawCounters : ∀ table, (insertAll default rows).rawEventToMhpmcounter = some table →
        AtMostOne RawEventToCounterMap.haveEvent table := by
      intro table htable
      rwa [htable, Option.getD_some] at h
    exact ⟨hcounters, hrawCounters, fun stored hsame => hsame.findHardwareCounter hcounters hrawCounters⟩

end

/-- Raw event 0x11 matches both rows, and the row stored first decides its counters. -/
def clashingRows : List Row :=
  [.rawCounters ⟨0x8, 0x1, 0xF⟩, .rawCounters ⟨0x10, 0x11, 0xFF⟩]

theorem clashing_rows_not_order_free : ¬ (insertAll default clashingRows).RowOrderFree := by
  intro h
  have hlen := h.rawCounters [⟨0x8, 0x1, 0xF⟩, ⟨0x10, 0x11, 0xFF⟩] rfl 0x11#64
  revert hlen
  decide

end SbiPmu

end RustSbi.Pmu
