import Mathlib.Tactic
import RustSbi.Smm.Slots

/-!
Histories of the slot allocator. A ghost set follows which slots have been handed
out and not freed yet, by the answers that the callers got, and is compared with
what the bitmap says. `free` and `is_alloc` reduce an index modulo the number of
PMP entries, so an index past the last entry is taken for another slot.
-/

namespace RustSbi.Smm.PMPSlotAllocator

inductive Call
  | alloc
  | free (idx : Nat)
  | isAlloc (idx : Nat)
  deriving DecidableEq, Repr

inductive Answer
  | allocated (answer : Except PmpError Nat)
  | freed (answer : Except PmpError Unit)
  | asked (answer : Except PmpError Bool)

def perform (s : PMPSlotAllocator) : Call → Answer × PMPSlotAllocator
  | .alloc => (.allocated s.alloc.1, s.alloc.2)
  | .free idx => (.freed (s.free idx).1, (s.free idx).2)
  | .isAlloc idx => (.asked (s.isAlloc idx), s)

def Answer.Fails : Answer → Prop
  | .allocated answer => ∃ e, answer = .error e
  | .freed answer => ∃ e, answer = .error e
  | .asked answer => ∃ e, answer = .error e

/-- The slots handed out and not freed, after a call with its answer. -/
def outstanding (held : Set Nat) : Call → Answer → Set Nat
  | .alloc, .allocated (.ok slot) => insert slot held
  | .free idx, .freed (.ok _) => held \ {idx}
  | _, _ => held

/-- What a call may answer while the slots of `held` are out. -/
def Answers (held : Set Nat) (s : PMPSlotAllocator) : Call → Prop
  | .alloc =>
    (∀ slot, s.alloc.1 = .ok slot → slot ∉ held ∧ s.allocMask.getLsbD slot = true) ∧
      ((∃ e, s.alloc.1 = .error e) ↔ ∀ slot, s.allocMask.getLsbD slot = true → slot ∈ held)
  | .free idx => (s.free idx).1 = .ok () ↔ s.allocMask.getLsbD idx = true ∧ idx ∈ held
  | .isAlloc idx => s.isAlloc idx = .ok true ↔ idx ∈ held

/-- A call answers as it may, changes nothing if it fails, and leaves exactly the
slots in use that are out after it. -/
def Meets (held : Set Nat) (s : PMPSlotAllocator) (call : Call) : Prop :=
  Answers held s call ∧ ((s.perform call).1.Fails → (s.perform call).2 = s) ∧
    ∀ slot, (s.perform call).2.Holds slot ↔ slot ∈ outstanding held call (s.perform call).1

/-- Every call of a sequence does so. -/
def MeetsAll : Set Nat → PMPSlotAllocator → List Call → Prop
  | _, _, [] => True
  | held, s, call :: rest =>
    Meets held s call ∧ MeetsAll (outstanding held call (s.perform call).1) (s.perform call).2 rest

/-- The index is one of an entry, or of no slot in use even modulo the number of entries. -/
def InRange (s : PMPSlotAllocator) : Call → Prop
  | .alloc => True
  | .free idx | .isAlloc idx => idx < maxPmpEntryCount ∨ ¬ s.Holds (idx % maxPmpEntryCount)

def AllInRange : PMPSlotAllocator → List Call → Prop
  | _, [] => True
  | s, call :: rest => s.InRange call ∧ AllInRange (s.perform call).2 rest

/-- The mask is one of PMP entries, and the ghost set is what the bitmap says. -/
structure Tracks (held : Set Nat) (s : PMPSlotAllocator) : Prop where
  mask_lt : ∀ slot, s.allocMask.getLsbD slot = true → slot < maxPmpEntryCount
  holds_iff : ∀ slot, s.Holds slot ↔ slot ∈ held

variable {held : Set Nat} {s : PMPSlotAllocator}

theorem Tracks.lt (h : Tracks held s) {slot : Nat} (hslot : slot ∈ held) :
    slot < maxPmpEntryCount :=
  h.mask_lt slot ((h.holds_iff slot).mpr hslot).2

theorem allocMask_perform (s : PMPSlotAllocator) (call : Call) :
    (s.perform call).2.allocMask = s.allocMask := by
  cases call with
  | alloc =>
    simp only [perform, alloc]
    split <;> rfl
  | free idx =>
    simp only [perform, free]
    split <;> rfl
  | isAlloc idx => rfl

/-- The state a call leaves is tracked again, as far as the call met its contract. -/
theorem Tracks.perform (h : Tracks held s) {call : Call} (hmeets : Meets held s call) :
    Tracks (outstanding held call (s.perform call).1) (s.perform call).2 where
  mask_lt := by
    rw [allocMask_perform]
    exact h.mask_lt
  holds_iff := hmeets.2.2

/-! ## One call -/

theorem meets_alloc (h : Tracks held s) : Meets held s .alloc := by
  simp only [Meets, Answers, PMPSlotAllocator.perform, Answer.Fails]
  rcases hcase : s.alloc with ⟨e | slot, s'⟩
  · obtain ⟨rfl, hfull⟩ := alloc_eq_error hcase
    refine ⟨⟨by simp, ?_⟩, fun _ => rfl, h.holds_iff⟩
    simp only [Except.error.injEq, exists_eq', true_iff]
    exact fun slot hmask => (h.holds_iff slot).mp (hfull slot hmask)
  · obtain ⟨hnew, hmask, hholds⟩ := alloc_eq_ok hcase
    have hown := ((hholds slot).mpr (Or.inr rfl)).2
    rw [hmask] at hown
    refine ⟨⟨?_, ?_⟩, by simp, ?_⟩
    · rintro _ ⟨⟩
      exact ⟨fun hslot => hnew ((h.holds_iff slot).mpr hslot), hown⟩
    · simp only [reduceCtorEq, exists_false, false_iff, not_forall]
      exact ⟨slot, hown, fun hslot => hnew ((h.holds_iff slot).mpr hslot)⟩
    · intro other
      rw [hholds other, h.holds_iff other, outstanding, Set.mem_insert_iff, or_comm]

theorem meets_free_iff (h : Tracks held s) (idx : Nat) :
    Meets held s (.free idx) ↔ s.InRange (.free idx) := by
  by_cases hused : s.Holds (idx % maxPmpEntryCount)
  · have hmod : idx % maxPmpEntryCount < maxPmpEntryCount := Nat.mod_lt _ (by decide)
    obtain ⟨s', hfree, -, hholds⟩ := free_of_holds hmod hused
    rw [free_mod] at hfree
    simp only [Meets, Answers, PMPSlotAllocator.perform, Answer.Fails, InRange, hfree, hused,
      not_true_eq_false, or_false, true_iff, reduceCtorEq, exists_false, false_implies, true_and]
    constructor
    · -- The call succeeds, so the index itself must be that of a slot.
      rintro ⟨hanswer, -⟩
      exact h.mask_lt idx hanswer.1
    · intro hlt
      rw [Nat.mod_eq_of_lt hlt] at hused hholds
      refine ⟨⟨hused.2, (h.holds_iff idx).mp hused⟩, fun slot => ?_⟩
      rw [hholds slot, h.holds_iff slot, outstanding, Set.mem_sdiff, Set.mem_singleton_iff]
  · have hnot : idx ∉ held := by
      intro hidx
      have hlt := h.lt hidx
      rw [Nat.mod_eq_of_lt hlt] at hused
      exact hused ((h.holds_iff idx).mpr hidx)
    simp only [Meets, Answers, PMPSlotAllocator.perform, InRange, free_of_not_holds hused, hused,
      not_false_eq_true, or_true, iff_true, reduceCtorEq, false_iff, not_and]
    exact ⟨fun _ => hnot, fun _ => trivial, h.holds_iff⟩

theorem meets_isAlloc_iff (h : Tracks held s) (idx : Nat) :
    Meets held s (.isAlloc idx) ↔ s.InRange (.isAlloc idx) := by
  rw [Meets, Answers, isAlloc_eq_true_iff, InRange]
  constructor
  · rintro ⟨hanswer, -⟩
    by_cases hused : s.Holds (idx % maxPmpEntryCount)
    · exact Or.inl (h.lt (hanswer.mp hused))
    · exact Or.inr hused
  · intro hrange
    refine ⟨?_, fun _ => rfl, h.holds_iff⟩
    rcases hrange with hlt | hfree
    · rw [Nat.mod_eq_of_lt hlt, h.holds_iff]
    · refine iff_of_false hfree fun hidx => hfree ?_
      rw [Nat.mod_eq_of_lt (h.lt hidx)]
      exact (h.holds_iff idx).mpr hidx

theorem meets_iff (h : Tracks held s) (call : Call) : Meets held s call ↔ s.InRange call := by
  cases call with
  | alloc => exact iff_of_true (meets_alloc h) trivial
  | free idx => exact meets_free_iff h idx
  | isAlloc idx => exact meets_isAlloc_iff h idx

/-! ## Histories -/

theorem meetsAll_iff (h : Tracks held s) (calls : List Call) :
    MeetsAll held s calls ↔ AllInRange s calls := by
  induction calls generalizing held s with
  | nil => exact Iff.rfl
  | cons call rest ih =>
    rw [MeetsAll, AllInRange, meets_iff h call]
    apply and_congr_right
    intro hrange
    exact ih (h.perform ((meets_iff h call).mpr hrange))

theorem tracks_new {allocMask : BitVec 64} (manageMask : BitVec 64)
    (hmask : ∀ slot, allocMask.getLsbD slot = true → slot < maxPmpEntryCount) :
    Tracks ∅ (.new allocMask manageMask) where
  mask_lt := hmask
  holds_iff slot := by simp [Holds, new]

/-- From a new allocator, every call of a sequence keeps the slots exclusive if and only
if no index beyond the entries is taken for a slot in use. -/
theorem slots_exclusive_iff (allocMask manageMask : BitVec 64)
    (hmask : ∀ slot, allocMask.getLsbD slot = true → slot < maxPmpEntryCount)
    (calls : List Call) :
    MeetsAll ∅ (.new allocMask manageMask) calls ↔ AllInRange (.new allocMask manageMask) calls :=
  meetsAll_iff (tracks_new manageMask hmask) calls

/-- Slots 0 and 2, and an index past the last entry that stands for slot 15. -/
theorem slots_exclusive_two :
    MeetsAll ∅ (.new 5#64 5#64)
      [.alloc, .isAlloc 0, .alloc, .alloc, .free 63, .isAlloc 63, .free 0, .alloc] := by
  refine (slots_exclusive_iff 5#64 5#64 ?_ _).mpr ?_
  · have hall : ∀ slot < 64, (5#64).getLsbD slot = true → slot < maxPmpEntryCount := by decide
    exact fun slot hslot => hall slot (BitVec.lt_of_getLsbD hslot) hslot
  · simp only [AllInRange, InRange, Holds]
    decide +kernel

/-- Slot 16 is released although no such slot is in the mask, and slot 0 with it. -/
theorem slot_sixteen_freed : ¬ MeetsAll ∅ (.new 1#64 1#64) [.alloc, .free 16] := by
  rintro ⟨-, ⟨hanswer, -⟩, -⟩
  exact absurd (hanswer.mp (by decide +kernel)).1 (by decide +kernel)

end RustSbi.Smm.PMPSlotAllocator
