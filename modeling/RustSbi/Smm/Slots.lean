import Mathlib.Tactic
import RustSbi.Firmware.Pmp
import RustSbi.Lib.Bits
import RustSbi.Lib.Checked

/-!
The PMP slots of the secure-memory manager: the bitmap allocator of the `pmpm`
crate (`pmpm/src/bitmap.rs`), its check of a memory area (`pmpm/src/lib.rs`) and
the protector that the manager owns (`smm/src/protector.rs`).
-/

namespace RustSbi.Smm

open RustSbi.Firmware (Range)

/-- `MAX_PMP_ENTRY_COUNT`. -/
def maxPmpEntryCount : Nat := 16

/-- `check_pmp_area_available`. -/
def checkPmpAreaAvailable (addr len : Nat) : Range → Bool
  | .na4 => addr &&& (1 <<< 2 - 1) == 0 && len == 4
  | .napot => decide (8 ≤ len) && len &&& (len - 1) == 0 && addr % len == 0
  | .tor => addr &&& (1 <<< 2 - 1) == 0 && len % 4 == 0
  | .off => true

/-- A naturally aligned area of a power of two bytes. -/
theorem checkPmpAreaAvailable_napot_iff {addr len : Nat} :
    checkPmpAreaAvailable addr len .napot = true ↔ (∃ k, 3 ≤ k ∧ len = 2 ^ k) ∧ len ∣ addr := by
  simp only [checkPmpAreaAvailable, Bool.and_eq_true, decide_eq_true_eq, beq_iff_eq]
  constructor
  · rintro ⟨⟨hlen, hpow⟩, haddr⟩
    obtain ⟨k, rfl⟩ := (Nat.and_sub_one_eq_zero_iff_isPowerOfTwo (by omega)).mp hpow
    refine ⟨⟨k, ?_, rfl⟩, Nat.dvd_of_mod_eq_zero haddr⟩
    exact (Nat.pow_le_pow_iff_right (a := 2) (by decide)).mp hlen
  · rintro ⟨⟨k, hk, rfl⟩, haddr⟩
    have hle : 2 ^ 3 ≤ 2 ^ k := Nat.pow_le_pow_right (by decide) hk
    refine ⟨⟨by omega, ?_⟩, Nat.mod_eq_zero_of_dvd haddr⟩
    exact (Nat.and_sub_one_eq_zero_iff_isPowerOfTwo (by omega)).mpr ⟨k, rfl⟩

/-! ## The slot bitmap -/

/-- `PmpError`. -/
inductive PmpError
  | indexOutOfRange
  | noFreeSlot
  deriving DecidableEq, Repr

/-- `PMPSlotAllocator`. The manager holds it by `&mut`, so no other party changes
the bitmap between a load and the exchange that follows it. -/
structure PMPSlotAllocator where
  pmpSlots : BitVec 64
  allocMask : BitVec 64
  manageMask : BitVec 64
  deriving DecidableEq, Repr

namespace PMPSlotAllocator

def new (allocMask manageMask : BitVec 64) : PMPSlotAllocator := ⟨0#64, allocMask, manageMask⟩

def alloc (s : PMPSlotAllocator) : Except PmpError Nat × PMPSlotAllocator :=
  let avalSlots := ~~~s.pmpSlots &&& s.allocMask
  if avalSlots = 0#64 then (.error .noFreeSlot, s)
  else
    let pmpIdx := avalSlots.ctz.toNat
    (.ok pmpIdx, { s with pmpSlots := s.pmpSlots ||| 1#64 <<< pmpIdx })

def free (s : PMPSlotAllocator) (idx : Nat) : Except PmpError Unit × PMPSlotAllocator :=
  let freeSlot := 1#64 <<< (idx &&& (maxPmpEntryCount - 1))
  if s.pmpSlots &&& freeSlot &&& s.allocMask = 0#64 then (.error .indexOutOfRange, s)
  else (.ok (), { s with pmpSlots := s.pmpSlots &&& ~~~freeSlot })

def isAlloc (s : PMPSlotAllocator) (idx : Nat) : Except PmpError Bool :=
  let checkSlot := 1#64 <<< (idx &&& (maxPmpEntryCount - 1))
  if checkSlot &&& s.allocMask = 0#64 then .error .indexOutOfRange
  else .ok (s.pmpSlots &&& checkSlot != 0#64)

/-- The slot is one that `alloc` may hand out, and it has done so. -/
def Holds (s : PMPSlotAllocator) (slot : Nat) : Prop :=
  s.pmpSlots.getLsbD slot = true ∧ s.allocMask.getLsbD slot = true

variable {s s' : PMPSlotAllocator} {slot other : Nat}

theorem alloc_eq_ok (h : s.alloc = (.ok slot, s')) :
    ¬ s.Holds slot ∧ s'.allocMask = s.allocMask ∧
      (∀ other, s'.Holds other ↔ s.Holds other ∨ other = slot) := by
  simp only [alloc] at h
  split at h
  · cases h
  next hfree =>
    simp only [Prod.mk.injEq, Except.ok.injEq] at h
    obtain ⟨rfl, rfl⟩ := h
    -- The first zero bit of the bitmap among those of the mask.
    set slot := (~~~s.pmpSlots &&& s.allocMask).ctz.toNat
    have hbit : (~~~s.pmpSlots &&& s.allocMask).getLsbD slot = true :=
      BitVec.getLsbD_true_ctz_of_ne_zero hfree
    have hlt : slot < 64 := BitVec.lt_of_getLsbD hbit
    simp only [BitVec.getLsbD_and, BitVec.getLsbD_not, hlt, decide_true, Bool.true_and,
      Bool.and_eq_true, Bool.not_eq_true'] at hbit
    refine ⟨fun hheld => Bool.false_ne_true (hbit.1.symm.trans hheld.1), rfl, fun other => ?_⟩
    by_cases hother : other < 64
    · simp only [Holds, Bits.getLsbD_setBit _ hother, Bool.or_eq_true, decide_eq_true_eq]
      constructor
      · rintro ⟨hset | rfl, hmask⟩
        · exact Or.inl ⟨hset, hmask⟩
        · exact Or.inr rfl
      · rintro (⟨hset, hmask⟩ | rfl)
        · exact ⟨Or.inl hset, hmask⟩
        · exact ⟨Or.inr rfl, hbit.2⟩
    · simp only [Holds, BitVec.getLsbD_of_ge _ _ (not_lt.mp hother), Bool.false_eq_true, and_false,
        false_or, false_iff]
      omega

theorem alloc_eq_error {e : PmpError} (h : s.alloc = (.error e, s')) :
    s' = s ∧ ∀ slot, s.allocMask.getLsbD slot = true → s.Holds slot := by
  simp only [alloc] at h
  split at h
  next hfull =>
    cases h
    refine ⟨rfl, fun slot hmask => ⟨?_, hmask⟩⟩
    have hlt : slot < 64 := BitVec.lt_of_getLsbD hmask
    have hbit := congrArg (BitVec.getLsbD · slot) hfull
    simpa only [BitVec.getLsbD_and, BitVec.getLsbD_not, hlt, decide_true, Bool.true_and, hmask,
      Bool.and_true, BitVec.getLsbD_zero, Bool.not_eq_false'] using hbit
  · cases h

theorem and_mask_eq_mod (idx : Nat) : idx &&& (maxPmpEntryCount - 1) = idx % maxPmpEntryCount :=
  Nat.and_two_pow_sub_one_eq_mod idx 4

theorem mod_lt_word (idx : Nat) : idx % maxPmpEntryCount < 64 :=
  lt_trans (Nat.mod_lt idx (by decide)) (by decide)

/-- The test that `free` makes: the index is only looked at modulo the number of entries. -/
theorem used_ne_zero_iff {idx : Nat} :
    s.pmpSlots &&& 1#64 <<< (idx &&& (maxPmpEntryCount - 1)) &&& s.allocMask ≠ 0#64 ↔
      s.Holds (idx % maxPmpEntryCount) := by
  rw [and_mask_eq_mod, BitVec.and_assoc, BitVec.and_comm (1#64 <<< _), ← BitVec.and_assoc,
    Bits.and_oneShift_ne_zero_iff (mod_lt_word idx), BitVec.getLsbD_and, Bool.and_eq_true]
  rfl

theorem free_of_not_holds {idx : Nat} (h : ¬ s.Holds (idx % maxPmpEntryCount)) :
    s.free idx = (.error .indexOutOfRange, s) := by
  rw [← used_ne_zero_iff, not_not] at h
  simp only [free, if_pos h]

theorem free_of_holds (hlt : slot < maxPmpEntryCount) (hheld : s.Holds slot) :
    ∃ s', s.free slot = (.ok (), s') ∧ s'.allocMask = s.allocMask ∧
      ∀ other, s'.Holds other ↔ s.Holds other ∧ other ≠ slot := by
  have hmod : slot % maxPmpEntryCount = slot := Nat.mod_eq_of_lt hlt
  have hset := used_ne_zero_iff.mpr (hmod.symm ▸ hheld)
  rw [and_mask_eq_mod, hmod] at hset
  refine ⟨{ s with pmpSlots := s.pmpSlots &&& ~~~(1#64 <<< slot) }, ?_, rfl, fun other => ?_⟩
  · simp only [free, and_mask_eq_mod, hmod, if_neg hset]
  · simp only [Holds, Bits.getLsbD_clearBit, Bool.and_eq_true, decide_eq_true_eq]
    tauto

theorem free_mod (idx : Nat) : s.free (idx % maxPmpEntryCount) = s.free idx := by
  simp only [free, and_mask_eq_mod, Nat.mod_mod]

theorem isAlloc_eq_true_iff {idx : Nat} :
    s.isAlloc idx = .ok true ↔ s.Holds (idx % maxPmpEntryCount) := by
  have hmask := Bits.and_oneShift_ne_zero_iff (x := s.allocMask) (mod_lt_word idx)
  have hused := Bits.and_oneShift_ne_zero_iff (x := s.pmpSlots) (mod_lt_word idx)
  simp only [isAlloc, and_mask_eq_mod, BitVec.and_comm _ s.allocMask, Holds, ← hmask, ← hused]
  split
  next hzero => simp [hzero]
  next hne => simp [hne]

end PMPSlotAllocator

/-! ## The protector -/

/-- `TestSecMemProtector`. The source keeps only the bitmap; `passed` is the
history of the slot numbers that the protector has been given. -/
structure TestSecMemProtector where
  hwManager : PMPSlotAllocator
  passed : List Nat
  deriving DecidableEq, Repr

namespace TestSecMemProtector

def new (allocMask manageMask : BitVec 64) : TestSecMemProtector :=
  ⟨.new allocMask manageMask, []⟩

def isProtectable (_ : TestSecMemProtector) (addr len : Nat) : Bool :=
  checkPmpAreaAvailable addr len .napot

def alloc (p : TestSecMemProtector) : Option Nat × TestSecMemProtector :=
  match p.hwManager.alloc with
  | (.ok slot, hwManager) => (some slot, { p with hwManager })
  | (.error _, hwManager) => (none, { p with hwManager })

def free (p : TestSecMemProtector) (hwid : Nat) : Bool × TestSecMemProtector :=
  match p.hwManager.free hwid with
  | (.ok _, hwManager) => (true, ⟨hwManager, hwid :: p.passed⟩)
  | (.error _, hwManager) => (false, ⟨hwManager, hwid :: p.passed⟩)

/-- The operations that program an entry answer `true` and only see the slot. -/
def program (p : TestSecMemProtector) (hwid : Nat) : Bool × TestSecMemProtector :=
  (true, { p with passed := hwid :: p.passed })

def disable (p : TestSecMemProtector) (hwid : Nat) : Bool × TestSecMemProtector := p.program hwid

def grantAccessAll (p : TestSecMemProtector) (_addr _len hwid : Nat) :
    Bool × TestSecMemProtector := p.program hwid

def retriveAccessAll (p : TestSecMemProtector) (_addr _len hwid : Nat) :
    Bool × TestSecMemProtector := p.program hwid

end TestSecMemProtector

end RustSbi.Smm
