import RustSbi.Lib.Store
import RustSbi.Memory.Registry

/-!
Access to supervisor memory (`memory/supervisor.rs`): the whole range is checked before a byte is
read or written.
-/

namespace RustSbi.Memory

open Store

variable {xlen : Xlen}

/-- The bytes of physical memory. -/
abbrev Ram := Nat → BitVec 8

namespace SupervisorMemory

/-- `SupervisorMemory::check_access`. -/
def checkAccess (memory : SupervisorMemory xlen) (start len : Nat) : Result Unit :=
  if len = 0 then .ok ()
  else do memory.checkRange (← PhysAddrRange.fromStartLen xlen start len)

/-- `SupervisorMemory::read` into `len` bytes. -/
def read (memory : SupervisorMemory xlen) (ram : Ram) (start len : Nat) : Result (List (BitVec 8)) := do
  memory.checkAccess start len
  return (List.range len).map fun offset => ram (start + offset)

/-- The loop of `SupervisorMemory::write`. -/
def writeLoop (start : Nat) : Nat → List (BitVec 8) → Ram → Ram
  | _, [], ram => ram
  | offset, byte :: rest, ram =>
    writeLoop start (offset + 1) rest (Function.update ram (start + offset) byte)

/-- `SupervisorMemory::write`. -/
def write (memory : SupervisorMemory xlen) (ram : Ram) (start : Nat) (input : List (BitVec 8)) :
    Result Unit × Ram :=
  match memory.checkAccess start input.length with
  | .error e => (.error e, ram)
  | .ok () => (.ok (), writeLoop start 0 input ram)

/-- The range of an access is one of registered memory. -/
def Holds (memory : SupervisorMemory xlen) (start len : Nat) : Prop :=
  start + len < xlen.words ∧ ∃ p ∈ memory.regions, p.start ≤ start ∧ start + len ≤ p.stop

variable {memory : SupervisorMemory xlen} {ram : Ram} {start len : Nat}

theorem checkAccess_eq_ok_iff :
    memory.checkAccess start len = .ok () ↔ len = 0 ∨ memory.Holds start len := by
  unfold checkAccess
  by_cases hlen : len = 0
  · simp [hlen]
  by_cases hwords : start + len < xlen.words
  · have hrange : PhysAddrRange.fromStartLen xlen start len =
        .ok ⟨start, start + len, by omega, hwords⟩ := by
      unfold PhysAddrRange.fromStartLen
      rw [if_neg hlen, dif_pos hwords]
      exact dif_pos (by omega)
    rw [if_neg hlen, hrange]
    simp only [hlen, false_or, Holds, hwords, true_and]
    exact (checkRange_eq_ok_iff memory _).trans
      (exists_congr fun p => and_congr_right fun _ => PhysAddrRange.contains_iff p _)
  · have hrange : PhysAddrRange.fromStartLen xlen start len = .error .overflow := by
      unfold PhysAddrRange.fromStartLen
      rw [if_neg hlen, dif_neg hwords]
    rw [if_neg hlen, hrange]
    exact iff_of_false (by rintro ⟨⟩) fun h => hwords (h.resolve_left hlen).1

theorem writeLoop_eq_store (offset : Nat) (input : List (BitVec 8)) :
    writeLoop start offset input ram = store ram (start + offset) input := by
  induction input generalizing ram offset with
  | nil => rw [writeLoop, store_nil]
  | cons byte rest ih => rw [writeLoop, ih, store_cons, Nat.add_assoc]

/-- A part of a range of registered memory. -/
theorem Holds.part (h : memory.Holds start len) {n m : Nat} (hpart : n + m ≤ len) :
    memory.Holds (start + n) m := by
  obtain ⟨hwords, p, hp, hstart, hstop⟩ := h
  exact ⟨by omega, p, hp, by omega, by omega⟩

/-- The first bytes of a range of registered memory. -/
theorem Holds.first (h : memory.Holds start len) {n : Nat} (hn : n ≤ len) : memory.Holds start n :=
  h.part (n := 0) (by omega)

theorem read_of_holds (h : memory.Holds start len) :
    memory.read ram start len = .ok (load ram start len) := by
  rw [read, checkAccess_eq_ok_iff.mpr (.inr h)]
  rfl

theorem write_of_holds {input : List (BitVec 8)} (h : memory.Holds start input.length) :
    memory.write ram start input = (.ok (), store ram start input) := by
  rw [write, checkAccess_eq_ok_iff.mpr (.inr h), writeLoop_eq_store, Nat.add_zero]

end SupervisorMemory

end RustSbi.Memory

