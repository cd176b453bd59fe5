import Mathlib.Tactic

/-!
The build target of the firmware and the integer and error vocabulary that its
crates share: the native word `usize`, checked word arithmetic, the error type
of the Runtime crate and the result of an SBI call.
-/

namespace RustSbi

/-- The firmware is built for RV32 and for RV64. -/
inductive Xlen
  | rv32
  | rv64
  deriving DecidableEq, Repr

namespace Xlen

/-- `usize::BITS`. -/
def bits : Xlen → Nat
  | rv32 => 32
  | rv64 => 64

/-- The number of values of `usize`; its largest value is one less. -/
def words (x : Xlen) : Nat := 2 ^ x.bits

/-- `usize::MAX`. -/
def usizeMax (x : Xlen) : Nat := x.words - 1

/-- `size_of::<usize>()`. -/
def wordBytes (x : Xlen) : Nat := x.bits / 8

theorem words_pos (x : Xlen) : 0 < x.words := by
  cases x <;> decide

theorem four_gigabytes_le_words (x : Xlen) : 2 ^ 32 ≤ x.words := by
  cases x <;> decide

theorem four_dvd_words (x : Xlen) : 4 ∣ x.words := by
  cases x <;> decide

end Xlen

/-- `NUM_HART_MAX`: hart identifiers are below it. -/
def numHartMax : Nat := 8

/-- `runtime::Error`. -/
inductive Error
  | invalidArgs
  | accessDenied
  | notEnoughResources
  | overflow
  deriving DecidableEq, Repr

/-- `runtime::Result`. -/
abbrev Result (α : Type) := Except Error α

/-- `SbiRet`: a status code with a value, which is zero for every error. -/
inductive SbiRet
  | success (value : Nat)
  | failed
  | notSupported
  | invalidParam
  | denied
  | invalidAddress
  | alreadyAvailable
  | alreadyStarted
  | alreadyStopped
  | noShmem
  deriving DecidableEq, Repr

/-- `usize::checked_add`, with values of `usize` as natural numbers. -/
def checkedAdd (x : Xlen) (a b : Nat) : Option Nat :=
  if a + b < x.words then some (a + b) else none

/-- `Option::ok_or`. -/
def okOr {α : Type} (o : Option α) (e : Error) : Result α :=
  match o with
  | some a => .ok a
  | none => .error e

theorem checkedAdd_eq_some_iff {x : Xlen} {a b c : Nat} :
    checkedAdd x a b = some c ↔ c = a + b ∧ a + b < x.words := by
  unfold checkedAdd
  split
  · simp [eq_comm, *]
  · simp [*]

@[simp] theorem okOr_eq_ok_iff {α : Type} {o : Option α} {e : Error} {a : α} :
    okOr o e = .ok a ↔ o = some a := by
  cases o <;> simp [okOr]

end RustSbi
