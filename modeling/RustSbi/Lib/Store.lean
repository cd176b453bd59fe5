import Mathlib.Data.List.Basic
import Mathlib.Logic.Function.Basic

/-!
A store by address: loads and stores of consecutive cells, and how the parts of a range fit
together.
-/

namespace Store

variable {α : Type} {ram : Nat → α} {start : Nat} {values : List α}

/-- The values of `len` cells from `start` on. -/
def load (ram : Nat → α) (start len : Nat) : List α := (List.range len).map fun i => ram (start + i)

/-- The store with values in the cells from `start` on. -/
def store (ram : Nat → α) (start : Nat) (values : List α) (addr : Nat) : α :=
  if start ≤ addr then (values[addr - start]?).getD (ram addr) else ram addr

@[simp] theorem length_load (len : Nat) : (load ram start len).length = len := by
  simp [load]

@[simp] theorem store_nil : store ram start [] = ram := by
  funext addr
  simp [store]

theorem store_cons (value : α) :
    store ram start (value :: values) = store (Function.update ram start value) (start + 1) values := by
  funext addr
  unfold store
  by_cases hlt : addr < start
  · simp [show ¬ start ≤ addr by omega, show addr ≠ start by omega, show ¬ start + 1 ≤ addr by omega]
  · by_cases heq : addr = start
    · simp [heq, show ¬ start + 1 ≤ start by omega]
    · have hnext : addr - start = addr - (start + 1) + 1 := by omega
      simp [hnext, heq, show start ≤ addr by omega, show start + 1 ≤ addr by omega]

/-- Values are stored in parts, one after another. -/
theorem store_append (values' : List α) :
    store ram start (values ++ values') =
      store (store ram start values) (start + values.length) values' := by
  induction values generalizing ram start with
  | nil => simp
  | cons value rest ih =>
    rw [List.cons_append, store_cons, ih, store_cons, List.length_cons]
    congr 1
    omega

/-- Cells outside of the range are left alone. -/
theorem store_of_outside {addr : Nat} (haddr : addr < start ∨ start + values.length ≤ addr) :
    store ram start values addr = ram addr := by
  unfold store
  split
  next hstart =>
    have hnone : values[addr - start]? = none := List.getElem?_eq_none (by omega)
    rw [hnone]
    rfl
  next => rfl

/-- A range filled with one value. -/
theorem store_replicate (len : Nat) (value : α) (addr : Nat) :
    store ram start (List.replicate len value) addr =
      if start ≤ addr ∧ addr < start + len then value else ram addr := by
  by_cases hin : start ≤ addr ∧ addr < start + len
  · have hlt : addr - start < len := by omega
    simp [store, hin, hlt]
  · rw [if_neg hin]
    refine store_of_outside ?_
    rw [List.length_replicate]
    omega

theorem store_replicate_eq_self_iff (len : Nat) (value : α) :
    store ram start (List.replicate len value) = ram ↔
      ∀ addr, start ≤ addr → addr < start + len → ram addr = value := by
  simp only [funext_iff, store_replicate, ite_eq_right_iff, and_imp]
  exact forall₃_congr fun _ _ _ => eq_comm

theorem load_store : load (store ram start values) start values.length = values := by
  apply List.ext_getElem
  · simp
  · intro i _ hi
    simp [load, store, hi]

/-- The cells after the first `n` of a range. -/
theorem drop_load (n len : Nat) : (load ram start len).drop n = load ram (start + n) (len - n) := by
  apply List.ext_getElem
  · simp
  · intro i _ _
    simp [load, Nat.add_assoc]

theorem take_load {n len : Nat} (hn : n ≤ len) : (load ram start len).take n = load ram start n := by
  apply List.ext_getElem
  · simp [hn]
  · intro i _ _
    simp [load]

end Store
