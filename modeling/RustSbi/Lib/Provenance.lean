import Mathlib.Order.Interval.Set.Basic
import RustSbi.Lib.Store

/-!
A store whose cells remember who wrote them: what is left of a writer in a range of
cells, and how filling a range with zeros takes it away.
-/

namespace Provenance

open Store (store)

variable {ι α : Type}

/-- A value and its writer, if it has one. -/
structure Cell (ι α : Type) where
  value : α
  writer : Option ι

instance [Zero α] : Zero (Cell ι α) := ⟨⟨0, none⟩⟩

def write (ram : Nat → Cell ι α) (addr : Nat) (writer : Option ι) (value : α) : Nat → Cell ι α :=
  Function.update ram addr ⟨value, writer⟩

/-- No cell of the set has a writer. -/
def Clean (ram : Nat → Cell ι α) (cells : Set Nat) : Prop := ∀ x ∈ cells, (ram x).writer = none

/-- No cell of the set has a writer other than `i`. -/
def Own (ram : Nat → Cell ι α) (i : ι) (cells : Set Nat) : Prop :=
  ∀ x ∈ cells, (ram x).writer = none ∨ (ram x).writer = some i

/-- Cells only lose their writers. -/
def Cleaner (ram ram' : Nat → Cell ι α) : Prop :=
  ∀ x, (ram' x).writer = none ∨ (ram' x).writer = (ram x).writer

variable {ram ram' : Nat → Cell ι α} {cells cells' : Set Nat} {i : ι} {addr : Nat} {value : α}

theorem Clean.mono (h : Clean ram cells) (hsub : cells' ⊆ cells) : Clean ram cells' :=
  fun x hx => h x (hsub hx)

theorem Clean.own (h : Clean ram cells) (i : ι) : Own ram i cells := fun x hx => .inl (h x hx)

theorem Cleaner.refl (ram : Nat → Cell ι α) : Cleaner ram ram := fun _ => .inr rfl

theorem Cleaner.writer_eq_none (h : Cleaner ram ram') {x : Nat} (hx : (ram x).writer = none) :
    (ram' x).writer = none := by
  rcases h x with hnone | hsame
  · exact hnone
  · rw [hsame, hx]

theorem Clean.cleaner (h : Clean ram cells) (hcleaner : Cleaner ram ram') : Clean ram' cells :=
  fun x hx => hcleaner.writer_eq_none (h x hx)

theorem Own.cleaner (h : Own ram i cells) (hcleaner : Cleaner ram ram') : Own ram' i cells := by
  intro x hx
  rcases hcleaner x with hnone | hsame
  · exact .inl hnone
  · rw [hsame]
    exact h x hx

theorem write_of_ne (writer : Option ι) {x : Nat} (hx : x ≠ addr) :
    write ram addr writer value x = ram x :=
  Function.update_of_ne hx _ _

theorem cleaner_write : Cleaner ram (write ram addr none value) := by
  intro x
  by_cases hx : x = addr
  · subst hx
    rw [write, Function.update_self]
    exact .inl rfl
  · rw [write_of_ne none hx]
    exact .inr rfl

/-- What `i` writes is its own. -/
theorem Own.write_self (h : Own ram i cells) : Own (write ram addr (some i) value) i cells := by
  intro x hx
  by_cases heq : x = addr
  · subst heq
    rw [write, Function.update_self]
    exact .inr rfl
  · rw [write_of_ne _ heq]
    exact h x hx

theorem Own.write_of_not_mem (h : Own ram i cells) (writer : Option ι) (haddr : addr ∉ cells) :
    Own (write ram addr writer value) i cells := by
  intro x hx
  have hne : x ≠ addr := by
    rintro rfl
    exact haddr hx
  rw [write_of_ne _ hne]
  exact h x hx

section Zero

variable [Zero α]

theorem cleaner_store_zero (len : Nat) : Cleaner ram (store ram addr (List.replicate len 0)) := by
  intro x
  rw [Store.store_replicate]
  split
  · exact .inl rfl
  · exact .inr rfl

theorem clean_store_zero (len : Nat) :
    Clean (store ram addr (List.replicate len 0)) (Set.Ico addr (addr + len)) := by
  intro x hx
  rw [Store.store_replicate, if_pos (Set.mem_Ico.mp hx)]
  rfl

end Zero

end Provenance
