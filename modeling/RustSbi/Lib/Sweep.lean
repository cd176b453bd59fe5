import Mathlib.Tactic

/-!
A pass over an increasing list of items, each with a state of its own. The pass
visits the items one after another and ends at the first one that refuses. The
items before it have been passed, and those after it are as they were.
-/

namespace Sweep

/-- A visit to an item in its state: the error with which the item refuses, and
the state it is left in when it is passed and when the pass ends at it. -/
structure Visit (ι τ ε : Type) where
  refuses : ι → τ → Option ε
  passed : ι → τ → τ
  ended : ι → τ → τ

variable {ι τ ε : Type} [LinearOrder ι] {visit : Visit ι τ ε} {items : List ι} {states after : ι → τ}

namespace Visit

/-- What a visit leaves of its item. -/
def leaves (visit : Visit ι τ ε) (i : ι) (state : τ) : τ :=
  match visit.refuses i state with
  | some _ => visit.ended i state
  | none => visit.passed i state

/-- One visit, with the error that ends the pass. -/
def step (visit : Visit ι τ ε) (i : ι) (states : ι → τ) : Option ε × (ι → τ) :=
  (visit.refuses i (states i), Function.update states i (visit.leaves i (states i)))

/-- The pass over the items, with the error that ended it. -/
def run (visit : Visit ι τ ε) : List ι → (ι → τ) → Option ε × (ι → τ)
  | [], states => (none, states)
  | i :: rest, states =>
    match visit.step i states with
    | (some e, states') => (some e, states')
    | (none, states') => visit.run rest states'

/-- Every item has been passed. -/
structure Completes (visit : Visit ι τ ε) (items : List ι) (states after : ι → τ) : Prop where
  accepts : ∀ i ∈ items, visit.refuses i (states i) = none
  passed : ∀ i ∈ items, after i = visit.passed i (states i)
  others : ∀ i, i ∉ items → after i = states i

/-- The pass has ended at the first item that refuses. -/
structure EndsAt (visit : Visit ι τ ε) (items : List ι) (states : ι → τ) (stop : ι) (e : ε)
    (after : ι → τ) : Prop where
  mem : stop ∈ items
  refuses : visit.refuses stop (states stop) = some e
  accepts : ∀ i ∈ items, i < stop → visit.refuses i (states i) = none
  passed : ∀ i ∈ items, i < stop → after i = visit.passed i (states i)
  ended : after stop = visit.ended stop (states stop)
  others : ∀ i, i ∉ items ∨ stop < i → after i = states i

/-- A passed item before the others does not change what they do. -/
theorem Completes.cons {i : ι} {rest : List ι} (hfirst : ∀ j ∈ rest, i < j)
    (haccepts : visit.refuses i (states i) = none)
    (h : visit.Completes rest (Function.update states i (visit.passed i (states i))) after) :
    visit.Completes (i :: rest) states after := by
  have hrest : ∀ j ∈ rest, Function.update states i (visit.passed i (states i)) j = states j :=
    fun j hj => Function.update_of_ne (hfirst j hj).ne' _ _
  refine ⟨?_, ?_, ?_⟩
  · rw [List.forall_mem_cons]
    exact ⟨haccepts, fun j hj => hrest j hj ▸ h.accepts j hj⟩
  · rw [List.forall_mem_cons]
    refine ⟨?_, fun j hj => by rw [h.passed j hj, hrest j hj]⟩
    rw [h.others i fun hi => (hfirst i hi).false, Function.update_self]
  · intro j hj
    rw [List.mem_cons, not_or] at hj
    rw [h.others j hj.2, Function.update_of_ne hj.1]

theorem EndsAt.cons {i stop : ι} {e : ε} {rest : List ι} (hfirst : ∀ j ∈ rest, i < j)
    (haccepts : visit.refuses i (states i) = none)
    (h : visit.EndsAt rest (Function.update states i (visit.passed i (states i))) stop e after) :
    visit.EndsAt (i :: rest) states stop e after := by
  have hrest : ∀ j ∈ rest, Function.update states i (visit.passed i (states i)) j = states j :=
    fun j hj => Function.update_of_ne (hfirst j hj).ne' _ _
  have hstop := hrest stop h.mem
  have hlt := hfirst stop h.mem
  refine ⟨List.mem_cons_of_mem _ h.mem, hstop ▸ h.refuses, ?_, ?_, ?_, ?_⟩
  · rw [List.forall_mem_cons]
    exact ⟨fun _ => haccepts, fun j hj hbefore => hrest j hj ▸ h.accepts j hj hbefore⟩
  · rw [List.forall_mem_cons]
    refine ⟨fun _ => ?_, fun j hj hbefore => by rw [h.passed j hj hbefore, hrest j hj]⟩
    rw [h.others i (.inl fun hi => (hfirst i hi).false), Function.update_self]
  · rw [h.ended, hstop]
  · intro j hj
    have hne : j ≠ i := by
      rintro rfl
      rcases hj with hnot | hafter
      · exact hnot List.mem_cons_self
      · exact (hlt.trans hafter).false
    rw [h.others j (hj.imp_left fun hnot hmem => hnot (List.mem_cons_of_mem _ hmem)),
      Function.update_of_ne hne]

/-- A pass that changes what it passes, and not what it ends at, changes nothing exactly when it
ends at the first item. -/
theorem EndsAt.unchanged_iff {stop : ι} {e : ε} (h : visit.EndsAt items states stop e after)
    (hended : visit.ended stop (states stop) = states stop)
    (hpassed : ∀ i ∈ items, i < stop → visit.passed i (states i) ≠ states i) :
    after = states ↔ ∀ i ∈ items, stop ≤ i := by
  constructor
  · rintro rfl i hi
    by_contra hlt
    exact hpassed i hi (not_le.mp hlt) (h.passed i hi (not_le.mp hlt)).symm
  · intro hfirst
    funext i
    by_cases heq : i = stop
    · rw [heq, h.ended, hended]
    · refine h.others i ?_
      by_cases hi : i ∈ items
      · exact .inr (lt_of_le_of_ne (hfirst i hi) (Ne.symm heq))
      · exact .inl hi

/-- A pass over increasing items completes, or ends at the first one that refuses. -/
theorem run_cases (visit : Visit ι τ ε) (states : ι → τ) (h : items.Pairwise (· < ·)) :
    (∃ after, visit.run items states = (none, after) ∧ visit.Completes items states after) ∨
      ∃ stop e after, visit.run items states = (some e, after) ∧
        visit.EndsAt items states stop e after := by
  induction items generalizing states with
  | nil => exact .inl ⟨states, rfl, ⟨nofun, nofun, fun _ _ => rfl⟩⟩
  | cons i rest ih =>
    obtain ⟨hfirst, hrest⟩ := List.pairwise_cons.mp h
    cases hrefuses : visit.refuses i (states i) with
    | some e =>
      refine .inr ⟨i, e, _, by rw [run, step, leaves, hrefuses], List.mem_cons_self, hrefuses, ?_, ?_,
        Function.update_self .., ?_⟩
      · rw [List.forall_mem_cons]
        exact ⟨fun hlt => hlt.false.elim, fun j hj hlt => ((hfirst j hj).trans hlt).false.elim⟩
      · rw [List.forall_mem_cons]
        exact ⟨fun hlt => hlt.false.elim, fun j hj hlt => ((hfirst j hj).trans hlt).false.elim⟩
      · rintro j (hnot | hlt)
        · refine Function.update_of_ne ?_ _ _
          rintro rfl
          exact hnot List.mem_cons_self
        · exact Function.update_of_ne hlt.ne' _ _
    | none =>
      have hrun : visit.run (i :: rest) states =
          visit.run rest (Function.update states i (visit.passed i (states i))) := by
        rw [run, step, leaves, hrefuses]
      rw [hrun]
      rcases ih _ hrest with ⟨after, hafter, hcompletes⟩ | ⟨stop, e, after, hafter, hends⟩
      · exact .inl ⟨after, hafter, hcompletes.cons hfirst hrefuses⟩
      · exact .inr ⟨stop, e, after, hafter, hends.cons hfirst hrefuses⟩

end Visit

end Sweep
