import Mathlib.Tactic

/-!
Iterators with two ends. A state that stands for the list of its items gives the
head of the list at one end and the last item at the other; whatever the order of
the calls, what the two ends have given and what is left make up the list.
-/

namespace DoubleEnded

/-- A call at either end gives an item and the iterator after it, or fails. -/
structure Iter (ε σ α : Type) where
  front : σ → Except ε (Option (α × σ))
  back : σ → Except ε (Option (α × σ))

/-- The end that a call is for. -/
inductive End
  | front
  | back
  deriving DecidableEq, Repr

variable {ε σ α : Type}

namespace Iter

variable (it : Iter ε σ α)

def call : End → σ → Except ε (Option (α × σ))
  | .front => it.front
  | .back => it.back

/-- Some calls one after another, with the items in the order of the calls. -/
def walk : List End → σ → Except ε (List (End × α) × σ)
  | [], s => .ok ([], s)
  | e :: turns, s =>
    match it.call e s with
    | .error err => .error err
    | .ok none => walk turns s
    | .ok (some (a, s')) => (walk turns s').map fun r => ((e, a) :: r.1, r.2)

/-- The items of at most so many calls at one end. -/
def collect (e : End) : Nat → σ → Except ε (List α)
  | 0, _ => .ok []
  | fuel + 1, s =>
    match it.call e s with
    | .error err => .error err
    | .ok none => .ok []
    | .ok (some (a, s')) => (collect e fuel s').map (a :: ·)

/-- Neither end has an item. -/
def Exhausted (s : σ) : Prop := it.front s = .ok none ∧ it.back s = .ok none

/-- A state that views a list gives its items, the first at the front and the last at the back. -/
structure Views (View : σ → List α → Prop) : Prop where
  front_nil : ∀ s, View s [] → it.front s = .ok none
  front_cons : ∀ s a l, View s (a :: l) → ∃ s', it.front s = .ok (some (a, s')) ∧ View s' l
  back_nil : ∀ s, View s [] → it.back s = .ok none
  back_concat : ∀ s a l, View s (l ++ [a]) → ∃ s', it.back s = .ok (some (a, s')) ∧ View s' l

end Iter

/-- The items given at one end, in the order of the calls. -/
def itemsAt (e : End) (items : List (End × α)) : List α :=
  items.filterMap fun item => if item.1 = e then some item.2 else none

@[simp] theorem itemsAt_nil (e : End) : itemsAt e ([] : List (End × α)) = [] := rfl

@[simp] theorem itemsAt_cons_self (e : End) (a : α) (items : List (End × α)) :
    itemsAt e ((e, a) :: items) = a :: itemsAt e items := by
  simp [itemsAt]

theorem itemsAt_cons_ne {e e' : End} (h : e' ≠ e) (a : α) (items : List (End × α)) :
    itemsAt e ((e', a) :: items) = itemsAt e items := by
  simp [itemsAt, h]

/-- Both ends together have given all the items. -/
theorem perm_itemsAt (items : List (End × α)) :
    (items.map Prod.snd).Perm (itemsAt .front items ++ (itemsAt .back items).reverse) := by
  induction items with
  | nil => exact .nil
  | cons item items ih =>
    obtain ⟨e, a⟩ := item
    cases e with
    | front =>
      rw [itemsAt_cons_self, itemsAt_cons_ne (by decide), List.map_cons, List.cons_append]
      exact ih.cons a
    | back =>
      rw [itemsAt_cons_self, itemsAt_cons_ne (by decide), List.map_cons, List.reverse_cons,
        ← List.append_assoc]
      exact (ih.cons a).trans (List.perm_append_singleton a _).symm

namespace Iter.Views

variable {it : Iter ε σ α} {View : σ → List α → Prop}

/-- One call of a state that still has items: the item and the list that is left. -/
theorem call_of_ne_nil (h : it.Views View) {s : σ} {l : List α} (hs : View s l) (hl : l ≠ []) (e : End) :
    ∃ a s' l', it.call e s = .ok (some (a, s')) ∧ View s' l' ∧
      l = match e with
        | .front => a :: l'
        | .back => l' ++ [a] := by
  cases e with
  | front =>
    obtain ⟨a, l', rfl⟩ := List.exists_cons_of_ne_nil hl
    obtain ⟨s', hcall, hs'⟩ := h.front_cons s a l' hs
    exact ⟨a, s', l', hcall, hs', rfl⟩
  | back =>
    rcases List.eq_nil_or_concat' l with rfl | ⟨l', a, rfl⟩
    · exact (hl rfl).elim
    · obtain ⟨s', hcall, hs'⟩ := h.back_concat s a l' hs
      exact ⟨a, s', l', hcall, hs', rfl⟩

theorem call_of_nil (h : it.Views View) {s : σ} (hs : View s []) (e : End) :
    it.call e s = .ok none := by
  cases e with
  | front => exact h.front_nil s hs
  | back => exact h.back_nil s hs

theorem exhausted_iff (h : it.Views View) {s : σ} {l : List α} (hs : View s l) :
    it.Exhausted s ↔ l = [] := by
  constructor
  · rintro ⟨hfront, -⟩
    by_contra hl
    obtain ⟨a, s', l', hcall, -⟩ := h.call_of_ne_nil hs hl .front
    rw [call, hfront] at hcall
    cases hcall
  · rintro rfl
    exact ⟨h.front_nil s hs, h.back_nil s hs⟩

/-- Any interleaving of calls splits the list: what the front gave, what is left, and what the
back gave in reverse. Enough calls leave nothing. -/
theorem walk_spec (h : it.Views View) (turns : List End) {s : σ} {l : List α} (hs : View s l) :
    ∃ items s' l', it.walk turns s = .ok (items, s') ∧ View s' l' ∧
      l = itemsAt .front items ++ l' ++ (itemsAt .back items).reverse ∧
      l'.length = l.length - turns.length := by
  induction turns generalizing s l with
  | nil => exact ⟨[], s, l, rfl, hs, by simp, rfl⟩
  | cons e turns ih =>
    by_cases hl : l = []
    · subst hl
      obtain ⟨items, s', l', hwalk, hs', hsplit, hlength⟩ := ih hs
      refine ⟨items, s', l', ?_, hs', hsplit, by simpa using hlength⟩
      rw [walk, h.call_of_nil hs e]
      exact hwalk
    · obtain ⟨a, s₁, l₁, hcall, hs₁, hl₁⟩ := h.call_of_ne_nil hs hl e
      obtain ⟨items, s', l', hwalk, hs', hsplit, hlength⟩ := ih hs₁
      refine ⟨(e, a) :: items, s', l', ?_, hs', ?_, ?_⟩
      · rw [walk, hcall]
        simp only [hwalk, Except.map]
      · cases e with
        | front =>
          rw [itemsAt_cons_self, itemsAt_cons_ne (by decide), hl₁, hsplit]
          rfl
        | back =>
          rw [itemsAt_cons_self, itemsAt_cons_ne (by decide), hl₁, hsplit, List.reverse_cons,
            List.append_assoc _ _ [a]]
      · have hcons : l.length = l₁.length + 1 := by cases e <;> simp [hl₁]
        rw [hlength, hcons, List.length_cons]
        omega

/-- Collecting at the front gives the list, and at the back its reverse. -/
theorem collect_spec (h : it.Views View) (e : End) (fuel : Nat) {s : σ} {l : List α} (hs : View s l)
    (hfuel : l.length ≤ fuel) :
    it.collect e fuel s = .ok (match e with
      | .front => l
      | .back => l.reverse) := by
  induction fuel generalizing s l with
  | zero =>
    obtain rfl := List.length_eq_zero_iff.mp (Nat.le_zero.mp hfuel)
    cases e <;> rfl
  | succ fuel ih =>
    by_cases hl : l = []
    · subst hl
      rw [collect, h.call_of_nil hs e]
      cases e <;> rfl
    · obtain ⟨a, s', l', hcall, hs', hl'⟩ := h.call_of_ne_nil hs hl e
      have hcons : l.length = l'.length + 1 := by cases e <;> simp [hl']
      rw [collect, hcall]
      simp only [ih hs' (by omega), Except.map]
      cases e with
      | front => rw [hl']
      | back => rw [hl', List.reverse_append, List.reverse_singleton, List.singleton_append]

end Iter.Views

end DoubleEnded
