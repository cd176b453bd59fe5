import Mathlib.Tactic

/-!
Programs over a state that return a value or panic, and the rules for showing
that such a program returns. A panic is a value of the model, so that "the
program never panics" is a statement about what it computes.
-/

namespace Checked

/-- The panics of checked integer and container operations. -/
inductive Panic
  | unwrapNone
  | indexOutOfBounds
  | addOverflow
  | subtractUnderflow
  | shiftOverflow
  | explicit
  deriving DecidableEq, Repr

/-- A program over the state `σ` that returns an `α` or panics. -/
abbrev Program (σ α : Type) := StateT σ (Except Panic) α

/-! ## Operations that panic -/

section Operations

variable {σ α : Type}

/-- `Option::unwrap`. -/
def unwrap : Option α → Program σ α
  | some a => pure a
  | none => throw .unwrapNone

/-- Subtraction of unsigned integers. -/
def checkedSub (a b : Nat) : Program σ Nat :=
  if b ≤ a then pure (a - b) else throw .subtractUnderflow

/-- `array[i]`. -/
def readAt {n : Nat} (array : Vector α n) (i : Nat) : Program σ α :=
  if h : i < n then pure array[i] else throw .indexOutOfBounds

/-- `array[i] = a`, as the updated array. -/
def writeAt {n : Nat} (array : Vector α n) (i : Nat) (a : α) : Program σ (Vector α n) :=
  if h : i < n then pure (array.set i a) else throw .indexOutOfBounds

/-- `x << n`. -/
def shiftLeft {w : Nat} (x : BitVec w) (n : Nat) : Program σ (BitVec w) :=
  if n < w then pure (x <<< n) else throw .shiftOverflow

/-- `x >> n`. -/
def shiftRight {w : Nat} (x : BitVec w) (n : Nat) : Program σ (BitVec w) :=
  if n < w then pure (x >>> n) else throw .shiftOverflow

end Operations

/-! ## Returning -/

section Returns

variable {σ α β : Type} {s : σ} {Q R : α → σ → Prop}

/-- The program returns from `s`, with a value and a state that satisfy `Q`. -/
def Returns (p : Program σ α) (s : σ) (Q : α → σ → Prop) : Prop :=
  ∃ a s', p s = .ok (a, s') ∧ Q a s'

theorem Returns.mono {p : Program σ α} (h : Returns p s Q) (hQR : ∀ a s', Q a s' → R a s') :
    Returns p s R := by
  obtain ⟨a, s', hrun, hQ⟩ := h
  exact ⟨a, s', hrun, hQR a s' hQ⟩

theorem returns_iff_of_ok {p : Program σ α} {a : α} {s' : σ} (h : p s = .ok (a, s')) :
    Returns p s Q ↔ Q a s' := by
  constructor
  · rintro ⟨_, _, hrun, hQ⟩
    cases h.symm.trans hrun
    exact hQ
  · intro hQ
    exact ⟨a, s', h, hQ⟩

theorem not_returns_of_error {p : Program σ α} {e : Panic} (h : p s = .error e) :
    ¬ Returns p s Q := by
  rintro ⟨a, s', hrun, -⟩
  rw [h] at hrun
  cases hrun

@[simp] theorem returns_pure {a : α} : Returns (pure a : Program σ α) s Q ↔ Q a s := by
  constructor
  · rintro ⟨_, _, hrun, hQ⟩
    cases hrun
    exact hQ
  · intro hQ
    exact ⟨a, s, rfl, hQ⟩

@[simp] theorem returns_throw {e : Panic} : ¬ Returns (throw e : Program σ α) s Q :=
  not_returns_of_error rfl

@[simp] theorem returns_bind {p : Program σ α} {f : α → Program σ β} {T : β → σ → Prop} :
    Returns (p >>= f) s T ↔ Returns p s fun a s' => Returns (f a) s' T := by
  have hbind : (p >>= f) s = (p s >>= fun r => f r.1 r.2) := rfl
  constructor
  · rintro ⟨b, t, hrun, hT⟩
    rw [hbind] at hrun
    cases hp : p s with
    | error e => rw [hp] at hrun; cases hrun
    | ok r => exact ⟨r.1, r.2, hp, b, t, by rw [hp] at hrun; exact hrun, hT⟩
  · rintro ⟨a, s', hp, b, t, hf, hT⟩
    exact ⟨b, t, by rw [hbind, hp]; exact hf, hT⟩

@[simp] theorem returns_map {p : Program σ α} {f : α → β} {T : β → σ → Prop} :
    Returns (f <$> p) s T ↔ Returns p s fun a s' => T (f a) s' := by
  rw [map_eq_pure_bind, returns_bind]
  simp only [returns_pure]

@[simp] theorem returns_get {T : σ → σ → Prop} : Returns (get : Program σ σ) s T ↔ T s s :=
  returns_pure (a := s)

@[simp] theorem returns_set {t : σ} {T : PUnit → σ → Prop} :
    Returns (set t : Program σ PUnit) s T ↔ T ⟨⟩ t := by
  constructor
  · rintro ⟨_, _, hrun, hT⟩
    cases hrun
    exact hT
  · intro hT
    exact ⟨⟨⟩, t, rfl, hT⟩

@[simp] theorem returns_modify {f : σ → σ} {T : PUnit → σ → Prop} :
    Returns (modify f : Program σ PUnit) s T ↔ T ⟨⟩ (f s) := by
  constructor
  · rintro ⟨_, _, hrun, hT⟩
    cases hrun
    exact hT
  · intro hT
    exact ⟨⟨⟩, f s, rfl, hT⟩

@[simp] theorem returns_ite {c : Prop} [Decidable c] {p q : Program σ α} :
    Returns (if c then p else q) s Q ↔ if c then Returns p s Q else Returns q s Q := by
  split <;> rfl

@[simp] theorem returns_unwrap {o : Option α} :
    Returns (unwrap o) s Q ↔ ∃ a, o = some a ∧ Q a s := by
  cases o <;> simp [unwrap]

@[simp] theorem returns_checkedSub {a b : Nat} {T : Nat → σ → Prop} :
    Returns (checkedSub a b) s T ↔ b ≤ a ∧ T (a - b) s := by
  by_cases h : b ≤ a <;> simp [checkedSub, h]

@[simp] theorem returns_readAt {n i : Nat} {array : Vector α n} :
    Returns (readAt array i) s Q ↔ ∃ h : i < n, Q array[i] s := by
  by_cases h : i < n <;> simp [readAt, h]

@[simp] theorem returns_writeAt {n i : Nat} {array : Vector α n} {a : α}
    {T : Vector α n → σ → Prop} :
    Returns (writeAt array i a) s T ↔ ∃ h : i < n, T (array.set i a) s := by
  by_cases h : i < n <;> simp [writeAt, h]

@[simp] theorem returns_shiftLeft {w n : Nat} {x : BitVec w} {T : BitVec w → σ → Prop} :
    Returns (shiftLeft x n) s T ↔ n < w ∧ T (x <<< n) s := by
  by_cases h : n < w <;> simp [shiftLeft, h]

@[simp] theorem returns_shiftRight {w n : Nat} {x : BitVec w} {T : BitVec w → σ → Prop} :
    Returns (shiftRight x n) s T ↔ n < w ∧ T (x >>> n) s := by
  by_cases h : n < w <;> simp [shiftRight, h]

end Returns

/-! ## Partial correctness -/

section Ensures

variable {σ α β : Type} {s : σ} {Q R : α → σ → Prop}

/-- If the program returns from `s`, its value and state satisfy `Q`. -/
def Ensures (p : Program σ α) (s : σ) (Q : α → σ → Prop) : Prop :=
  ∀ a s', p s = .ok (a, s') → Q a s'

theorem Ensures.mono {p : Program σ α} (h : Ensures p s Q) (hQR : ∀ a s', Q a s' → R a s') :
    Ensures p s R :=
  fun a s' hrun => hQR a s' (h a s' hrun)

theorem Ensures.and {p : Program σ α} (h : Ensures p s Q) (h' : Ensures p s R) :
    Ensures p s fun a s' => Q a s' ∧ R a s' :=
  fun a s' hrun => ⟨h a s' hrun, h' a s' hrun⟩

/-- A program has one outcome. -/
theorem Returns.ensures {p : Program σ α} (h : Returns p s Q) : Ensures p s Q := by
  obtain ⟨a, s', hrun, hQ⟩ := h
  intro b t hrun'
  cases hrun.symm.trans hrun'
  exact hQ

/-- A program that returns has the outcome it is known to have if it does. -/
theorem Returns.of_ensures {p : Program σ α} (h : Returns p s Q) (h' : Ensures p s R) :
    Returns p s R := by
  obtain ⟨a, s', hrun, -⟩ := h
  exact ⟨a, s', hrun, h' a s' hrun⟩

@[simp] theorem ensures_pure {a : α} : Ensures (pure a : Program σ α) s Q ↔ Q a s :=
  ⟨fun h => h a s rfl, fun h => (returns_pure.mpr h).ensures⟩

@[simp] theorem ensures_throw {e : Panic} : Ensures (throw e : Program σ α) s Q := by
  intro a s' hrun
  cases hrun

@[simp] theorem ensures_bind {p : Program σ α} {f : α → Program σ β} {T : β → σ → Prop} :
    Ensures (p >>= f) s T ↔ Ensures p s fun a s' => Ensures (f a) s' T := by
  have hbind : (p >>= f) s = (p s >>= fun r => f r.1 r.2) := rfl
  constructor
  · intro h a s' hp b t hf
    exact h b t (by rw [hbind, hp]; exact hf)
  · intro h b t hrun
    rw [hbind] at hrun
    cases hp : p s with
    | error e => rw [hp] at hrun; cases hrun
    | ok r => exact h r.1 r.2 hp b t (by rw [hp] at hrun; exact hrun)

@[simp] theorem ensures_map {p : Program σ α} {f : α → β} {T : β → σ → Prop} :
    Ensures (f <$> p) s T ↔ Ensures p s fun a s' => T (f a) s' := by
  rw [map_eq_pure_bind, ensures_bind]
  simp only [ensures_pure]

@[simp] theorem ensures_get {T : σ → σ → Prop} : Ensures (get : Program σ σ) s T ↔ T s s :=
  ensures_pure (a := s)

@[simp] theorem ensures_modify {f : σ → σ} {T : PUnit → σ → Prop} :
    Ensures (modify f : Program σ PUnit) s T ↔ T ⟨⟩ (f s) :=
  ⟨fun h => h ⟨⟩ (f s) rfl, fun h => (returns_modify.mpr h).ensures⟩

@[simp] theorem ensures_ite {c : Prop} [Decidable c] {p q : Program σ α} :
    Ensures (if c then p else q) s Q ↔ if c then Ensures p s Q else Ensures q s Q := by
  split <;> rfl

@[simp] theorem ensures_unwrap {o : Option α} :
    Ensures (unwrap o) s Q ↔ ∀ a, o = some a → Q a s := by
  cases o <;> simp [unwrap]

@[simp] theorem ensures_checkedSub {a b : Nat} {T : Nat → σ → Prop} :
    Ensures (checkedSub a b) s T ↔ (b ≤ a → T (a - b) s) := by
  by_cases h : b ≤ a <;> simp [checkedSub, h]

@[simp] theorem ensures_readAt {n i : Nat} {array : Vector α n} :
    Ensures (readAt array i) s Q ↔ ∀ h : i < n, Q array[i] s := by
  by_cases h : i < n <;> simp [readAt, h]

@[simp] theorem ensures_writeAt {n i : Nat} {array : Vector α n} {a : α}
    {T : Vector α n → σ → Prop} :
    Ensures (writeAt array i a) s T ↔ ∀ h : i < n, T (array.set i a) s := by
  by_cases h : i < n <;> simp [writeAt, h]

@[simp] theorem ensures_shiftLeft {w n : Nat} {x : BitVec w} {T : BitVec w → σ → Prop} :
    Ensures (shiftLeft x n) s T ↔ (n < w → T (x <<< n) s) := by
  by_cases h : n < w <;> simp [shiftLeft, h]

@[simp] theorem ensures_shiftRight {w n : Nat} {x : BitVec w} {T : BitVec w → σ → Prop} :
    Ensures (shiftRight x n) s T ↔ (n < w → T (x >>> n) s) := by
  by_cases h : n < w <;> simp [shiftRight, h]

end Ensures

/-! ## Stateless programs -/

section Except

variable {α β : Type}

@[simp] theorem bind_eq_ok_iff {p : Except Panic α} {f : α → Except Panic β} {b : β} :
    (p >>= f) = .ok b ↔ ∃ a, p = .ok a ∧ f a = .ok b := by
  cases p with
  | error e => simp [bind, Except.bind]
  | ok a => simp [bind, Except.bind]

@[simp] theorem pure_eq_ok_iff {a b : α} : (pure a : Except Panic α) = .ok b ↔ a = b := by
  simp [pure, Except.pure]

@[simp] theorem ok_bind {a : α} {f : α → Except Panic β} : (Except.ok a >>= f) = f a := rfl

@[simp] theorem throw_ne_ok {e : Panic} {a : α} : (throw e : Except Panic α) ≠ .ok a := by
  simp [throw, throwThe, MonadExceptOf.throw]

theorem anyM_eq_ok_false_iff {l : List α} {f : α → Except Panic Bool} :
    l.anyM f = .ok false ↔ ∀ a ∈ l, f a = .ok false := by
  induction l with
  | nil => simp [List.anyM]
  | cons a l ih =>
    simp only [List.anyM, bind_eq_ok_iff, List.forall_mem_cons]
    constructor
    · rintro ⟨found, ha, hl⟩
      cases found with
      | true => simp at hl
      | false => exact ⟨ha, ih.mp hl⟩
    · rintro ⟨ha, hl⟩
      exact ⟨false, ha, ih.mpr hl⟩

/-- `Vec::swap_remove`: the element at `i`, and the others with the last one in its place. -/
def swapRemove (l : List α) (i : Nat) : Except Panic (α × List α) :=
  match l[i]?, l.getLast? with
  | some a, some last => pure (a, (l.set i last).dropLast)
  | _, _ => throw .indexOutOfBounds

theorem swapRemove_perm {l rest : List α} {i : Nat} {a : α} (h : swapRemove l i = .ok (a, rest)) :
    l[i]? = some a ∧ l.Perm (a :: rest) := by
  induction l using List.reverseRecOn with
  | nil => simp [swapRemove] at h
  | append_singleton front last _ =>
    by_cases hi : i < front.length
    · simp only [swapRemove, List.getElem?_append_left hi, List.getElem?_eq_getElem hi,
        List.getLast?_concat, List.set_append_left _ _ hi, List.dropLast_concat,
        pure_eq_ok_iff, Prod.mk.injEq] at h
      obtain ⟨rfl, rfl⟩ := h
      refine ⟨by rw [List.getElem?_append_left hi, List.getElem?_eq_getElem hi], ?_⟩
      calc front ++ [last]
        _ |>.Perm (last :: front) := List.perm_append_singleton last front
        _ |>.Perm (last :: front[i] :: front.eraseIdx i) :=
          (List.getElem_cons_eraseIdx_perm hi).symm.cons last
        _ |>.Perm (front[i] :: last :: front.eraseIdx i) := List.Perm.swap _ _ _
        _ |>.Perm (front[i] :: front.set i last) :=
          (List.set_perm_cons_eraseIdx hi last).symm.cons _
    · by_cases heq : i = front.length
      · subst heq
        simp only [swapRemove, List.getElem?_concat_length, List.getLast?_concat,
          pure_eq_ok_iff, Prod.mk.injEq] at h
        obtain ⟨rfl, rfl⟩ := h
        simp only [List.getElem?_concat_length, true_and, List.set_append_right _ _ le_rfl,
          Nat.sub_self, List.set_cons_zero, List.dropLast_concat]
        exact List.perm_append_singleton last front
      · have hnone : (front ++ [last])[i]? = none := by
          rw [List.getElem?_eq_none_iff, List.length_append, List.length_singleton]
          omega
        simp [swapRemove, hnone] at h

theorem swapRemove_eq_ok {l : List α} {i : Nat} (hi : i < l.length) :
    ∃ rest, swapRemove l i = .ok (l[i], rest) := by
  cases hlast : l.getLast? with
  | none =>
    rw [List.getLast?_eq_none_iff] at hlast
    simp [hlast] at hi
  | some last =>
    refine ⟨(l.set i last).dropLast, ?_⟩
    simp only [swapRemove, List.getElem?_eq_getElem hi, hlast]
    rfl

end Except

end Checked
