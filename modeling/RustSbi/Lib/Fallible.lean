import RustSbi.Lib.Checked

/-!
Computations that may panic and otherwise return a value or an error, and the
rules for showing that one never panics and what the values it returns satisfy.
-/

namespace Checked

/-- A computation that returns an `α` or an error `ε`, or panics. -/
abbrev Fallible (ε α : Type) := ExceptT ε (Except Panic) α

/-! ## Unsigned operations of a given width -/

/-- `a + b` on integers of `w` bits. -/
def addUnsigned (w a b : Nat) : Except Panic Nat :=
  if a + b < 2 ^ w then .ok (a + b) else .error .addOverflow

/-- `a - b`. -/
def subUnsigned (a b : Nat) : Except Panic Nat :=
  if b ≤ a then .ok (a - b) else .error .subtractUnderflow

/-- `a << n` on integers of `w` bits, which loses the bits shifted out. -/
def shlUnsigned (w a n : Nat) : Except Panic Nat :=
  if n < w then .ok (a * 2 ^ n % 2 ^ w) else .error .shiftOverflow

/-- `a >> n` on integers of `w` bits. -/
def shrUnsigned (w a n : Nat) : Except Panic Nat :=
  if n < w then .ok (a / 2 ^ n) else .error .shiftOverflow

/-! ## Acceptance -/

section Accepts

variable {ε α β : Type} {Q R : α → Prop}

/-- The computation does not panic, and a value that it returns satisfies `Q`. -/
def Accepts (p : Fallible ε α) (Q : α → Prop) : Prop :=
  ∃ r : Except ε α, p = Except.ok r ∧ ∀ a, r = .ok a → Q a

theorem Accepts.mono {p : Fallible ε α} (h : Accepts p Q) (hQR : ∀ a, Q a → R a) : Accepts p R := by
  obtain ⟨r, hrun, hQ⟩ := h
  exact ⟨r, hrun, fun a ha => hQR a (hQ a ha)⟩

/-- What is known of the values holds of the one returned. -/
theorem Accepts.of_ok {p : Fallible ε α} (h : Accepts p Q) {a : α} (ha : p = Except.ok (.ok a)) :
    Q a := by
  obtain ⟨r, hrun, hQ⟩ := h
  cases hrun.symm.trans ha
  exact hQ a rfl

@[simp] theorem accepts_pure {a : α} : Accepts (pure a : Fallible ε α) Q ↔ Q a := by
  constructor
  · exact fun h => h.of_ok rfl
  · intro hQ
    refine ⟨.ok a, rfl, fun b hb => ?_⟩
    cases hb
    exact hQ

@[simp] theorem accepts_throw {e : ε} : Accepts (throw e : Fallible ε α) Q :=
  ⟨.error e, rfl, nofun⟩

@[simp] theorem accepts_bind {p : Fallible ε α} {f : α → Fallible ε β} {T : β → Prop} :
    Accepts (p >>= f) T ↔ Accepts p fun a => Accepts (f a) T := by
  have herror : ∀ e : ε, p = Except.ok (.error e) → p >>= f = Except.ok (.error e) := by
    rintro e rfl
    rfl
  have hok : ∀ a, p = Except.ok (.ok a) → p >>= f = f a := by
    rintro a rfl
    rfl
  constructor
  · rintro ⟨r, hrun, hT⟩
    rcases hp : p with e | e | a
    · subst hp
      cases hrun
    · exact ⟨.error e, rfl, nofun⟩
    · refine ⟨.ok a, rfl, fun b hb => ?_⟩
      cases hb
      exact ⟨r, (hok a hp).symm.trans hrun, hT⟩
  · rintro ⟨e | a, hrun, hQ⟩
    · exact ⟨.error e, herror e hrun, nofun⟩
    · rw [hok a hrun]
      exact hQ a rfl

/-- `?` on a result. -/
@[simp] theorem accepts_liftResult {r : Except ε α} :
    Accepts (liftM r : Fallible ε α) Q ↔ ∀ a, r = .ok a → Q a := by
  constructor
  · rintro ⟨r', hrun, hQ⟩
    cases hrun
    exact hQ
  · exact fun hQ => ⟨r, rfl, hQ⟩

/-- An operation that may panic. -/
@[simp] theorem accepts_liftPanic {x : Except Panic α} :
    Accepts (liftM x : Fallible ε α) Q ↔ ∃ a, x = .ok a ∧ Q a := by
  cases x with
  | error e =>
    refine iff_of_false ?_ (by simp)
    rintro ⟨r, hrun, -⟩
    cases hrun
  | ok a =>
    constructor
    · exact fun h => ⟨a, rfl, h.of_ok rfl⟩
    · rintro ⟨_, ⟨⟩, hQ⟩
      exact ⟨.ok a, rfl, fun b hb => by cases hb; exact hQ⟩

end Accepts

section Operations

variable {w a b n : Nat}

theorem addUnsigned_eq (h : a + b < 2 ^ w) : addUnsigned w a b = .ok (a + b) := if_pos h

theorem subUnsigned_eq (h : b ≤ a) : subUnsigned a b = .ok (a - b) := if_pos h

/-- A shift that keeps every bit. -/
theorem shlUnsigned_eq (hn : n < w) (h : a * 2 ^ n < 2 ^ w) : shlUnsigned w a n = .ok (a * 2 ^ n) := by
  rw [shlUnsigned, if_pos hn, Nat.mod_eq_of_lt h]

theorem shrUnsigned_eq (hn : n < w) : shrUnsigned w a n = .ok (a / 2 ^ n) := if_pos hn

end Operations

end Checked
