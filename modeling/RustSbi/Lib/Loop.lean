import Mathlib.Tactic

/-!
Loops whose body goes on from a new state or stops with a result. A measure that
every further state lowers makes the loop a total function, with its own unfolding
equation and its own induction.
-/

namespace Loop

variable {σ ρ : Type}

/-- The loop with a bound on its remaining rounds. -/
def go (step : σ → σ ⊕ ρ) (measure : σ → Nat)
    (decreases : ∀ s s', step s = .inl s' → measure s' < measure s) :
    (fuel : Nat) → (s : σ) → measure s < fuel → ρ
  | 0, _, h => absurd h (Nat.not_lt_zero _)
  | fuel + 1, s, h =>
    match hstep : step s with
    | .inl s' => go step measure decreases fuel s' (by have := decreases s s' hstep; omega)
    | .inr result => result

/-- `loop { ... }` from a state. -/
def run (step : σ → σ ⊕ ρ) (measure : σ → Nat)
    (decreases : ∀ s s', step s = .inl s' → measure s' < measure s) (s : σ) : ρ :=
  go step measure decreases (measure s + 1) s (Nat.lt_succ_self _)

section

variable {step : σ → σ ⊕ ρ} {measure : σ → Nat}
  {decreases : ∀ s s', step s = .inl s' → measure s' < measure s}

theorem go_of_inr {fuel : Nat} {s : σ} {result : ρ} (h : measure s < fuel)
    (hstep : step s = .inr result) : go step measure decreases fuel s h = result := by
  cases fuel with
  | zero => exact absurd h (Nat.not_lt_zero _)
  | succ fuel =>
    unfold go
    split
    · next heq => rw [hstep] at heq; cases heq
    · next heq => rw [hstep] at heq; cases heq; rfl

theorem go_of_inl {fuel : Nat} {s s' : σ} (h : measure s < fuel + 1) (hstep : step s = .inl s')
    (h' : measure s' < fuel) :
    go step measure decreases (fuel + 1) s h = go step measure decreases fuel s' h' := by
  rw [go]
  split
  · next heq => rw [hstep] at heq; cases heq; rfl
  · next heq => rw [hstep] at heq; cases heq

/-- The bound does not matter once it is large enough. -/
theorem go_congr {m n : Nat} {s : σ} (hm : measure s < m) (hn : measure s < n) :
    go step measure decreases m s hm = go step measure decreases n s hn := by
  induction m generalizing n s with
  | zero => exact absurd hm (Nat.not_lt_zero _)
  | succ m ih =>
    cases n with
    | zero => exact absurd hn (Nat.not_lt_zero _)
    | succ n =>
      cases hstep : step s with
      | inr result => rw [go_of_inr hm hstep, go_of_inr hn hstep]
      | inl s' =>
        have hlt := decreases s s' hstep
        rw [go_of_inl hm hstep (by omega), go_of_inl hn hstep (by omega)]
        exact ih (by omega) (by omega)

theorem run_of_inr {s : σ} {result : ρ} (h : step s = .inr result) :
    run step measure decreases s = result :=
  go_of_inr (Nat.lt_succ_self _) h

theorem run_of_inl {s s' : σ} (h : step s = .inl s') :
    run step measure decreases s = run step measure decreases s' := by
  have hlt := decreases s s' h
  rw [run, go_of_inl (Nat.lt_succ_self _) h hlt]
  exact go_congr hlt (Nat.lt_succ_self _)

/-- What follows at a state from the same at the next one holds at every state. -/
theorem induction (decreases : ∀ s s', step s = .inl s' → measure s' < measure s)
    {motive : σ → Prop} (hstep : ∀ s, (∀ s', step s = .inl s' → motive s') → motive s) (s : σ) :
    motive s := by
  induction hn : measure s using Nat.strong_induction_on generalizing s with
  | _ n ih => exact hstep s fun s' hs' => ih (measure s') (hn ▸ decreases s s' hs') s' rfl

end

end Loop
