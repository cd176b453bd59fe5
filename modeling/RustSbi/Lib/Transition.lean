import Mathlib.Tactic

/-!
Runs of a labelled transition relation. An invariant is proved once for a
step and then holds along every run; a rank that the steps of one party lower
bounds how many of its steps a pending obligation can survive.
-/

namespace Transition

variable {S A : Type}

/-- The runs of a transition relation, with the labels of their steps. -/
inductive Run (step : S → A → S → Prop) : S → List A → S → Prop
  | nil (s : S) : Run step s [] s
  | cons {s s' s'' : S} {a : A} {as : List A} (hstep : step s a s') (hrun : Run step s' as s'') :
      Run step s (a :: as) s''

/-- A state in which some run from an initial state ends. -/
def Reachable (init : S → Prop) (step : S → A → S → Prop) (s : S) : Prop :=
  ∃ s₀ as, init s₀ ∧ Run step s₀ as s

variable {step : S → A → S → Prop} {P Q : S → Prop}

/-- What holds at the start of a run and is kept by every step holds at its end. -/
theorem Run.invariant (hkeep : ∀ s a s', P s → step s a s' → P s') {s s' : S} {as : List A}
    (hrun : Run step s as s') (hP : P s) : P s' := by
  induction hrun with
  | nil s => exact hP
  | cons hstep _ ih => exact ih (hkeep _ _ _ hP hstep)

theorem Run.mono {step' : S → A → S → Prop} (himp : ∀ s a s', step s a s' → step' s a s')
    {s s' : S} {as : List A} (hrun : Run step s as s') : Run step' s as s' := by
  induction hrun with
  | nil s => exact .nil s
  | cons hstep _ ih => exact .cons (himp _ _ _ hstep) ih

theorem Run.forall_label {p : A → Prop} (hlabel : ∀ s a s', step s a s' → p a) {s s' : S}
    {as : List A} (hrun : Run step s as s') : ∀ a ∈ as, p a := by
  induction hrun with
  | nil s => simp
  | cons hstep _ ih =>
    rintro a (_ | ⟨_, ha⟩)
    · exact hlabel _ _ _ hstep
    · exact ih a ha

/-- A condition that every label of a run meets in any state holds at each of its steps. -/
theorem Run.and_label {p : S → A → Prop} {s s' : S} {as : List A} (hrun : Run step s as s')
    (hlabel : ∀ a ∈ as, ∀ s, p s a) : Run (fun s a s' => step s a s' ∧ p s a) s as s' := by
  induction hrun with
  | nil s => exact .nil s
  | cons hstep _ ih =>
    have hfirst := hlabel _ List.mem_cons_self
    have hrest := fun a ha => hlabel a (List.mem_cons_of_mem _ ha)
    exact .cons ⟨hstep, hfirst _⟩ (ih hrest)

theorem Run.append {s s' s'' : S} {as bs : List A} (hrun : Run step s as s')
    (hrun' : Run step s' bs s'') : Run step s (as ++ bs) s'' := by
  induction hrun with
  | nil s => exact hrun'
  | cons hstep _ ih => exact .cons hstep (ih hrun')

/-- A run is executed one label at a time. -/
theorem Run.of_foldlM {e : S → A → Option S} (hexec : ∀ s a s', e s a = some s' → step s a s')
    {s s' : S} {as : List A} (h : as.foldlM e s = some s') : Run step s as s' := by
  induction as generalizing s with
  | nil =>
    simp only [List.foldlM_nil, Option.pure_def, Option.some.injEq] at h
    exact h ▸ .nil s
  | cons a as ih =>
    rw [List.foldlM_cons, Option.bind_eq_bind, Option.bind_eq_some_iff] at h
    obtain ⟨s₁, hstep, hrest⟩ := h
    exact .cons (hexec s a s₁ hstep) (ih hrest)

theorem Reachable.invariant {init : S → Prop} (hinit : ∀ s, init s → P s)
    (hkeep : ∀ s a s', P s → step s a s' → P s') {s : S} (h : Reachable init step s) : P s := by
  obtain ⟨s₀, as, hs₀, hrun⟩ := h
  exact hrun.invariant hkeep (hinit s₀ hs₀)

theorem Reachable.run {init : S → Prop} {s s' : S} {as : List A}
    (h : Reachable init step s) (hrun : Run step s as s') : Reachable init step s' := by
  obtain ⟨s₀, bs, hs₀, hrun₀⟩ := h
  exact ⟨s₀, bs ++ as, hs₀, hrun₀.append hrun⟩

/-- A goal that holds once reached is reached when the party on which it waits
takes more steps than the rank of the first state: its own steps lower the rank
and no other step raises it. -/
theorem Run.reaches_of_rank (own : A → Bool) (rank : S → Nat)
    (hgoal : ∀ s a s', Q s → step s a s' → Q s')
    (hown : ∀ s a s', P s → step s a s' → own a = true → Q s' ∨ (P s' ∧ rank s' < rank s))
    (hother : ∀ s a s', P s → step s a s' → own a = false → Q s' ∨ (P s' ∧ rank s' ≤ rank s))
    {s s' : S} {as : List A} (hrun : Run step s as s') (hP : P s)
    (hsteps : rank s < as.countP own) : Q s' := by
  induction hrun with
  | nil s => simp at hsteps
  | @cons s s₁ s' a as hstep hrest ih =>
    have hdone : Q s₁ → Q s' := fun hQ => hrest.invariant hgoal hQ
    cases ha : own a with
    | true =>
      rw [List.countP_cons_of_pos ha] at hsteps
      rcases hown s a s₁ hP hstep ha with hQ | ⟨hP₁, hlt⟩
      · exact hdone hQ
      · exact ih hP₁ (by omega)
    | false =>
      rw [List.countP_cons_of_neg (by simp [ha])] at hsteps
      rcases hother s a s₁ hP hstep ha with hQ | ⟨hP₁, hle⟩
      · exact hdone hQ
      · exact ih hP₁ (by omega)

/-- A goal that need not last is passed on the way, when the party on which it
waits takes more steps than the rank of the first state. -/
theorem Run.passes_of_rank (own : A → Bool) (rank : S → Nat)
    (hown : ∀ s a s', P s → step s a s' → own a = true → Q s' ∨ (P s' ∧ rank s' < rank s))
    (hother : ∀ s a s', P s → step s a s' → own a = false → Q s' ∨ (P s' ∧ rank s' ≤ rank s))
    {s s' : S} {as : List A} (hrun : Run step s as s') (hP : P s)
    (hsteps : rank s < as.countP own) :
    ∃ bs cs s₁, as = bs ++ cs ∧ Run step s bs s₁ ∧ Q s₁ ∧ Run step s₁ cs s' := by
  induction hrun with
  | nil s => simp at hsteps
  | @cons s s₁ s' a as hstep hrest ih =>
    have hgo : P s₁ → rank s₁ < as.countP own →
        ∃ bs cs s₂, a :: as = bs ++ cs ∧ Run step s bs s₂ ∧ Q s₂ ∧ Run step s₂ cs s' := by
      intro hP₁ hlt
      obtain ⟨bs, cs, s₂, rfl, hpre, hQ, hpost⟩ := ih hP₁ hlt
      exact ⟨a :: bs, cs, s₂, rfl, .cons hstep hpre, hQ, hpost⟩
    have hdone : Q s₁ → ∃ bs cs s₂, a :: as = bs ++ cs ∧ Run step s bs s₂ ∧ Q s₂ ∧ Run step s₂ cs s' :=
      fun hQ => ⟨[a], as, s₁, rfl, .cons hstep (.nil s₁), hQ, hrest⟩
    cases ha : own a with
    | true =>
      rw [List.countP_cons_of_pos ha] at hsteps
      rcases hown s a s₁ hP hstep ha with hQ | ⟨hP₁, hlt⟩
      · exact hdone hQ
      · exact hgo hP₁ (by omega)
    | false =>
      rw [List.countP_cons_of_neg (by simp [ha])] at hsteps
      rcases hother s a s₁ hP hstep ha with hQ | ⟨hP₁, hle⟩
      · exact hdone hQ
      · exact hgo hP₁ (by omega)

end Transition
