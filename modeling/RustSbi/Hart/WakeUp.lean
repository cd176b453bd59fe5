import RustSbi.Hart.ExactlyOnce

/-!
No start wake-up is lost. A starter sends the wake interrupt before it publishes
the stage, and a parked hart clears the interrupt before it looks at its state
word. So a hart that waits for an interrupt looked before the starter reserved
its cell, and the interrupt that the starter sent afterwards is still pending.
A release device wakes harts that have not entered the firmware; these have not
looked yet.
-/

namespace RustSbi.Hart

open Transition

variable {H : Type}

/-! ## Harts that have entered the firmware -/

/-- The machine with the harts that have entered the firmware. -/
structure Machine (H : Type) where
  harts : System H
  entered : H → Bool

/-- A hart enters the firmware, at the boot finisher, or takes a step in it. -/
inductive Arrival (H : Type)
  | enter (h : H)
  | hart (h : H) (choice : Choice H)

/-- The steps of the machine. `HartWake::wake` requests a hardware wake-up of a
hart that has not entered the firmware only: for any other hart it answers
false, and `wake` sends the interrupt. -/
def Machine.Step [DecidableEq H] (m : Machine H) (arrival : Arrival H) (m' : Machine H) : Prop :=
  match arrival with
  | .enter h => m' = { m with entered := Function.update m.entered h true }
  | .hart h choice =>
    m.entered h = true ∧
    (∀ target stage, m.harts.pc h = .startWake target stage → choice = .hardwareWake →
      m.entered target = false) ∧
    m.harts.Step (h, choice) m'.harts ∧ m'.entered = m.entered

/-- The machine at boot: the boot hart is in the firmware. -/
def Machine.Initial [DecidableEq H] (bootHart : H) (m : Machine H) : Prop :=
  m.harts.Initial bootHart ∧ m.entered bootHart = true

/-! ## The invariant -/

/-- The hart found its cell stopped and is about to wait, or waits. -/
def Pc.waiting : Pc H → Bool
  | .deliver .finisher .park | .parkWait => true
  | _ => false

/-- The hart has requested the wake of `target` and is about to publish. -/
def Pc.woke [DecidableEq H] (target : H) : Pc H → Bool
  | .startWrite t _ | .startPublish t _ => decide (t = target)
  | _ => false

/-- A start of the hart is published, or its wake was requested. -/
def System.Due [DecidableEq H] (s : System H) (h : H) : Prop :=
  (s.cell h).state = stateStartPending ∨ ∃ i, (s.pc i).woke h = true

structure Machine.Inv [DecidableEq H] (m : Machine H) : Prop where
  handoff : m.harts.HandoffInv
  outside : ∀ h, m.entered h = false → m.harts.pc h = .clear .finisher
  wake : ∀ h, (m.harts.pc h).waiting = true → m.harts.Due h → m.harts.pending h = true

section Steps

variable [DecidableEq H] {s s' : System H} {h i : H}

theorem not_due_of_stopped (inv : s.HandoffInv) (hstate : (s.cell h).state = stateStopped) :
    ¬ s.Due h := by
  rintro (hpending | ⟨i, hwoke⟩)
  · rw [hstate] at hpending
    revert hpending
    decide
  · have hreserves : ∃ written, (s.pc i).reserves i = some (h, written) := by
      generalize s.pc i = pc at hwoke
      cases pc <;> simp only [Pc.woke, decide_eq_true_eq, Bool.false_eq_true] at hwoke
      · subst hwoke
        exact ⟨_, rfl⟩
      · subst hwoke
        exact ⟨_, rfl⟩
    obtain ⟨written, hres⟩ := hreserves
    have hstarting := (inv.reserved i h written hres).1
    rw [hstate] at hstarting
    revert hstarting
    decide

/-- A hart that comes to wait found its cell stopped, or it waited already; it
writes neither its cell nor its interrupt. -/
theorem step_waiting {choice : Choice H} (hstep : s.Step (h, choice) s')
    (hwaiting : (s'.pc h).waiting = true) :
    s'.cell = s.cell ∧ s'.pending = s.pending ∧
      ((s.cell h).state = stateStopped ∨ (s.pc h).waiting = true) ∧
      ∀ t, (s'.pc h).woke t = false := by
  unfold System.Step at hstep
  dsimp only at hstep
  generalize hpc : s.pc h = pc at hstep
  fun_cases System.step s h pc choice
  all_goals simp only [System.step, *, if_true, if_false, Option.some.injEq, Option.map_eq_some_iff,
    reduceCtorEq] at hstep
  case case17 =>
    obtain ⟨pc', hchoice, rfl⟩ := hstep
    cases choice <;> cases hchoice <;> simp [System.goto, Pc.waiting] at hwaiting
  all_goals subst hstep
  case case7 caller =>
    simp only [System.goto, Function.update_self, afterTakeLoad] at hwaiting ⊢
    split_ifs at hwaiting ⊢ with h₁ h₂ h₃
    · simp [Pc.waiting] at hwaiting
    · simp [Pc.waiting] at hwaiting
    · exact ⟨trivial, trivial, Or.inl h₃, fun _ => rfl⟩
    · cases caller <;> simp [Pc.waiting] at hwaiting
  case case12 caller event =>
    cases caller <;> cases event <;>
      simp_all [System.goto, afterDeliver, Pc.waiting, Pc.woke]
  case case35 suspendType =>
    cases suspendType <;> simp [System.goto, afterSuspend, Pc.waiting] at hwaiting
  all_goals simp [System.goto, Pc.waiting] at hwaiting

/-- What another hart can do to a hart's start: it leaves the interrupt pending,
and a start that comes due by its step has been requested by an interrupt or in
hardware. -/
theorem step_wakes {choice : Choice H} (hstep : s.Step (i, choice) s') (hne : h ≠ i) :
    (s.pending h = true → s'.pending h = true) ∧
      ((s'.cell h).state = stateStartPending ∨ (s'.pc i).woke h = true →
        (s.cell h).state = stateStartPending ∨ (s.pc i).woke h = true ∨ s'.pending h = true ∨
          ∃ stage, s.pc i = .startWake h stage ∧ choice = .hardwareWake) := by
  unfold System.Step at hstep
  dsimp only at hstep
  generalize hpc : s.pc i = pc at hstep
  fun_cases System.step s i pc choice
  all_goals simp only [System.step, *, if_true, if_false, Option.some.injEq, Option.map_eq_some_iff,
    reduceCtorEq] at hstep
  case case17 =>
    obtain ⟨pc', hchoice, rfl⟩ := hstep
    cases choice <;> cases hchoice <;> simp +contextual [System.goto, Pc.woke]
  all_goals subst hstep
  case case7 =>
    simp only [System.goto, Function.update_self, afterTakeLoad]
    split_ifs <;> simp +contextual [Pc.woke]
  case case12 caller event =>
    cases caller <;> cases event <;> simp +contextual [System.goto, afterDeliver, Pc.woke]
  case case35 suspendType =>
    cases suspendType <;> simp +contextual [System.goto, afterSuspend, Pc.woke]
  case case18 target _ _ | case20 target _ | case21 target _ | case23 target | case24 target _
      | case25 target _ =>
    by_cases htarget : h = target
    · subst htarget
      simp +decide +contextual [System.goto, System.store, System.setStage, System.setPending, System.record,
        Pc.woke]
    · simp +contextual [System.goto, System.store, System.setStage, System.setPending, System.record, Pc.woke,
        htarget, Ne.symm htarget]
  all_goals simp +contextual [System.goto, System.store, System.setStage, System.setPending, System.record,
    System.setTransfer, System.setTicket, Pc.woke, hne]

theorem due_of_step {choice : Choice H} (hstep : s.Step (i, choice) s') (hne : h ≠ i)
    (hdue : s'.Due h) :
    s.Due h ∨ s'.pending h = true ∨ ∃ stage, s.pc i = .startWake h stage ∧ choice = .hardwareWake := by
  -- Only the stepping hart's own request, or the cell, can have changed.
  have hsplit : s.Due h ∨ (s'.cell h).state = stateStartPending ∨ (s'.pc i).woke h = true := by
    rcases hdue with hstate | ⟨j, hwoke⟩
    · exact Or.inr (Or.inl hstate)
    · by_cases hj : j = i
      · subst hj
        exact Or.inr (Or.inr hwoke)
      · rw [step_pc_other hstep hj] at hwoke
        exact Or.inl (Or.inr ⟨j, hwoke⟩)
  rcases hsplit with hdue | hlocal
  · exact Or.inl hdue
  · rcases (step_wakes hstep hne).2 hlocal with hstate | hwoke | hpending | hhardware
    · exact Or.inl (Or.inl hstate)
    · exact Or.inl (Or.inr ⟨i, hwoke⟩)
    · exact Or.inr (Or.inl hpending)
    · exact Or.inr (Or.inr hhardware)

end Steps

section Invariant

variable [DecidableEq H] {m m' : Machine H} {bootHart : H}

theorem machine_inv_initial (h : m.Initial bootHart) : m.Inv := by
  obtain ⟨hinit, hentered⟩ := h
  have inv := handoffInv_initial hinit
  obtain ⟨⟨stage, hboot⟩, hothers, -⟩ := hinit
  refine ⟨inv, ?_, ?_⟩
  · intro h hout
    apply hothers
    rintro rfl
    rw [hentered] at hout
    cases hout
  · intro h hwaiting
    by_cases hh : h = bootHart
    · rw [hh, hboot] at hwaiting
      cases hwaiting
    · rw [hothers h hh] at hwaiting
      cases hwaiting

theorem machine_inv_step (inv : m.Inv) {arrival : Arrival H} (hstep : m.Step arrival m') :
    m'.Inv := by
  cases arrival with
  | enter h =>
    cases hstep
    refine ⟨inv.handoff, fun t hout => ?_, inv.wake⟩
    by_cases hth : t = h
    · subst hth
      simp at hout
    · exact inv.outside t (by simpa [hth] using hout)
  | hart i choice =>
    obtain ⟨hin, hdevice, hstep, hentered⟩ := hstep
    refine ⟨handoffInv_step inv.handoff hstep, fun t hout => ?_, fun h hwaiting hdue => ?_⟩
    · rw [hentered] at hout
      have hti : t ≠ i := by
        rintro rfl
        rw [hin] at hout
        cases hout
      rw [step_pc_other hstep hti]
      exact inv.outside t hout
    · by_cases hhi : h = i
      · subst hhi
        obtain ⟨hcell, hpending, hbefore, hfree⟩ := step_waiting hstep hwaiting
        have hdue' : m.harts.Due h := by
          rcases hdue with hstate | ⟨j, hwoke⟩
          · exact Or.inl (hcell ▸ hstate)
          · by_cases hj : j = h
            · subst hj
              rw [hfree] at hwoke
              cases hwoke
            · rw [step_pc_other hstep hj] at hwoke
              exact Or.inr ⟨j, hwoke⟩
        rw [hpending]
        rcases hbefore with hstopped | hbefore
        · exact absurd hdue' (not_due_of_stopped inv.handoff hstopped)
        · exact inv.wake h hbefore hdue'
      · rw [step_pc_other hstep hhi] at hwaiting
        rcases due_of_step hstep hhi hdue with hbefore | hpending | ⟨stage, hpc, hhardware⟩
        · exact (step_wakes hstep hhi).1 (inv.wake h hwaiting hbefore)
        · exact hpending
        · -- A hart that a release device wakes has not looked at its cell yet.
          rw [inv.outside h (hdevice h stage hpc hhardware)] at hwaiting
          cases hwaiting

end Invariant

/-- In every state that the machine reaches, a hart that waits for an interrupt
in the boot finisher or in an interrupt transport, with a published start in its
cell, has its wake interrupt pending. -/
theorem no_lost_wake [DecidableEq H] {bootHart : H} {m : Machine H}
    (hreach : Reachable (Machine.Initial bootHart) Machine.Step m) (h : H)
    (hwait : m.harts.pc h = .parkWait ∨ m.harts.pc h = .interruptWait)
    (hstart : (m.harts.cell h).state = stateStartPending) : m.harts.pending h = true := by
  have inv : m.Inv :=
    hreach.invariant (fun _ => machine_inv_initial) fun _ _ _ inv hstep => machine_inv_step inv hstep
  rcases hwait with hpark | hinterrupt
  · exact inv.wake h (by rw [hpark]; rfl) (Or.inl hstart)
  · have howner := inv.handoff.owner h
    rw [hinterrupt] at howner
    exact howner.elim

/-- A run of the lifecycle without hardware wake-ups is a run of the machine
when all its harts are in the firmware. -/
theorem machineRun_of_run [DecidableEq H] {s s' : System H} {labels : List (H × Choice H)}
    (hrun : Run System.Step s labels s') (hipi : ∀ label ∈ labels, label.2 ≠ .hardwareWake) :
    Run Machine.Step ⟨s, fun _ => true⟩ (labels.map fun label => .hart label.1 label.2)
      ⟨s', fun _ => true⟩ := by
  induction hrun with
  | nil s => exact .nil _
  | @cons s s₁ s' label labels hstep _ ih =>
    have hlabel := hipi label List.mem_cons_self
    have hmachine : Machine.Step ⟨s, fun _ => true⟩ (.hart label.1 label.2)
        ⟨s₁, fun _ => true⟩ :=
      ⟨rfl, fun _ _ _ hhardware => absurd hhardware hlabel, hstep, rfl⟩
    refine .cons hmachine (ih ?_)
    intro label' hmem
    exact hipi label' (List.mem_cons_of_mem label hmem)

set_option maxRecDepth 8000 in
/-- A hart parks; the boot hart then starts it, and the interrupt is pending. -/
theorem no_lost_wake_two_harts :
    ∃ m : Machine Bool, Reachable (Machine.Initial false) Machine.Step m ∧
      m.harts.pc true = .parkWait ∧ (m.harts.cell true).state = stateStartPending ∧
      m.harts.pending true = true := by
  let labels : List (Bool × Choice Bool) :=
    List.replicate 3 (true, .proceed) ++ List.replicate 9 (false, .proceed) ++
      (false, .hartStart true ⟨0x80200000, 7, .supervisor⟩) :: List.replicate 4 (false, .proceed)
  let init : System Bool :=
    { cell := fun _ => .new
      pc := fun h => if h then .clear .finisher else .stageReserve ⟨0x80200000, 1, .supervisor⟩
      ticket := fun _ => none
      pending := fun _ => false
      history := fun _ => [] }
  have hinit : init.Initial false :=
    ⟨⟨_, rfl⟩, fun h hne => by cases h <;> [exact absurd rfl hne; rfl], fun h => ⟨rfl, rfl, rfl⟩⟩
  obtain ⟨s, hexec, hwait, hstart⟩ : ∃ s, init.exec labels = some s ∧ s.pc true = .parkWait ∧
      (s.cell true).state = stateStartPending := ⟨_, rfl, rfl, rfl⟩
  have hreach : Reachable (Machine.Initial false) Machine.Step ⟨s, fun _ => true⟩ :=
    ⟨⟨init, fun _ => true⟩, _, ⟨hinit, rfl⟩, machineRun_of_run (run_of_exec hexec) (by decide)⟩
  exact ⟨_, hreach, hwait, hstart, no_lost_wake hreach true (Or.inl hwait) hstart⟩

end RustSbi.Hart
