import RustSbi.Hart.Handoff

/-!
The lifecycle state of a hart that is below M-mode. A hart that left M-mode is
started and holds no marker and no ticket, in every run in which no resume
ticket fails to send its own wake interrupt. A ticket whose send fails puts the
cell back to suspended and returns to the supervisor all the same.
-/

namespace RustSbi.Hart

open Transition

variable {H : Type}

/-- The state word of a running hart, by where it is. -/
def Pc.runningState : Pc H → UInt8
  | .suspendWait _ | .resumeRetentive | .beginResume _ => stateSuspended
  | .resetCurrent | .commitSend | .commitMark | .commitStore => stateResumePending
  | _ => stateStarted

/-- The hart owns a resume ticket there. -/
def Pc.holdsTicket : Pc H → Bool
  | .resetCurrent | .commitSend | .commitMark | .commitStore => true
  | _ => false

/-- A transfer marker can be pending there. -/
def Pc.mayTransfer : Pc H → Bool
  | .commitStore | .takeTransfer _ => true
  | _ => false

/-- What holds of a hart's own words. -/
structure System.ExitInv (s : System H) (h : H) : Prop where
  state : (s.pc h).region = .running → (s.cell h).state = (s.pc h).runningState
  transfer : (s.pc h).mayTransfer = false → (s.cell h).transfer = none
  ticket : (s.pc h).holdsTicket = false → s.ticket h = none
  noDrop : s.pc h ≠ .ticketDrop

variable [DecidableEq H] {s s' : System H} {h i : H}

/-- A step in which the self-wake of a resume ticket does not fail. -/
def System.CommitStep (s : System H) (label : H × Choice H) (s' : System H) : Prop :=
  s.Step label s' ∧ ¬ (s.pc label.1 = .commitSend ∧ label.2 = .fail)

theorem exitInv_initial {bootHart : H} (hinit : s.Initial bootHart) (h : H) : s.ExitInv h := by
  obtain ⟨⟨stage, hboot⟩, hothers, hcells⟩ := hinit
  have hpc : s.pc h = .stageReserve stage ∨ s.pc h = .clear .finisher := by
    by_cases hh : h = bootHart
    · subst hh
      exact Or.inl hboot
    · exact Or.inr (hothers h hh)
  obtain ⟨hcell, hticket, -⟩ := hcells h
  constructor
  · rcases hpc with hpc | hpc <;> rw [hpc] <;> exact Region.noConfusion
  · intro _
    rw [hcell]
    rfl
  · intro _
    exact hticket
  · rcases hpc with hpc | hpc <;> rw [hpc] <;> simp

/-- Nobody writes the marker or the ticket of another hart. -/
theorem step_marker_other {choice : Choice H} (hstep : s.Step (i, choice) s') (hne : h ≠ i) :
    (s'.cell h).transfer = (s.cell h).transfer ∧ s'.ticket h = s.ticket h ∧ s'.pc h = s.pc h := by
  have hupdate : ∀ (t : H) (cell : HartStateCell), cell.transfer = (s.cell t).transfer →
      (Function.update s.cell t cell h).transfer = (s.cell h).transfer := by
    intro t cell hcell
    by_cases hht : h = t
    · subst hht
      rw [Function.update_self, hcell]
    · rw [Function.update_of_ne hht]
  unfold System.Step at hstep
  dsimp only at hstep
  generalize s.pc i = pc at hstep
  fun_cases System.step s i pc choice
  all_goals simp only [System.step, *, if_true, if_false, Option.some.injEq, Option.map_eq_some_iff,
    reduceCtorEq] at hstep
  case case17 =>
    obtain ⟨pc', -, rfl⟩ := hstep
    simp [System.goto, hne]
  all_goals subst hstep
  case case43 | case46 => simp [System.goto, System.setTransfer, hne]
  all_goals
    refine ⟨?_, by simp [System.goto, System.store, System.setStage, System.record,
      System.setPending, System.setTicket, hne], by simp [System.goto, System.store,
      System.setStage, System.record, System.setPending, System.setTicket, hne]⟩
    first
      | rfl
      | exact hupdate _ _ rfl

/-- A step of the hart itself keeps its words in line with where it is. -/
theorem exitInv_own (inv : s.HandoffInv) (hexit : s.ExitInv h) {choice : Choice H}
    (hstep : s.CommitStep (h, choice) s') : s'.ExitInv h := by
  obtain ⟨hstep, hcommit⟩ := hstep
  have howner := inv.owner h
  obtain ⟨hstate, htransfer, hticket, hnoDrop⟩ := hexit
  unfold System.Step at hstep
  dsimp only at hstep hcommit
  generalize hpc : s.pc h = pc at hstep hcommit hstate htransfer hticket hnoDrop
  rw [hpc] at howner
  fun_cases System.step s h pc choice
  all_goals simp only [System.step, *, if_true, if_false, Option.some.injEq, Option.map_eq_some_iff,
    reduceCtorEq] at hstep
  case case17 =>
    obtain ⟨pc', hchoice, rfl⟩ := hstep
    cases choice <;> cases hchoice <;> constructor <;>
      simp_all [System.goto, Pc.region, Pc.runningState, Pc.mayTransfer, Pc.holdsTicket]
  all_goals subst hstep
  case case5 caller | case6 caller =>
    cases caller <;> constructor <;> simp_all [System.goto, System.setPending, Pc.region,
      Pc.runningState, Pc.mayTransfer, Pc.holdsTicket]
  case case7 caller =>
    cases caller with
    | finisher =>
      rcases howner with ⟨hword, -⟩ | hword | ⟨hword, -⟩ <;> constructor <;>
        simp_all +decide [System.goto, afterTakeLoad, Pc.region, Pc.mayTransfer, Pc.holdsTicket]
    | interrupt =>
      have hword : (s.cell h).state = stateStarted := hstate rfl
      constructor <;> simp_all +decide [System.goto, afterTakeLoad, Pc.region, Pc.runningState,
        Pc.mayTransfer, Pc.holdsTicket]
  case case8 caller _ | case9 caller _ | case10 caller _ _ | case11 caller _ =>
    cases caller <;> constructor <;> simp_all [System.goto, System.store, System.setStage,
      System.record, Pc.region, Pc.runningState, Pc.mayTransfer, Pc.holdsTicket, OwnerInv]
  case case12 caller event =>
    cases caller <;> cases event <;> constructor <;> simp_all [System.goto, afterDeliver,
      Pc.region, Pc.runningState, Pc.mayTransfer, Pc.holdsTicket, OwnerInv]
  case case35 suspendType =>
    cases suspendType <;> constructor <;> simp_all [System.goto, afterSuspend, Pc.region,
      Pc.runningState, Pc.mayTransfer, Pc.holdsTicket]
  case case18 target stage hstopped =>
    have hne : h ≠ target := by
      rintro rfl
      exact (HartStateCell.Runs.state_ne howner).2 hstopped
    constructor <;> simp_all [System.goto, System.store, Pc.region, Pc.runningState,
      Pc.mayTransfer, Pc.holdsTicket]
  case case23 target | case24 target _ | case25 target _ =>
    have hne : h ≠ target := inv.held_ne (by rw [hpc]; rfl) howner
    constructor <;> simp_all [System.goto, System.store, System.setStage, System.record,
      Pc.region, Pc.runningState, Pc.mayTransfer, Pc.holdsTicket]
  case case14 => exact howner.elim
  all_goals constructor <;> simp_all [System.goto, System.store, System.setStage, System.record,
    System.setPending, System.setTransfer, System.setTicket, Pc.region, Pc.runningState,
    Pc.mayTransfer, Pc.holdsTicket]

theorem exitInv_other (inv : s.HandoffInv) (hexit : s.ExitInv h) {choice : Choice H}
    (hstep : s.Step (i, choice) s') (hne : h ≠ i) : s'.ExitInv h := by
  obtain ⟨htransfer, hticket, hpc⟩ := step_marker_other hstep hne
  constructor
  · rw [hpc]
    intro hregion
    have howner := inv.owner h
    rw [hregion] at howner
    have hphase : (s.cell h).phase ≠ .idle := by
      rw [HartStateCell.Runs.phase_eq howner]
      exact Phase.noConfusion
    rw [(step_frame inv hstep hne hphase).1]
    exact hexit.state hregion
  · rw [hpc, htransfer]
    exact hexit.transfer
  · rw [hpc, hticket]
    exact hexit.ticket
  · rw [hpc]
    exact hexit.noDrop

/-- What every state of a run holds in which no ticket fails to send. -/
theorem exitInv_of_reachable {bootHart : H}
    (hreach : Reachable (System.Initial bootHart) System.CommitStep s) (h : H) : s.ExitInv h := by
  have hboth : s.HandoffInv ∧ ∀ h, s.ExitInv h := by
    refine hreach.invariant (P := fun s => s.HandoffInv ∧ ∀ h, s.ExitInv h)
      (fun s₀ hinit => ⟨handoffInv_initial hinit, exitInv_initial hinit⟩) ?_
    rintro s₁ ⟨i, choice⟩ s₂ ⟨inv, hexit⟩ hstep
    refine ⟨handoffInv_step inv hstep.1, fun h => ?_⟩
    by_cases hi : h = i
    · subst hi
      exact exitInv_own inv (hexit h) hstep
    · exact exitInv_other inv (hexit h) hstep.1 hi
  exact hboth.2 h

/-- A failed send of a resume ticket leads below M-mode with the cell suspended. -/
theorem commit_failure_leaves_suspended (hpc : s.pc h = .commitSend) :
    ∃ s', Run System.Step s [(h, .fail), (h, .proceed), (h, .proceed), (h, .proceed)] s' ∧
      s'.pc h = .lower ∧ (s'.cell h).state = stateSuspended := by
  obtain ⟨s', hexec, hlower, hstate⟩ : ∃ s',
      s.exec [(h, .fail), (h, .proceed), (h, .proceed), (h, .proceed)] = some s' ∧
        s'.pc h = .lower ∧ (s'.cell h).state = stateSuspended := by
    simp [System.exec, System.step, hpc, System.goto, System.store, System.setTicket,
      System.setTransfer]
  exact ⟨s', run_of_exec hexec, hlower, hstate⟩

/-- In every run in which no resume ticket fails to send its wake interrupt, a
hart below M-mode is started and holds neither a transfer marker nor a ticket;
and wherever a ticket can send, its failure takes the hart below M-mode with
the cell suspended. -/
theorem lower_hart_started (bootHart : H) :
    (∀ s : System H, Reachable (System.Initial bootHart) System.CommitStep s →
      ∀ h, s.pc h = .lower → (s.cell h).state = stateStarted ∧ (s.cell h).transfer = none ∧
        s.ticket h = none) ∧
    (∀ s : System H, Reachable (System.Initial bootHart) System.Step s →
      ∀ h, s.pc h = .commitSend →
        ∃ labels s', Run System.Step s labels s' ∧ Reachable (System.Initial bootHart) System.Step s' ∧
          s'.pc h = .lower ∧ (s'.cell h).state = stateSuspended) := by
  constructor
  · intro s hreach h hpc
    have hexit := exitInv_of_reachable hreach h
    have hstate := hexit.state (by rw [hpc]; rfl)
    rw [hpc] at hstate
    exact ⟨hstate, hexit.transfer (by rw [hpc]; rfl), hexit.ticket (by rw [hpc]; rfl)⟩
  · intro s hreach h hpc
    obtain ⟨s', hrun, hlower, hstate⟩ := commit_failure_leaves_suspended hpc
    exact ⟨_, s', hrun, hreach.run hrun, hlower, hstate⟩

/-- One hart at boot. -/
def oneHart : System Unit where
  cell := fun _ => .new
  pc := fun _ => .stageReserve ⟨0x80200000, 1, .supervisor⟩
  ticket := fun _ => none
  pending := fun _ => false
  history := fun _ => []

theorem oneHart_initial : oneHart.Initial () :=
  ⟨⟨_, rfl⟩, fun _ hne => absurd rfl hne, fun _ => ⟨rfl, rfl, rfl⟩⟩

/-- The steps of one hart from boot to the send of its resume ticket. -/
def oneHartSuspends : List (Unit × Choice Unit) :=
  List.replicate 9 ((), .proceed) ++
    ((), .hartSuspend (.nonRetentive ⟨0x80300000, 2, .supervisor⟩)) ::
    List.replicate 6 ((), .proceed)

set_option maxRecDepth 4000 in
theorem lower_hart_started_one_hart :
    ∃ s : System Unit, Reachable (System.Initial ()) System.Step s ∧ s.pc () = .commitSend ∧
      ∃ labels s', Run System.Step s labels s' ∧ s'.pc () = .lower ∧
        (s'.cell ()).state = stateSuspended := by
  obtain ⟨s, hexec, hpc⟩ : ∃ s, oneHart.exec oneHartSuspends = some s ∧ s.pc () = .commitSend :=
    ⟨_, rfl, rfl⟩
  have hreach : Reachable (System.Initial ()) System.Step s :=
    ⟨oneHart, _, oneHart_initial, run_of_exec hexec⟩
  obtain ⟨labels, s', hrun, -, hlower, hstate⟩ := (lower_hart_started ()).2 s hreach () hpc
  exact ⟨s, hreach, hpc, labels, s', hrun, hlower, hstate⟩

set_option maxRecDepth 4000 in
/-- A hart below M-mode with a suspended cell, after a non-retentive suspend
whose ticket could not send. -/
theorem suspended_below_machine_mode :
    ∃ s : System Unit, Reachable (System.Initial ()) System.Step s ∧ s.pc () = .lower ∧
      (s.cell ()).state ≠ stateStarted := by
  obtain ⟨s, hexec, hpc, hstate⟩ : ∃ s,
      oneHart.exec (oneHartSuspends ++ [((), .fail), ((), .proceed), ((), .proceed), ((), .proceed)]) =
        some s ∧ s.pc () = .lower ∧ (s.cell ()).state = stateSuspended := ⟨_, rfl, rfl, rfl⟩
  refine ⟨s, ⟨oneHart, _, oneHart_initial, run_of_exec hexec⟩, hpc, ?_⟩
  rw [hstate]
  decide

end RustSbi.Hart
