import RustSbi.Hart.Exit
import RustSbi.Hart.WakeUp

/-!
Where the lifecycle executes `fence.i`: in the hand-off to a stage and in the
transfer of a non-retentive resume. A hart that cannot receive an interrupt is
before one of these on its way below M-mode, as long as no resume ticket fails
to send its wake interrupt.
-/

namespace RustSbi.Hart

open Transition

variable {H : Type}

/-- `can_receive_ipi`; a word that is no state never occurs. -/
def canReceiveIpi (state : UInt8) : Bool :=
  match hartState? state with
  | some .started | some .suspended => true
  | _ => false

/-- The next step of the hart executes `fence.i`: in `enter_stage`, in
`enter_next_stage`, or for a control transfer at the end of `sbi_ecall`. -/
def System.executesFenceI (s : System H) (h : H) : Bool :=
  match s.pc h with
  | .enterStage _ | .deliver .interrupt (.start _) => true
  | .takeTransfer _ => (s.cell h).transfer.isSome
  | _ => false

/-- The hart is in the finisher, which enters a stage with `fence.i` or not at
all. -/
def Pc.finishes : Pc H → Bool
  | .stageReserve _ | .stageWrite _ | .stagePublish _ => true
  | .clear .finisher | .takeLoad .finisher | .takeConsume .finisher | .takeStage .finisher => true
  | .deliver .finisher _ | .parkWait | .enterStage _ | .halted _ => true
  | _ => false

/-- The hart holds a resume ticket that it has not committed. -/
def Pc.resumes : Pc H → Bool
  | .resetCurrent | .commitSend | .commitMark => true
  | _ => false

/-- The hart executes `fence.i` before it gets below M-mode. -/
def System.Owes (s : System H) (h : H) : Prop :=
  (s.pc h).finishes = true ∨ ((s.pc h).resumes = true ∧ (s.ticket h).isSome = true) ∨
    ((s.pc h).mayTransfer = true ∧ (s.cell h).transfer.isSome = true)

theorem not_owes_of_lower {s : System H} {h : H} (hlower : s.pc h = .lower) : ¬ s.Owes h := by
  simp [System.Owes, hlower, Pc.finishes, Pc.resumes, Pc.mayTransfer]

variable [DecidableEq H] {s s' : System H} {h i : H}

/-- A step of a hart that owes a `fence.i` executes it or leaves it owed. -/
theorem owes_own {choice : Choice H} (hstep : s.CommitStep (h, choice) s') (howes : s.Owes h) :
    s'.Owes h ∨ s.executesFenceI h = true := by
  obtain ⟨hstep, hcommit⟩ := hstep
  unfold System.Step at hstep
  unfold System.Owes System.executesFenceI at *
  dsimp only at hstep hcommit
  generalize hpc : s.pc h = pc at hstep hcommit howes
  fun_cases System.step s h pc choice
  all_goals simp only [System.step, *, if_true, if_false, Option.some.injEq, Option.map_eq_some_iff,
    reduceCtorEq] at hstep
  case case17 => simp [Pc.finishes, Pc.resumes, Pc.mayTransfer] at howes
  all_goals subst hstep
  case case5 caller | case6 caller | case8 caller _ | case9 caller _ | case10 caller _ _
      | case11 caller _ =>
    cases caller <;> simp_all [System.goto, Pc.finishes, Pc.resumes, Pc.mayTransfer]
  case case7 caller =>
    cases caller with
    | interrupt => simp [Pc.finishes, Pc.resumes, Pc.mayTransfer] at howes
    | finisher =>
      simp only [System.goto, Function.update_self, afterTakeLoad]
      split_ifs <;> exact Or.inl (Or.inl rfl)
  case case12 caller event =>
    cases caller <;> cases event <;>
      simp_all [System.goto, afterDeliver, Pc.finishes, Pc.resumes, Pc.mayTransfer]
  all_goals simp_all [System.goto, System.store, System.setStage, System.record, System.setPending,
    System.setTransfer, System.setTicket, Pc.finishes, Pc.resumes, Pc.mayTransfer]

theorem owes_other {choice : Choice H} (hstep : s.Step (i, choice) s') (hne : h ≠ i) :
    s'.Owes h ↔ s.Owes h := by
  obtain ⟨htransfer, hticket, hpc⟩ := step_marker_other hstep hne
  rw [System.Owes, System.Owes, hpc, hticket, htransfer]

/-! ## Harts that cannot receive an interrupt -/

/-- A hart that holds an uncommitted ticket, or has marked its transfer, owes a
`fence.i`. -/
def System.ResumeInv (s : System H) (h : H) : Prop :=
  (s.pc h).holdsTicket = true → s.Owes h

theorem resumeInv_initial {bootHart : H} (hinit : s.Initial bootHart) (h : H) : s.ResumeInv h := by
  obtain ⟨⟨stage, hboot⟩, hothers, -⟩ := hinit
  intro hholds
  by_cases hh : h = bootHart
  · rw [hh, hboot] at hholds
    cases hholds
  · rw [hothers h hh] at hholds
    cases hholds

/-- A hart that comes to hold a ticket has just reserved its resume. -/
theorem holdsTicket_own {choice : Choice H} (hstep : s.Step (h, choice) s')
    (hholds : (s'.pc h).holdsTicket = true) :
    (s.pc h).holdsTicket = true ∨ s'.Owes h := by
  unfold System.Step at hstep
  dsimp only at hstep
  generalize hpc : s.pc h = pc at hstep
  fun_cases System.step s h pc choice
  all_goals simp only [System.step, *, if_true, if_false, Option.some.injEq, Option.map_eq_some_iff,
    reduceCtorEq] at hstep
  case case17 =>
    obtain ⟨pc', hchoice, rfl⟩ := hstep
    cases choice <;> cases hchoice <;> simp [System.goto, Pc.holdsTicket] at hholds
  all_goals subst hstep
  case case7 =>
    simp only [System.goto, Function.update_self, afterTakeLoad] at hholds
    split_ifs at hholds <;> cases hholds
  case case12 caller event =>
    cases caller <;> cases event <;> simp [System.goto, afterDeliver, Pc.holdsTicket] at hholds
  case case35 suspendType =>
    cases suspendType <;> simp [System.goto, afterSuspend, Pc.holdsTicket] at hholds
  case case38 =>
    refine Or.inr (Or.inr (Or.inl ?_))
    simp [System.goto, System.setTicket, Pc.resumes]
  all_goals first
    | exact Or.inl rfl
    | simp [System.goto, Pc.holdsTicket] at hholds

theorem resumeInv_step {label : H × Choice H} (hstep : s.CommitStep label s')
    (hresume : s.ResumeInv h) : s'.ResumeInv h := by
  obtain ⟨i, choice⟩ := label
  intro hholds
  by_cases hi : h = i
  · subst hi
    rcases holdsTicket_own hstep.1 hholds with hbefore | howes
    · rcases owes_own hstep (hresume hbefore) with howes | hfence
      · exact howes
      · -- None of the places that hold a ticket executes `fence.i`.
        unfold System.executesFenceI at hfence
        cases hpc : s.pc h <;> simp_all [Pc.holdsTicket]
    · exact howes
  · rw [(step_marker_other hstep.1 hi).2.2] at hholds
    exact (owes_other hstep.1 hi).mpr (hresume hholds)

omit [DecidableEq H] in
theorem finishes_of_region {pc : Pc H}
    (h : pc.region = .parked ∨ pc.region = .matched ∨ pc.region = .claimed ∨ pc.region = .halted) :
    pc.finishes = true := by
  cases pc with
  | clear caller | takeLoad caller | takeConsume caller | takeStage caller =>
    cases caller <;> simp_all [Pc.region, Pc.finishes]
  | deliver caller event => cases caller <;> cases event <;> simp_all [Pc.region, Pc.finishes]
  | _ => simp_all [Pc.region, Pc.finishes]

omit [DecidableEq H] in
theorem holdsTicket_of_runningState {pc : Pc H} (hstarted : pc.runningState ≠ stateStarted)
    (hsuspended : pc.runningState ≠ stateSuspended) : pc.holdsTicket = true := by
  cases pc <;> simp_all [Pc.runningState, Pc.holdsTicket]

omit [DecidableEq H] in
/-- A hart whose state word says that it cannot receive an interrupt owes a
`fence.i`. -/
theorem owes_of_cannot_receive (inv : s.HandoffInv) (hexit : s.ExitInv h) (hresume : s.ResumeInv h)
    (hstate : canReceiveIpi (s.cell h).state = false) : s.Owes h := by
  have howner := inv.owner h
  have hnotStarted : (s.cell h).state ≠ stateStarted := by
    intro hstarted
    rw [hstarted] at hstate
    revert hstate
    decide
  have hnotSuspended : (s.cell h).state ≠ stateSuspended := by
    intro hsuspended
    rw [hsuspended] at hstate
    revert hstate
    decide
  cases hregion : (s.pc h).region with
  | parked | matched | claimed | halted => exact Or.inl (finishes_of_region (by simp [hregion]))
  | running =>
    apply hresume
    apply holdsTicket_of_runningState
    · rw [← hexit.state hregion]
      exact hnotStarted
    · rw [← hexit.state hregion]
      exact hnotSuspended
  | impossible =>
    rw [hregion] at howner
    exact howner.elim

/-! ## Returning from a call -/

section Return

variable {ret : SbiRet}

/-- A hart that returns from a call leaves the others where they are. -/
theorem pc_return_other {k : H} (hk : k ≠ h) :
    (s.goto h (.takeTransfer ret)).pc k = s.pc k := by
  simp [System.goto, hk]

theorem pc_return_self : (s.goto h (.takeTransfer ret)).pc h = .takeTransfer ret := by
  simp [System.goto]

theorem owes_return (hlower : s.pc h = .lower) {t : H} (howes : s.Owes t) :
    (s.goto h (.takeTransfer ret)).Owes t := by
  have hth : t ≠ h := by
    rintro rfl
    exact not_owes_of_lower hlower howes
  rw [System.Owes, pc_return_other hth]
  exact howes

theorem resumeInv_return (hlower : s.pc h = .lower) {k : H} (hresume : s.ResumeInv k) :
    (s.goto h (.takeTransfer ret)).ResumeInv k := by
  intro hholds
  by_cases hkh : k = h
  · subst hkh
    rw [pc_return_self] at hholds
    cases hholds
  · rw [pc_return_other hkh] at hholds
    exact owes_return hlower (hresume hholds)

theorem exitInv_return (hlower : s.pc h = .lower) {k : H} (hexit : s.ExitInv k) :
    (s.goto h (.takeTransfer ret)).ExitInv k := by
  by_cases hkh : k = h
  · subst hkh
    have hstate := hexit.state (by rw [hlower]; rfl)
    have hticket := hexit.ticket (by rw [hlower]; rfl)
    rw [hlower] at hstate
    refine ⟨fun _ => ?_, fun hmay => ?_, fun _ => hticket, ?_⟩
    · rw [pc_return_self]
      exact hstate
    · rw [pc_return_self] at hmay
      cases hmay
    · rw [pc_return_self]
      simp
  · refine ⟨?_, ?_, ?_, ?_⟩
    · rw [pc_return_other hkh]
      exact hexit.state
    · rw [pc_return_other hkh]
      exact hexit.transfer
    · rw [pc_return_other hkh]
      exact hexit.ticket
    · rw [pc_return_other hkh]
      exact hexit.noDrop

theorem due_return {k : H} (hdue : (s.goto h (.takeTransfer ret)).Due k) : s.Due k := by
  rcases hdue with hstate | ⟨i, hwoke⟩
  · exact Or.inl hstate
  · by_cases hih : i = h
    · subst hih
      rw [pc_return_self] at hwoke
      cases hwoke
    · rw [pc_return_other hih] at hwoke
      exact Or.inr ⟨i, hwoke⟩

theorem machineInv_return {m : Machine H} (inv : m.Inv) (hlower : m.harts.pc h = .lower) :
    Machine.Inv ⟨m.harts.goto h (.takeTransfer ret), m.entered⟩ := by
  have hruns : OwnerInv (m.harts.cell h) .running := by
    have howner := inv.handoff.owner h
    rw [hlower] at howner
    exact howner
  refine ⟨inv.handoff.move h _ rfl rfl rfl rfl hruns, fun k hout => ?_, fun k hwaiting hdue => ?_⟩
  · have hpc := inv.outside k hout
    have hkh : k ≠ h := by
      rintro rfl
      rw [hpc] at hlower
      cases hlower
    exact (pc_return_other hkh).trans hpc
  · by_cases hkh : k = h
    · subst hkh
      dsimp only at hwaiting
      rw [pc_return_self] at hwaiting
      cases hwaiting
    · dsimp only at hwaiting
      rw [pc_return_other hkh] at hwaiting
      exact inv.wake k hwaiting (due_return hdue)

end Return

end RustSbi.Hart
