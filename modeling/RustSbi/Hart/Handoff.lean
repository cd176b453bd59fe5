import RustSbi.Hart.Lifecycle

/-!
Start hand-offs are exactly-once. The abstract life of a hart is a cycle: it
is idle, has one published stage, runs it, and stops. Every step of the
machine follows that cycle, because a cell that is being started belongs to
the one hart that reserved it and every other write to a cell is its own
hart's.
-/

namespace RustSbi.Hart

open Transition

variable {H : Type}

/-! ## The cycle of a hart -/

/-- Where a hart is in its cycle. -/
inductive Phase
  | idle
  | pending (stage : NextStage)
  | running
  deriving DecidableEq, Repr

/-- The cycle: an idle hart can be handed one stage, which it consumes before
it runs, and a running hart can stop. A failed wake leaves it idle. -/
def Phase.next : Phase → Event → Option Phase
  | idle, .accepted stage => some (pending stage)
  | idle, .wakeFailed => some idle
  | pending stage, .consumed stage' => if stage' = stage then some running else none
  | running, .stopped => some idle
  | _, _ => none

/-- The phase after more events, if they follow the cycle. -/
def Phase.replay : Phase → List Event → Option Phase
  | phase, [] => some phase
  | phase, event :: rest => (phase.next event).bind (·.replay rest)

theorem Phase.replay_append (phase : Phase) (events events' : List Event) :
    phase.replay (events ++ events') = (phase.replay events).bind (·.replay events') := by
  induction events generalizing phase with
  | nil => rfl
  | cons event rest ih =>
    simp only [List.cons_append, replay]
    cases phase.next event with
    | none => rfl
    | some phase₁ => exact ih phase₁

/-- The phase that a cell stands for. -/
def HartStateCell.phase (cell : HartStateCell) : Phase :=
  if cell.state = stateStopped ∨ cell.state = stateStarting then .idle
  else match cell.stage with
    | some stage => .pending stage
    | none => .running

/-! ## What a history that follows the cycle looks like -/

/-- The stages that were handed to the hart. -/
def acceptedStages : List Event → List NextStage :=
  List.filterMap fun
    | .accepted stage => some stage
    | _ => none

/-- The stages that the hart consumed. -/
def consumedStages : List Event → List NextStage :=
  List.filterMap fun
    | .consumed stage => some stage
    | _ => none

/-- The stage that is still to be consumed. -/
def Phase.outstanding : Phase → List NextStage
  | pending stage => [stage]
  | _ => []

/-- The stages consumed are the stages accepted, in order, up to the one that
is still outstanding. -/
theorem acceptedStages_eq (history : List Event) :
    ∀ {phase}, Phase.idle.replay history = some phase →
      acceptedStages history = consumedStages history ++ phase.outstanding := by
  induction history using List.reverseRecOn with
  | nil =>
    intro phase h
    cases h
    rfl
  | append_singleton history event ih =>
    intro phase h
    rw [Phase.replay_append] at h
    obtain ⟨before, hbefore, hlast⟩ := Option.bind_eq_some_iff.mp h
    obtain ⟨after, hnext, hafter⟩ := Option.bind_eq_some_iff.mp hlast
    cases hafter
    have hearlier := ih hbefore
    simp only [acceptedStages, consumedStages, List.filterMap_append] at hearlier ⊢
    rw [hearlier]
    cases before <;> cases event <;> simp [Phase.next] at hnext
    · subst hnext
      simp [Phase.outstanding]
    · subst hnext
      simp [Phase.outstanding]
    · obtain ⟨rfl, rfl⟩ := hnext
      simp [Phase.outstanding]
    · subst hnext
      simp [Phase.outstanding]

/-- From a phase that is not idle, a hart is handed no stage before it stops. -/
theorem accepted_not_mem_of_not_stopped (events : List Event) :
    ∀ {phase phase' : Phase}, phase ≠ .idle → phase.replay events = some phase' →
      Event.stopped ∉ events → ∀ stage, Event.accepted stage ∉ events := by
  induction events with
  | nil =>
    intro phase phase' _ _ _ stage
    exact List.not_mem_nil
  | cons event rest ih =>
    intro phase phase' hphase hreplay hstopped stage hmem
    obtain ⟨phase₁, hnext, hrest⟩ := Option.bind_eq_some_iff.mp hreplay
    rw [List.mem_cons, not_or] at hstopped
    have hphase₁ : phase₁ ≠ .idle ∧ event ≠ .accepted stage := by
      cases phase <;> cases event <;> simp_all [Phase.next]
      rw [← hnext.2]
      exact Phase.noConfusion
    rcases List.mem_cons.mp hmem with heq | hmem
    · exact hphase₁.2 heq.symm
    · exact ih hphase₁.1 hrest hstopped.2 stage hmem

/-- Between two hand-offs of a hart it stopped. -/
theorem stopped_mem_of_accepted_twice {phase : Phase} {before between after : List Event}
    {stage stage' : NextStage}
    (h : Phase.idle.replay (before ++ .accepted stage :: (between ++ .accepted stage' :: after)) =
      some phase) :
    Event.stopped ∈ between := by
  by_contra hstopped
  rw [Phase.replay_append] at h
  obtain ⟨phase₀, -, h⟩ := Option.bind_eq_some_iff.mp h
  obtain ⟨phase₁, hnext, h⟩ := Option.bind_eq_some_iff.mp h
  have hphase₁ : phase₁ ≠ .idle := by
    cases phase₀ <;> simp [Phase.next] at hnext
    simp [← hnext]
  rw [List.append_cons, Phase.replay_append] at h
  obtain ⟨phase₂, hreplay, -⟩ := Option.bind_eq_some_iff.mp h
  have hnotmem := accepted_not_mem_of_not_stopped (between ++ [.accepted stage']) hphase₁ hreplay
    (by simpa using hstopped) stage'
  exact hnotmem (by simp)

/-! ## The invariant -/

/-- The parts of the code, by what a hart's own cell can hold while it is there. -/
inductive Region
  | parked
  | matched
  | claimed
  | running
  | halted
  | impossible
  deriving DecidableEq, Repr

/-- The region of a program counter. The interrupt transports run in a started
hart, so they never meet a start or a park. -/
def Pc.region : Pc H → Region
  | .stageReserve _ | .stageWrite _ | .stagePublish _ => .parked
  | .clear .finisher | .takeLoad .finisher | .deliver .finisher .park | .parkWait => .parked
  | .takeConsume .finisher => .matched
  | .takeStage .finisher => .claimed
  | .takeConsume .interrupt | .takeStage .interrupt | .interruptWait => .impossible
  | .deliver .finisher .none | .deliver .interrupt .park => .impossible
  | .deliver .interrupt (.start _) => .impossible
  | .halted .clearFailed | .halted .stageBusy => .halted
  | .halted _ => .impossible
  | _ => .running

/-- The cell of a hart that waits for a start. -/
def HartStateCell.Waits (cell : HartStateCell) : Prop :=
  (cell.state = stateStopped ∧ cell.stage = none) ∨ cell.state = stateStarting ∨
    (cell.state = stateStartPending ∧ ∃ stage, cell.stage = some stage)

/-- The cell of a hart that consumed its stage. -/
def HartStateCell.Runs (cell : HartStateCell) : Prop :=
  (cell.state = stateStarted ∨ cell.state = stateSuspended ∨ cell.state = stateResumePending) ∧
    cell.stage = none

/-- What the cell of a hart holds in each region. -/
def OwnerInv (cell : HartStateCell) : Region → Prop
  | .parked => cell.Waits
  | .matched => cell.state = stateStartPending ∧ ∃ stage, cell.stage = some stage
  | .claimed => cell.state = stateStarted ∧ ∃ stage, cell.stage = some stage
  | .running => cell.Runs
  | .halted => cell.Waits ∨ cell.Runs
  | .impossible => False

/-- The cell that a hart reserved, with what it has written to the slot. -/
def Pc.reserves (self : H) : Pc H → Option (H × Option NextStage)
  | .stageWrite _ => some (self, none)
  | .stagePublish stage => some (self, some stage)
  | .startWake target _ | .startRollback target | .startWrite target _ => some (target, none)
  | .startPublish target stage => some (target, some stage)
  | _ => none

/-- The invariant of the hand-off protocol. -/
structure System.HandoffInv (s : System H) : Prop where
  owner : ∀ h, OwnerInv (s.cell h) (s.pc h).region
  reserved : ∀ i h written, (s.pc i).reserves i = some (h, written) →
    (s.cell h).state = stateStarting ∧ (s.cell h).stage = written
  unique : ∀ i j h written written', (s.pc i).reserves i = some (h, written) →
    (s.pc j).reserves j = some (h, written') → i = j
  history : ∀ h, Phase.idle.replay (s.history h) = some (s.cell h).phase

/-! ## Where the control flow leads -/

theorem HartStateCell.Runs.phase_eq {cell : HartStateCell} (h : cell.Runs) :
    cell.phase = .running := by
  obtain ⟨hstate, hstage⟩ := h
  unfold HartStateCell.phase
  rcases hstate with hstate | hstate | hstate <;> simp +decide [hstate, hstage]

theorem HartStateCell.Runs.state_ne {cell : HartStateCell} (h : cell.Runs) :
    cell.state ≠ stateStarting ∧ cell.state ≠ stateStopped := by
  rcases h.1 with hstate | hstate | hstate <;> rw [hstate] <;> decide

theorem afterTakeLoad_spec {cell : HartStateCell} {caller : Caller} (h : H)
    (howner : OwnerInv cell (Pc.takeLoad caller : Pc H).region) :
    (afterTakeLoad caller cell.state : Pc H).reserves h = none ∧
      OwnerInv cell (afterTakeLoad caller cell.state : Pc H).region := by
  cases caller with
  | finisher =>
    rcases howner with ⟨hstate, hstage⟩ | hstate | ⟨hstate, hstage⟩
    · rw [hstate]
      exact ⟨rfl, Or.inl ⟨hstate, hstage⟩⟩
    · rw [hstate]
      exact ⟨rfl, Or.inr (Or.inl hstate)⟩
    · rw [hstate]
      exact ⟨rfl, hstate, hstage⟩
  | interrupt =>
    have hruns : cell.Runs := howner
    rcases hruns.1 with hstate | hstate | hstate <;> rw [hstate] <;> exact ⟨rfl, hruns⟩

theorem afterDeliver_spec {cell : HartStateCell} {caller : Caller} {event : HartEvent} (h : H)
    (howner : OwnerInv cell (Pc.deliver caller event : Pc H).region) :
    (afterDeliver caller event : Pc H).reserves h = none ∧
      OwnerInv cell (afterDeliver caller event : Pc H).region := by
  cases caller with
  | finisher => cases event <;> exact ⟨rfl, howner⟩
  | interrupt =>
    cases event with
    | start stage => exact howner.elim
    | park => exact howner.elim
    | none => exact ⟨rfl, howner⟩

theorem enterMachine_spec {choice : Choice H} {pc : Pc H} (h : H)
    (hchoice : enterMachine choice = some pc) :
    pc.reserves h = none ∧ pc.region = .running := by
  cases choice <;> cases hchoice <;> exact ⟨rfl, rfl⟩

theorem hartState_ne_none {cell : HartStateCell} {region : Region} (h : OwnerInv cell region) :
    hartState? cell.state ≠ none := by
  have hstates : cell.Waits ∨ cell.Runs ∨ cell.state = stateStarted ∨
      cell.state = stateStartPending := by
    cases region with
    | parked => exact Or.inl h
    | matched => exact Or.inr (Or.inr (Or.inr h.1))
    | claimed => exact Or.inr (Or.inr (Or.inl h.1))
    | running => exact Or.inr (Or.inl h)
    | halted => exact h.imp id Or.inl
    | impossible => exact h.elim
  rcases hstates with (⟨h, -⟩ | h | ⟨h, -⟩) | ⟨h | h | h, -⟩ | h | h <;> rw [h] <;> decide

section

variable {s : System H}

theorem System.HandoffInv.waits_of_starting (inv : s.HandoffInv) {t : H}
    (hstate : (s.cell t).state = stateStopped ∨ (s.cell t).state = stateStarting) :
    (s.pc t).region = .parked ∨ (s.pc t).region = .halted := by
  have howner := inv.owner t
  cases hregion : (s.pc t).region with
  | parked => exact Or.inl rfl
  | halted => exact Or.inr rfl
  | matched =>
    rw [hregion] at howner
    rcases hstate with h | h <;> rw [OwnerInv, h] at howner <;> exact absurd howner.1 (by decide)
  | claimed =>
    rw [hregion] at howner
    rcases hstate with h | h <;> rw [OwnerInv, h] at howner <;> exact absurd howner.1 (by decide)
  | running =>
    rw [hregion] at howner
    have hne := HartStateCell.Runs.state_ne howner
    rcases hstate with h | h
    · exact absurd h hne.2
    · exact absurd h hne.1
  | impossible =>
    rw [hregion] at howner
    exact howner.elim

variable (inv : s.HandoffInv) {h t : H} {written : Option NextStage}

include inv

theorem System.HandoffInv.stage_of_startPending (hstate : (s.cell h).state = stateStartPending) :
    ∃ stage, (s.cell h).stage = some stage := by
  have howner := inv.owner h
  have hwaits : (s.cell h).Waits → ∃ stage, (s.cell h).stage = some stage := by
    rintro (⟨h, -⟩ | h | ⟨-, hstage⟩)
    · exact absurd (h.symm.trans hstate) (by decide)
    · exact absurd (h.symm.trans hstate) (by decide)
    · exact hstage
  have hnotRuns : ¬ (s.cell h).Runs := by
    rintro ⟨h | h | h, -⟩ <;> exact absurd (h.symm.trans hstate) (by decide)
  cases hregion : (s.pc h).region with
  | parked =>
    rw [hregion] at howner
    exact hwaits howner
  | matched =>
    rw [hregion] at howner
    exact howner.2
  | claimed =>
    rw [hregion] at howner
    exact howner.2
  | running =>
    rw [hregion] at howner
    exact absurd howner hnotRuns
  | halted =>
    rw [hregion] at howner
    exact howner.elim hwaits fun hruns => absurd hruns hnotRuns
  | impossible =>
    rw [hregion] at howner
    exact howner.elim

theorem System.HandoffInv.replay_snoc {phase : Phase} {event : Event}
    (hnext : (s.cell h).phase.next event = some phase) :
    Phase.idle.replay (s.history h ++ [event]) = some phase := by
  rw [Phase.replay_append, inv.history h]
  simp [Phase.replay, hnext]

theorem System.HandoffInv.held_phase (hheld : (s.pc h).reserves h = some (t, written)) :
    (s.cell t).phase = .idle := by
  simp [HartStateCell.phase, (inv.reserved h t written hheld).1]

/-- A running hart has not reserved its own cell. -/
theorem System.HandoffInv.held_ne (hheld : (s.pc h).reserves h = some (t, written))
    (hruns : (s.cell h).Runs) : h ≠ t := by
  intro hht
  subst hht
  exact hruns.state_ne.1 (inv.reserved h h written hheld).1

end

/-! ## The invariant is kept -/

variable [DecidableEq H] {s s' : System H}

theorem handoffInv_initial {bootHart : H} (h : s.Initial bootHart) : s.HandoffInv := by
  obtain ⟨⟨stage, hboot⟩, hothers, hcells⟩ := h
  have hpc : ∀ i, s.pc i = .stageReserve stage ∨ s.pc i = .clear .finisher := by
    intro i
    by_cases hi : i = bootHart
    · subst hi
      exact Or.inl hboot
    · exact Or.inr (hothers i hi)
  have hfree : ∀ i, (s.pc i).reserves i = none := by
    intro i
    rcases hpc i with h | h <;> rw [h] <;> rfl
  constructor
  · intro i
    have hwaits : (s.cell i).Waits := by
      rw [(hcells i).1]
      exact Or.inl ⟨rfl, rfl⟩
    rcases hpc i with h | h <;> rw [h] <;> exact hwaits
  · intro i h written hres
    rw [hfree i] at hres
    cases hres
  · intro i j h written written' hres _
    rw [hfree i] at hres
    cases hres
  · intro i
    rw [(hcells i).1, (hcells i).2.2]
    rfl

/-- How a step of hart `h` that writes at most the cell `t` keeps the invariant. -/
theorem System.HandoffInv.update (inv : s.HandoffInv) (h t : H) (pc' : Pc H)
    (hpc : s'.pc = Function.update s.pc h pc')
    (hcell : ∀ u, u ≠ t → s'.cell u = s.cell u)
    (hhistory : ∀ u, u ≠ t → s'.history u = s.history u)
    (howner : OwnerInv (s'.cell t) (s'.pc t).region)
    (hself : h ≠ t → OwnerInv (s.cell h) pc'.region)
    (hreserves : ∀ u written, pc'.reserves h = some (u, written) →
      u = t ∧ (s'.cell t).state = stateStarting ∧ (s'.cell t).stage = written)
    (hothers : ∀ i written, i ≠ h → (s.pc i).reserves i = some (t, written) →
      s'.cell t = s.cell t ∧ pc'.reserves h = none)
    (hreplay : Phase.idle.replay (s'.history t) = some (s'.cell t).phase) : s'.HandoffInv := by
  have hpc_self : s'.pc h = pc' := by rw [hpc, Function.update_self]
  have hpc_other : ∀ i, i ≠ h → s'.pc i = s.pc i := fun i hi => by
    rw [hpc, Function.update_of_ne hi]
  constructor
  · intro u
    by_cases hut : u = t
    · rw [hut]
      exact howner
    · rw [hcell u hut]
      by_cases huh : u = h
      · rw [huh, hpc_self]
        exact hself (huh ▸ hut)
      · rw [hpc_other u huh]
        exact inv.owner u
  · intro i u written hres
    by_cases hi : i = h
    · rw [hi, hpc_self] at hres
      obtain ⟨rfl, hstate⟩ := hreserves u written hres
      exact hstate
    · rw [hpc_other i hi] at hres
      by_cases hut : u = t
      · subst hut
        rw [(hothers i written hi hres).1]
        exact inv.reserved i u written hres
      · rw [hcell u hut]
        exact inv.reserved i u written hres
  · have hclash : ∀ i u written written', i ≠ h → (s'.pc i).reserves i = some (u, written) →
        (s'.pc h).reserves h = some (u, written') → False := by
      intro i u written written' hi hres hres'
      rw [hpc_other i hi] at hres
      rw [hpc_self] at hres'
      obtain ⟨rfl, -⟩ := hreserves u written' hres'
      rw [(hothers i written hi hres).2] at hres'
      cases hres'
    intro i j u written written' hres hres'
    by_cases hi : i = h
    · by_cases hj : j = h
      · rw [hi, hj]
      · subst hi
        exact (hclash j u written' written hj hres' hres).elim
    · by_cases hj : j = h
      · subst hj
        exact (hclash i u written written' hi hres hres').elim
      · rw [hpc_other i hi] at hres
        rw [hpc_other j hj] at hres'
        exact inv.unique i j u written written' hres hres'
  · intro u
    by_cases hut : u = t
    · rw [hut]
      exact hreplay
    · rw [hcell u hut, hhistory u hut]
      exact inv.history u

theorem System.HandoffInv.move (inv : s.HandoffInv) (h : H) (pc' : Pc H)
    (hpc : s'.pc = Function.update s.pc h pc') (hcell : s'.cell = s.cell)
    (hhistory : s'.history = s.history) (hfree : pc'.reserves h = none)
    (howner : OwnerInv (s.cell h) pc'.region) : s'.HandoffInv := by
  apply inv.update h h pc' hpc
  · intro u _
    rw [hcell]
  · intro u _
    rw [hhistory]
  · rw [hcell, hpc, Function.update_self]
    exact howner
  · intro hne
    exact absurd rfl hne
  · intro u written hres
    rw [hfree] at hres
    cases hres
  · intro i written _ _
    exact ⟨by rw [hcell], hfree⟩
  · rw [hcell, hhistory]
    exact inv.history h

/-- A step that writes the hart's own cell, which nobody has reserved. -/
theorem System.HandoffInv.ownWrite (inv : s.HandoffInv) (h : H) (pc' : Pc H)
    (hpc : s'.pc = Function.update s.pc h pc') (hcell : ∀ u, u ≠ h → s'.cell u = s.cell u)
    (hhistory : ∀ u, u ≠ h → s'.history u = s.history u) (hfree : pc'.reserves h = none)
    (hstate : (s.cell h).state ≠ stateStarting) (howner : OwnerInv (s'.cell h) pc'.region)
    (hreplay : Phase.idle.replay (s'.history h) = some (s'.cell h).phase) : s'.HandoffInv := by
  apply inv.update h h pc' hpc hcell hhistory
  · rw [hpc, Function.update_self]
    exact howner
  · intro hne
    exact absurd rfl hne
  · intro u written hres
    rw [hfree] at hres
    cases hres
  · intro i written _ hres
    exact absurd (inv.reserved i h written hres).1 hstate
  · exact hreplay

/-- A step that a hart takes in a cell it has reserved. -/
theorem System.HandoffInv.reservedWrite (inv : s.HandoffInv) (h t : H) (pc' : Pc H)
    (hpc : s'.pc = Function.update s.pc h pc') (hcell : ∀ u, u ≠ t → s'.cell u = s.cell u)
    (hhistory : ∀ u, u ≠ t → s'.history u = s.history u) {written : Option NextStage}
    (hheld : (s.pc h).reserves h = some (t, written))
    (howner : OwnerInv (s'.cell t) (s'.pc t).region)
    (hself : h ≠ t → OwnerInv (s.cell h) pc'.region)
    (hreserves : ∀ u written, pc'.reserves h = some (u, written) →
      u = t ∧ (s'.cell t).state = stateStarting ∧ (s'.cell t).stage = written)
    (hreplay : Phase.idle.replay (s'.history t) = some (s'.cell t).phase) : s'.HandoffInv := by
  apply inv.update h t pc' hpc hcell hhistory howner hself hreserves
  · intro i written' hi hres
    exact absurd (inv.unique i h t written' written hres hheld) hi
  · exact hreplay

/-- A running hart keeps running when it writes another running state. -/
theorem System.HandoffInv.runningWrite (inv : s.HandoffInv) (h : H) (pc' : Pc H)
    (hpc : s'.pc = Function.update s.pc h pc') (hcell : ∀ u, u ≠ h → s'.cell u = s.cell u)
    (hhistory : s'.history = s.history) (hfree : pc'.reserves h = none)
    (hregion : pc'.region = .running) (hruns : (s.cell h).Runs) (hruns' : (s'.cell h).Runs) :
    s'.HandoffInv := by
  apply inv.ownWrite h pc' hpc hcell
  · intro u _
    rw [hhistory]
  · exact hfree
  · exact hruns.state_ne.1
  · rw [hregion]
    exact hruns'
  · rw [hhistory, inv.history h, hruns.phase_eq, hruns'.phase_eq]

/-- A hart that reserved a cell has reserved another hart's, unless it stages
its own boot hand-off. -/
theorem System.HandoffInv.reserve (inv : s.HandoffInv) (h t : H) (pc' : Pc H)
    (hpc : s'.pc = Function.update s.pc h pc')
    (hcell : s'.cell = Function.update s.cell t { s.cell t with state := stateStarting })
    (hhistory : s'.history = s.history) (hreserves : pc'.reserves h = some (t, none))
    (hstate : (s.cell t).state = stateStopped)
    (hparked : h = t → pc'.region = .parked) (hself : h ≠ t → OwnerInv (s.cell h) pc'.region) :
    s'.HandoffInv := by
  have hregion := inv.waits_of_starting (Or.inl hstate)
  have hcell_t : s'.cell t = { s.cell t with state := stateStarting } := by
    rw [hcell, Function.update_self]
  have hstage : (s.cell t).stage = none := by
    have howner := inv.owner t
    rcases hregion with h | h <;> rw [h] at howner
    · rcases howner with ⟨-, h⟩ | h | ⟨h, -⟩
      · exact h
      · exact absurd (hstate.symm.trans h) (by decide)
      · exact absurd (hstate.symm.trans h) (by decide)
    · rcases howner with (⟨-, h⟩ | h | ⟨h, -⟩) | hruns
      · exact h
      · exact absurd (hstate.symm.trans h) (by decide)
      · exact absurd (hstate.symm.trans h) (by decide)
      · exact absurd hstate hruns.state_ne.2
  have hwaits : (s'.cell t).Waits := by
    rw [hcell_t]
    exact Or.inr (Or.inl rfl)
  apply inv.update h t pc' hpc
  · intro u hu
    rw [hcell, Function.update_of_ne hu]
  · intro u _
    rw [hhistory]
  · rw [hpc]
    by_cases hht : h = t
    · subst hht
      rw [Function.update_self, hparked rfl]
      exact hwaits
    · rw [Function.update_of_ne (Ne.symm hht)]
      rcases hregion with h | h <;> rw [h]
      · exact hwaits
      · exact Or.inl hwaits
  · exact hself
  · intro u written hres
    rw [hreserves] at hres
    cases hres
    rw [hcell_t]
    exact ⟨rfl, rfl, hstage⟩
  · intro i written _ hres
    exact absurd (hstate.symm.trans (inv.reserved i t written hres).1) (by decide)
  · rw [hhistory, inv.history t, hcell_t]
    simp [HartStateCell.phase, hstate]

/-- A hart goes on in the cell that it reserved: it writes the slot, publishes
the stage, or rolls the reservation back. -/
theorem System.HandoffInv.proceed (inv : s.HandoffInv) (h t : H) (pc' : Pc H) (cell' : HartStateCell)
    (hpc : s'.pc = Function.update s.pc h pc') (hcell : s'.cell = Function.update s.cell t cell')
    (hhistory : ∀ u, u ≠ t → s'.history u = s.history u) {written : Option NextStage}
    (hheld : (s.pc h).reserves h = some (t, written)) (hwaits : cell'.Waits)
    (hparked : h = t → pc'.region = .parked) (hself : h ≠ t → OwnerInv (s.cell h) pc'.region)
    (hreserves : ∀ u written, pc'.reserves h = some (u, written) →
      u = t ∧ cell'.state = stateStarting ∧ cell'.stage = written)
    (hreplay : Phase.idle.replay (s'.history t) = some cell'.phase) : s'.HandoffInv := by
  have hcell_t : s'.cell t = cell' := by rw [hcell, Function.update_self]
  have hregion := inv.waits_of_starting (Or.inr (inv.reserved h t written hheld).1)
  apply inv.reservedWrite h t pc' hpc
  · intro u hu
    rw [hcell, Function.update_of_ne hu]
  · exact hhistory
  · exact hheld
  · rw [hcell_t, hpc]
    by_cases hht : h = t
    · subst hht
      rw [Function.update_self, hparked rfl]
      exact hwaits
    · rw [Function.update_of_ne (Ne.symm hht)]
      rcases hregion with h | h <;> rw [h]
      · exact hwaits
      · exact Or.inl hwaits
  · exact hself
  · rw [hcell_t]
    exact hreserves
  · rw [hcell_t]
    exact hreplay

section Cells

variable (inv : s.HandoffInv) {h t : H}

include inv

theorem System.HandoffInv.writeSlot (stage : NextStage) (pc' : Pc H)
    (hheld : (s.pc h).reserves h = some (t, none))
    (hreserves : pc'.reserves h = some (t, some stage))
    (hparked : h = t → pc'.region = .parked) (hself : h ≠ t → OwnerInv (s.cell h) pc'.region) :
    ((s.setStage t (some stage)).goto h pc').HandoffInv := by
  have hstate := (inv.reserved h t none hheld).1
  refine inv.proceed h t pc' { s.cell t with stage := some stage } rfl rfl (fun _ _ => rfl) hheld
    (Or.inr (Or.inl hstate)) hparked hself ?_ ?_
  · intro u written' hres
    rw [hreserves] at hres
    cases hres
    exact ⟨rfl, hstate, rfl⟩
  · simp [System.setStage, System.goto, inv.history t, HartStateCell.phase, hstate]

theorem System.HandoffInv.publish (stage : NextStage) (pc' : Pc H)
    (hheld : (s.pc h).reserves h = some (t, some stage)) (hfree : pc'.reserves h = none)
    (hparked : h = t → pc'.region = .parked) (hself : h ≠ t → OwnerInv (s.cell h) pc'.region) :
    (((s.store t stateStartPending).record t (.accepted stage)).goto h pc').HandoffInv := by
  obtain ⟨hstate, hstage⟩ := inv.reserved h t (some stage) hheld
  refine inv.proceed h t pc' { s.cell t with state := stateStartPending } rfl rfl
    (fun u hu => Function.update_of_ne hu _ _) hheld (Or.inr (Or.inr ⟨rfl, stage, hstage⟩)) hparked
    hself ?_ ?_
  · intro u written' hres
    rw [hfree] at hres
    cases hres
  · simp only [System.goto, System.record, System.store, Function.update_self]
    apply inv.replay_snoc
    rw [inv.held_phase hheld]
    simp +decide [HartStateCell.phase, hstage, Phase.next]

theorem System.HandoffInv.rollback (pc' : Pc H)
    (hheld : (s.pc h).reserves h = some (t, none)) (hfree : pc'.reserves h = none)
    (hparked : h = t → pc'.region = .parked) (hself : h ≠ t → OwnerInv (s.cell h) pc'.region) :
    (((s.store t stateStopped).record t .wakeFailed).goto h pc').HandoffInv := by
  obtain ⟨hstate, hstage⟩ := inv.reserved h t none hheld
  refine inv.proceed h t pc' { s.cell t with state := stateStopped } rfl rfl
    (fun u hu => Function.update_of_ne hu _ _) hheld (Or.inl ⟨rfl, hstage⟩) hparked hself ?_ ?_
  · intro u written' hres
    rw [hfree] at hres
    cases hres
  · simp only [System.goto, System.record, System.store, Function.update_self]
    apply inv.replay_snoc
    rw [inv.held_phase hheld]
    simp [HartStateCell.phase, Phase.next]

theorem System.HandoffInv.keepReserved (pc' : Pc H)
    (hpc : s'.pc = Function.update s.pc h pc') (hcell : s'.cell = s.cell)
    (hhistory : s'.history = s.history) (hheld : (s.pc h).reserves h = some (t, none))
    (hreserves : pc'.reserves h = some (t, none))
    (hparked : h = t → pc'.region = .parked) (hself : h ≠ t → OwnerInv (s.cell h) pc'.region) :
    s'.HandoffInv := by
  have hstate := inv.reserved h t none hheld
  refine inv.proceed h t pc' (s.cell t) hpc (by rw [hcell, Function.update_eq_self])
    (fun _ _ => by rw [hhistory]) hheld (Or.inr (Or.inl hstate.1)) hparked hself ?_ ?_
  · intro u written' hres
    rw [hreserves] at hres
    cases hres
    exact ⟨rfl, hstate⟩
  · rw [hhistory]
    exact inv.history t

/-- The hart consumes the published state of its own cell. -/
theorem System.HandoffInv.consume (hmatched : OwnerInv (s.cell h) .matched) :
    ((s.store h stateStarted).goto h (.takeStage .finisher)).HandoffInv := by
  obtain ⟨hstate, stage, hstage⟩ := hmatched
  refine inv.ownWrite h (.takeStage .finisher) rfl (fun u hu => Function.update_of_ne hu _ _)
    (fun _ _ => rfl) rfl (by rw [hstate]; decide) ?_ ?_
  · simp only [System.goto, System.store, Function.update_self]
    exact ⟨rfl, stage, hstage⟩
  · simp +decide [System.goto, System.store, inv.history h, HartStateCell.phase, hstate, hstage]

theorem System.HandoffInv.take {stage : NextStage} (hclaimed : OwnerInv (s.cell h) .claimed)
    (hstage : (s.cell h).stage = some stage) :
    (((s.setStage h none).record h (.consumed stage)).goto h
      (.deliver .finisher (.start stage))).HandoffInv := by
  have hstate : (s.cell h).state = stateStarted := hclaimed.1
  refine inv.ownWrite h (.deliver .finisher (.start stage)) rfl
    (fun u hu => Function.update_of_ne hu _ _) (fun u hu => Function.update_of_ne hu _ _) rfl
    (by rw [hstate]; decide) ?_ ?_
  · simp only [System.goto, System.record, System.setStage, Function.update_self]
    exact ⟨Or.inl hstate, rfl⟩
  · simp only [System.goto, System.record, System.setStage, Function.update_self]
    apply inv.replay_snoc
    simp +decide [HartStateCell.phase, hstate, hstage, Phase.next]

theorem System.HandoffInv.stop (hruns : (s.cell h).Runs) :
    (((s.store h stateStopped).record h .stopped).goto h (.clear .finisher)).HandoffInv := by
  refine inv.ownWrite h (.clear .finisher) rfl
    (fun u hu => Function.update_of_ne hu _ _) (fun u hu => Function.update_of_ne hu _ _) rfl
    hruns.state_ne.1 ?_ ?_
  · simp only [System.goto, System.record, System.store, Function.update_self]
    exact Or.inl ⟨rfl, hruns.2⟩
  · simp only [System.goto, System.record, System.store, Function.update_self]
    apply inv.replay_snoc
    rw [hruns.phase_eq]
    simp [HartStateCell.phase, Phase.next]

theorem System.HandoffInv.storeRunning {state : UInt8} (pc' : Pc H)
    (hpc : s'.pc = Function.update s.pc h pc')
    (hcell : s'.cell = Function.update s.cell h { s.cell h with state := state })
    (hhistory : s'.history = s.history) (hfree : pc'.reserves h = none)
    (hregion : pc'.region = .running) (hruns : (s.cell h).Runs)
    (hstate : state = stateStarted ∨ state = stateSuspended ∨ state = stateResumePending) :
    s'.HandoffInv := by
  refine inv.runningWrite h pc' hpc (fun u hu => by rw [hcell, Function.update_of_ne hu]) hhistory
    hfree hregion hruns ?_
  rw [hcell, Function.update_self]
  exact ⟨hstate, hruns.2⟩

theorem System.HandoffInv.markTransfer (transfer : Option NextStage) (pc' : Pc H)
    (hfree : pc'.reserves h = none) (hregion : pc'.region = .running) (hruns : (s.cell h).Runs) :
    ((s.setTransfer h transfer).goto h pc').HandoffInv := by
  refine inv.runningWrite h pc' rfl (fun u hu => Function.update_of_ne hu _ _) rfl hfree hregion
    hruns ?_
  simp only [System.goto, System.setTransfer, Function.update_self]
  exact hruns

end Cells

theorem handoffInv_step (inv : s.HandoffInv) {label : H × Choice H} (hstep : s.Step label s') :
    s'.HandoffInv := by
  obtain ⟨h, choice⟩ := label
  unfold System.Step at hstep
  dsimp only at hstep
  generalize hpc : s.pc h = pc at hstep
  have howner := inv.owner h
  rw [hpc] at howner
  have hheld : ∀ {t written}, pc.reserves h = some (t, written) →
      (s.pc h).reserves h = some (t, written) := by
    intro t written hres
    rw [hpc]
    exact hres
  fun_cases System.step s h pc choice
  all_goals simp only [System.step, *, if_true, if_false, Option.some.injEq, Option.map_eq_some_iff,
    reduceCtorEq] at hstep
  all_goals try subst hstep
  -- `stage_current`
  · exact inv.reserve h h _ rfl rfl rfl rfl ‹_› (fun _ => rfl) (absurd rfl)
  · exact inv.move h _ rfl rfl rfl rfl (Or.inl howner)
  · exact inv.writeSlot _ _ (hheld rfl) rfl (fun _ => rfl) (absurd rfl)
  · exact inv.publish _ _ (hheld rfl) rfl (fun _ => rfl) (absurd rfl)
  -- `clear_current` and `take_local_event`
  · rename_i caller
    cases caller <;> exact inv.move h _ rfl rfl rfl rfl howner
  · rename_i caller
    cases caller
    · exact inv.move h _ rfl rfl rfl rfl (Or.inl howner)
    · exact inv.move h _ rfl rfl rfl rfl (Or.inr howner)
  · exact inv.move h _ rfl rfl rfl (afterTakeLoad_spec h howner).1 (afterTakeLoad_spec h howner).2
  · rename_i caller _
    cases caller
    · exact inv.consume howner
    · exact howner.elim
  · rename_i caller hstate
    cases caller
    · exact absurd howner.1 hstate
    · exact howner.elim
  · rename_i caller stage hstage
    cases caller
    · exact inv.take howner hstage
    · exact howner.elim
  · rename_i caller hstage
    cases caller
    · obtain ⟨-, stage, hsome⟩ := howner
      exact absurd (hstage.symm.trans hsome) (by simp)
    · exact howner.elim
  · exact inv.move h _ rfl rfl rfl (afterDeliver_spec h howner).1 (afterDeliver_spec h howner).2
  -- waiting, and the way below M-mode and back
  · exact inv.move h _ rfl rfl rfl rfl howner
  · exact howner.elim
  · exact inv.move h _ rfl rfl rfl rfl howner
  · exact inv.move h _ rfl rfl rfl rfl howner
  · obtain ⟨pc', hchoice, rfl⟩ := hstep
    obtain ⟨hfree, hregion⟩ := enterMachine_spec h hchoice
    exact inv.move h pc' rfl rfl rfl hfree (hregion ▸ howner)
  -- `start`
  · rename_i target stage hstate
    refine inv.reserve h target _ rfl rfl rfl rfl hstate (fun hht => ?_) (fun _ => howner)
    subst hht
    exact absurd hstate (HartStateCell.Runs.state_ne howner).2
  · exact inv.move h _ rfl rfl rfl rfl howner
  · exact inv.keepReserved _ rfl rfl rfl (hheld rfl) rfl
      (fun hht => absurd hht (inv.held_ne (hheld rfl) howner)) (fun _ => howner)
  · exact inv.keepReserved _ rfl rfl rfl (hheld rfl) rfl
      (fun hht => absurd hht (inv.held_ne (hheld rfl) howner)) (fun _ => howner)
  · exact inv.keepReserved _ rfl rfl rfl (hheld rfl) rfl
      (fun hht => absurd hht (inv.held_ne (hheld rfl) howner)) (fun _ => howner)
  · exact inv.rollback _ (hheld rfl) rfl
      (fun hht => absurd hht (inv.held_ne (hheld rfl) howner)) (fun _ => howner)
  · exact inv.writeSlot _ _ (hheld rfl) rfl
      (fun hht => absurd hht (inv.held_ne (hheld rfl) howner)) (fun _ => howner)
  · exact inv.publish _ _ (hheld rfl) rfl
      (fun hht => absurd hht (inv.held_ne (hheld rfl) howner)) (fun _ => howner)
  -- `status`
  · exact inv.move h _ rfl rfl rfl rfl howner
  · rename_i target hstate
    exact absurd hstate (hartState_ne_none (inv.owner target))
  -- `stop_current`
  · exact inv.move h _ rfl rfl rfl rfl howner
  · exact inv.move h _ rfl rfl rfl rfl howner
  · exact inv.stop howner
  -- `suspend_current`, resuming and the ticket
  · exact inv.move h _ rfl rfl rfl rfl howner
  · exact inv.move h _ rfl rfl rfl rfl howner
  · exact inv.move h _ rfl rfl rfl rfl howner
  · exact inv.storeRunning _ rfl rfl rfl rfl rfl howner (Or.inr (Or.inl rfl))
  · rename_i suspendType
    cases suspendType <;> exact inv.move h _ rfl rfl rfl rfl howner
  · exact inv.storeRunning _ rfl rfl rfl rfl rfl howner (Or.inl rfl)
  · exact inv.move h _ rfl rfl rfl rfl howner
  · exact inv.storeRunning _ rfl rfl rfl rfl rfl howner (Or.inr (Or.inr rfl))
  · exact inv.move h _ rfl rfl rfl rfl howner
  · exact inv.move h _ rfl rfl rfl rfl howner
  · exact inv.move h _ rfl rfl rfl rfl howner
  · exact inv.move h _ rfl rfl rfl rfl howner
  · exact inv.markTransfer _ _ rfl rfl howner
  · exact inv.storeRunning _ rfl rfl rfl rfl rfl howner (Or.inl rfl)
  · exact inv.storeRunning _ rfl rfl rfl rfl rfl howner (Or.inr (Or.inl rfl))
  · exact inv.markTransfer _ _ rfl rfl howner

theorem handoffInv_of_reachable {bootHart : H}
    (h : Reachable (System.Initial bootHart) System.Step s) : s.HandoffInv :=
  h.invariant (fun _ => handoffInv_initial) fun _ _ _ inv hstep => handoffInv_step inv hstep

/-! ## Frame -/

/-- A hart that is neither stopped nor being started is left alone by the
steps of the others. -/
theorem step_frame (inv : s.HandoffInv) {i h : H} {choice : Choice H} (hstep : s.Step (i, choice) s')
    (hne : h ≠ i) (hphase : (s.cell h).phase ≠ .idle) :
    s'.cell h = s.cell h ∧ s'.pc h = s.pc h ∧ s'.history h = s.history h ∧
      s'.ticket h = s.ticket h := by
  have hstopped : ∀ {t}, (s.cell t).state = stateStopped → h ≠ t := by
    rintro t hstate rfl
    exact hphase (by simp [HartStateCell.phase, hstate])
  have hheld : ∀ {t written}, (s.pc i).reserves i = some (t, written) → h ≠ t := by
    rintro t written hres rfl
    exact hphase (inv.held_phase hres)
  unfold System.Step at hstep
  dsimp only at hstep
  generalize hpc : s.pc i = pc at hstep
  rw [hpc] at hheld
  fun_cases System.step s i pc choice
  all_goals simp only [System.step, *, if_true, if_false, Option.some.injEq, Option.map_eq_some_iff,
    reduceCtorEq] at hstep
  case case17 =>
    obtain ⟨pc', -, rfl⟩ := hstep
    simp [System.goto, hne]
  case case18 target stage hstate =>
    subst hstep
    simp [System.goto, System.store, hne, hstopped hstate]
  all_goals subst hstep
  case case20 | case23 | case24 | case25 =>
    simp [System.goto, System.store, System.setStage, System.record, System.setPending, hne,
      hheld rfl]
  all_goals simp [System.goto, System.store, System.setStage, System.record, System.setPending,
    System.setTransfer, System.setTicket, hne]

end RustSbi.Hart
