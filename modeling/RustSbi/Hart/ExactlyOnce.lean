import RustSbi.Hart.Handoff

/-!
The start hand-off is exactly-once: what the invariant says about histories,
and that a published stage is consumed within a bounded number of steps of its
own hart, whatever the others do.
-/

namespace RustSbi.Hart

open Transition

variable {H : Type} [DecidableEq H] {s s' : System H} {h i : H}

/-! ## Progress -/

/-- How many steps a parked hart can take before it takes a published stage. -/
def Pc.waitRank : Pc H → Nat
  | .takeStage _ => 0
  | .takeConsume _ => 1
  | .takeLoad _ => 2
  | .clear _ => 3
  | .parkWait => 4
  | .deliver _ _ => 5
  | _ => 6

/-- The hart has consumed a stage since `history`, or it halted. -/
def ConsumedSince (h : H) (history : List Event) (stage : NextStage) (s : System H) : Prop :=
  (∃ bug, s.pc h = .halted bug) ∨ ∃ rest, s.history h = history ++ .consumed stage :: rest

/-- The hart has a published stage and no event since `history`. -/
def AwaitsSince (h : H) (history : List Event) (stage : NextStage) (s : System H) : Prop :=
  s.HandoffInv ∧ (s.cell h).phase = .pending stage ∧ s.history h = history

theorem halted_step {bug : Bug} (hpc : s.pc h = .halted bug) {choice : Choice H} :
    ¬ s.Step (h, choice) s' := by
  intro hstep
  unfold System.Step at hstep
  rw [hpc] at hstep
  cases choice <;> cases hstep

theorem step_pc_other {choice : Choice H} (hstep : s.Step (i, choice) s') (hne : h ≠ i) :
    s'.pc h = s.pc h := by
  unfold System.Step at hstep
  dsimp only at hstep
  generalize s.pc i = pc at hstep
  fun_cases System.step s i pc choice
  all_goals simp only [System.step, *, if_true, if_false, Option.some.injEq, Option.map_eq_some_iff,
    reduceCtorEq] at hstep
  case case17 =>
    obtain ⟨pc', -, rfl⟩ := hstep
    simp [System.goto, hne]
  all_goals subst hstep
  all_goals simp [System.goto, hne, System.store, System.setStage, System.record,
    System.setPending, System.setTransfer, System.setTicket]

theorem step_history {label : H × Choice H} (hstep : s.Step label s') (h : H) :
    ∃ events, s'.history h = s.history h ++ events := by
  obtain ⟨i, choice⟩ := label
  have hrecord : ∀ (t : H) (event : Event), ∃ events,
      Function.update s.history t (s.history t ++ [event]) h = s.history h ++ events := by
    intro t event
    by_cases hht : h = t
    · subst hht
      exact ⟨[event], by rw [Function.update_self]⟩
    · exact ⟨[], by rw [Function.update_of_ne hht, List.append_nil]⟩
  unfold System.Step at hstep
  dsimp only at hstep
  generalize s.pc i = pc at hstep
  fun_cases System.step s i pc choice
  all_goals simp only [System.step, *, if_true, if_false, Option.some.injEq, Option.map_eq_some_iff,
    reduceCtorEq] at hstep
  case case17 =>
    obtain ⟨pc', -, rfl⟩ := hstep
    exact ⟨[], (List.append_nil _).symm⟩
  all_goals subst hstep
  all_goals first
    | exact hrecord _ _
    | exact ⟨[], (List.append_nil _).symm⟩

theorem consumedSince_step {history : List Event} {stage : NextStage}
    (hdone : ConsumedSince h history stage s) {label : H × Choice H} (hstep : s.Step label s') :
    ConsumedSince h history stage s' := by
  obtain ⟨i, choice⟩ := label
  rcases hdone with ⟨bug, hpc⟩ | ⟨rest, hrest⟩
  · by_cases hi : h = i
    · subst hi
      exact absurd hstep (halted_step hpc)
    · exact Or.inl ⟨bug, by rw [step_pc_other hstep hi, hpc]⟩
  · obtain ⟨events, hevents⟩ := step_history hstep h
    exact Or.inr ⟨rest ++ events, by rw [hevents, hrest, List.append_assoc, List.cons_append]⟩

/-- A step of another hart leaves a published stage as it is. -/
theorem awaitsSince_other {history : List Event} {stage : NextStage}
    (hwait : AwaitsSince h history stage s) {choice : Choice H} (hstep : s.Step (i, choice) s')
    (hne : h ≠ i) :
    AwaitsSince h history stage s' ∧ (s'.pc h).waitRank ≤ (s.pc h).waitRank := by
  obtain ⟨inv, hphase, hhistory⟩ := hwait
  have hidle : (s.cell h).phase ≠ .idle := by
    rw [hphase]
    exact Phase.noConfusion
  obtain ⟨hcell, hpc, hhist, -⟩ := step_frame inv hstep hne hidle
  refine ⟨⟨handoffInv_step inv hstep, ?_, ?_⟩, ?_⟩
  · rw [hcell, hphase]
  · rw [hhist, hhistory]
  · rw [hpc]

theorem startPending_of_waits {cell : HartStateCell} {stage : NextStage} (hwaits : cell.Waits)
    (hphase : cell.phase = .pending stage) :
    cell.state = stateStartPending ∧ cell.stage = some stage := by
  rcases hwaits with ⟨hstate, -⟩ | hstate | ⟨hstate, stage', hstage⟩
  · simp [HartStateCell.phase, hstate] at hphase
  · simp [HartStateCell.phase, hstate] at hphase
  · simp +decide [HartStateCell.phase, hstate, hstage] at hphase
    exact ⟨hstate, hphase ▸ hstage⟩

/-- A step of the hart itself brings it closer to taking a published stage. -/
theorem awaitsSince_own {history : List Event} {stage : NextStage}
    (hwait : AwaitsSince h history stage s) {choice : Choice H} (hstep : s.Step (h, choice) s') :
    ConsumedSince h history stage s' ∨
      (AwaitsSince h history stage s' ∧ (s'.pc h).waitRank < (s.pc h).waitRank) := by
  obtain ⟨inv, hphase, hhistory⟩ := hwait
  have inv' := handoffInv_step inv hstep
  have howner := inv.owner h
  have hnotRuns : ¬ (s.cell h).Runs := by
    intro hruns
    rw [hruns.phase_eq] at hphase
    cases hphase
  have hnotHeld : ∀ {written}, (s.pc h).reserves h ≠ some (h, written) := by
    intro written hres
    rw [inv.held_phase hres] at hphase
    cases hphase
  unfold System.Step at hstep
  dsimp only at hstep
  generalize hpc : s.pc h = pc at hstep
  rw [hpc] at howner hnotHeld
  fun_cases System.step s h pc choice
  all_goals simp only [System.step, *, if_true, if_false, Option.some.injEq, Option.map_eq_some_iff,
    reduceCtorEq] at hstep
  case case1 hstate =>
    simp [HartStateCell.phase, hstate] at hphase
  case case2 =>
    subst hstep
    exact Or.inl (Or.inl ⟨_, Function.update_self _ _ _⟩)
  case case3 | case4 => exact absurd rfl hnotHeld
  case case5 caller =>
    cases caller with
    | interrupt => exact absurd howner hnotRuns
    | finisher =>
      subst hstep
      exact Or.inr ⟨⟨inv', hphase, hhistory⟩, by simp [System.goto, Pc.waitRank]⟩
  case case6 =>
    subst hstep
    exact Or.inl (Or.inl ⟨_, Function.update_self _ _ _⟩)
  case case7 caller =>
    cases caller with
    | interrupt => exact absurd howner hnotRuns
    | finisher =>
      subst hstep
      have hstate := (startPending_of_waits howner hphase).1
      refine Or.inr ⟨⟨inv', hphase, hhistory⟩, ?_⟩
      simp [System.goto, afterTakeLoad, hstate, Pc.waitRank]
  case case8 caller hstate =>
    cases caller with
    | interrupt => exact howner.elim
    | finisher =>
      subst hstep
      obtain ⟨-, stage', hstage⟩ := howner
      refine Or.inr ⟨⟨inv', ?_, hhistory⟩, by simp [System.goto, Pc.waitRank]⟩
      rw [← hphase]
      simp +decide [System.goto, System.store, HartStateCell.phase, hstate, hstage]
  case case9 caller hstate =>
    cases caller with
    | interrupt => exact howner.elim
    | finisher => exact absurd howner.1 hstate
  case case10 caller stage' hstage =>
    cases caller with
    | interrupt => exact howner.elim
    | finisher =>
      subst hstep
      have hclaimed : (s.cell h).state = stateStarted := howner.1
      have hstages : stage' = stage := by
        simpa +decide [HartStateCell.phase, hclaimed, hstage] using hphase
      refine Or.inl (Or.inr ⟨[], ?_⟩)
      simp [System.goto, System.record, System.setStage, hhistory, hstages]
  case case11 caller hstage =>
    cases caller with
    | interrupt => exact howner.elim
    | finisher =>
      obtain ⟨-, stage', hsome⟩ := howner
      exact absurd (hstage.symm.trans hsome) (by simp)
  case case12 caller event =>
    cases caller with
    | interrupt =>
      cases event with
      | none => exact absurd howner hnotRuns
      | start _ => exact howner.elim
      | park => exact howner.elim
    | finisher =>
      cases event with
      | none => exact howner.elim
      | start _ => exact absurd howner hnotRuns
      | park =>
        subst hstep
        exact Or.inr ⟨⟨inv', hphase, hhistory⟩,
          by simp [System.goto, afterDeliver, Pc.waitRank]⟩
  case case13 =>
    subst hstep
    exact Or.inr ⟨⟨inv', hphase, hhistory⟩, by simp [System.goto, Pc.waitRank]⟩
  case case14 => exact howner.elim
  all_goals exact absurd howner hnotRuns

/-- A published stage is consumed once its hart has taken seven more steps. -/
theorem consumed_of_steps (inv : s.HandoffInv) {stage : NextStage}
    (hphase : (s.cell h).phase = .pending stage) {labels : List (H × Choice H)}
    (hrun : Run System.Step s labels s') (hsteps : 6 < labels.countP (decide <| ·.1 = h)) :
    ConsumedSince h (s.history h) stage s' := by
  have hrank : ∀ pc : Pc H, pc.waitRank ≤ 6 := by
    intro pc
    cases pc <;> simp [Pc.waitRank]
  refine hrun.reaches_of_rank (P := AwaitsSince h (s.history h) stage) (decide <| ·.1 = h)
    (fun s => (s.pc h).waitRank) (fun _ _ _ hdone hstep => consumedSince_step hdone hstep)
    ?_ ?_ ⟨inv, hphase, rfl⟩ (Nat.lt_of_le_of_lt (hrank _) hsteps)
  · rintro s₁ ⟨i, choice⟩ s₂ hwait hstep hown
    have hi : i = h := of_decide_eq_true hown
    subst hi
    exact awaitsSince_own hwait hstep
  · rintro s₁ ⟨i, choice⟩ s₂ hwait hstep hother
    have hi : h ≠ i := fun heq => of_decide_eq_false hother heq.symm
    exact Or.inr (awaitsSince_other hwait hstep hi)

/-! ## Boot -/

/-- The hart stages its boot hand-off. -/
def Pc.staging : Pc H → Bool
  | .stageReserve _ | .stageWrite _ | .stagePublish _ => true
  | _ => false

/-- The hart has found no start in the finisher yet. -/
def Pc.idles : Pc H → Bool
  | .clear .finisher | .takeLoad .finisher | .deliver .finisher .park | .parkWait => true
  | .halted .clearFailed => true
  | _ => false

/-- While the boot hart stages its hand-off, nobody can start anything. -/
structure System.BootInv (bootHart : H) (s : System H) : Prop where
  only : ∀ h, (s.pc h).staging = true → h = bootHart
  notBusy : ∀ h, s.pc h ≠ .halted .stageBusy
  quiet : (s.pc bootHart).staging = true →
    (∀ stage, s.pc bootHart = .stageReserve stage → (s.cell bootHart).state = stateStopped) ∧
    ∀ h, h ≠ bootHart → (s.cell h).state = stateStopped ∧ (s.pc h).idles = true

theorem bootInv_initial {bootHart : H} (hinit : s.Initial bootHart) : s.BootInv bootHart := by
  obtain ⟨⟨stage, hboot⟩, hothers, hcells⟩ := hinit
  refine ⟨fun h hstaging => ?_, fun h hbusy => ?_, fun _ => ⟨fun _ _ => ?_, fun h hne => ?_⟩⟩
  · by_contra hne
    rw [hothers h hne] at hstaging
    cases hstaging
  · by_cases hh : h = bootHart
    · rw [hh, hboot] at hbusy
      cases hbusy
    · rw [hothers h hh] at hbusy
      cases hbusy
  · rw [(hcells bootHart).1]
    rfl
  · rw [(hcells h).1, hothers h hne]
    exact ⟨rfl, rfl⟩

/-- What a step does to the program counter of its hart, as far as boot is
concerned: staging goes on or ends, and never starts. -/
theorem step_staging {choice : Choice H} (hstep : s.Step (h, choice) s') :
    ((s'.pc h).staging = true → (s.pc h).staging = true ∧
      ∀ stage, s'.pc h ≠ .stageReserve stage) ∧
    (s'.pc h = .halted .stageBusy → ∃ stage, s.pc h = .stageReserve stage ∧
      (s.cell h).state ≠ stateStopped) := by
  unfold System.Step at hstep
  dsimp only at hstep
  generalize hpc : s.pc h = pc at hstep
  fun_cases System.step s h pc choice
  all_goals simp only [System.step, *, if_true, if_false, Option.some.injEq, Option.map_eq_some_iff,
    reduceCtorEq] at hstep
  case case7 =>
    subst hstep
    simp only [System.goto, Function.update_self, afterTakeLoad]
    split_ifs <;> simp [Pc.staging]
  case case12 caller event =>
    subst hstep
    cases caller <;> cases event <;> simp [System.goto, afterDeliver, Pc.staging]
  case case17 =>
    obtain ⟨pc', hchoice, rfl⟩ := hstep
    cases choice <;> cases hchoice <;> simp [System.goto, Pc.staging]
  case case35 suspendType =>
    subst hstep
    cases suspendType <;> simp [System.goto, afterSuspend, Pc.staging]
  case case2 hstate =>
    subst hstep
    simpa [System.goto, Pc.staging] using hstate
  all_goals subst hstep
  all_goals simp [System.goto, Pc.staging]

/-- A stopped hart in the finisher stays there and writes nothing. -/
theorem step_idles {choice : Choice H} (hstep : s.Step (h, choice) s')
    (hidles : (s.pc h).idles = true) (hstate : (s.cell h).state = stateStopped) :
    s'.cell = s.cell ∧ (s'.pc h).idles = true := by
  unfold System.Step at hstep
  generalize hpc : s.pc h = pc at hstep hidles
  fun_cases Pc.idles pc
  all_goals dsimp only at hstep
  case case1 =>
    cases choice <;> cases hstep <;> simp [System.goto, System.setPending, Pc.idles]
  case case2 =>
    cases choice <;> cases hstep
    simp +decide [System.goto, afterTakeLoad, hstate, Pc.idles]
  case case3 =>
    cases choice <;> cases hstep
    simp [System.goto, afterDeliver, Pc.idles]
  case case4 =>
    cases choice <;> cases hstep
    simp [System.goto, Pc.idles]
  case case5 => cases choice <;> cases hstep
  case case6 => simp [Pc.idles, *] at hidles

theorem step_cell_of_staging {choice : Choice H} (hstep : s.Step (i, choice) s')
    (hstaging : (s.pc i).staging = true) (hne : h ≠ i) : s'.cell h = s.cell h := by
  unfold System.Step at hstep
  dsimp only at hstep
  generalize s.pc i = pc at hstep hstaging
  cases pc <;> simp only [Pc.staging, Bool.false_eq_true] at hstaging
  · cases choice <;> simp only [System.step, reduceCtorEq] at hstep
    split at hstep <;> cases hstep <;> simp [System.goto, System.store, hne]
  · cases choice <;> cases hstep
    simp [System.goto, System.setStage, hne]
  · cases choice <;> cases hstep
    simp [System.goto, System.record, System.store, hne]

theorem bootInv_step {bootHart : H} (inv : s.BootInv bootHart) {label : H × Choice H}
    (hstep : s.Step label s') : s'.BootInv bootHart := by
  obtain ⟨i, choice⟩ := label
  obtain ⟨hstaging, hbusy⟩ := step_staging hstep
  refine ⟨fun h hh => ?_, fun h hh => ?_, fun hh => ?_⟩
  · by_cases hi : h = i
    · subst hi
      exact inv.only h (hstaging hh).1
    · rw [step_pc_other hstep hi] at hh
      exact inv.only h hh
  · by_cases hi : h = i
    · subst hi
      obtain ⟨stage, hpc, hstate⟩ := hbusy hh
      have hboot := inv.only h (by rw [hpc]; rfl)
      subst hboot
      exact hstate ((inv.quiet (by rw [hpc]; rfl)).1 stage hpc)
    · rw [step_pc_other hstep hi] at hh
      exact inv.notBusy h hh
  · by_cases hi : bootHart = i
    · subst hi
      obtain ⟨hbefore, hnot⟩ := hstaging hh
      obtain ⟨-, hquiet⟩ := inv.quiet hbefore
      refine ⟨fun stage hpc => absurd hpc (hnot stage), fun h hne => ?_⟩
      rw [step_pc_other hstep hne, step_cell_of_staging hstep hbefore hne]
      exact hquiet h hne
    · rw [step_pc_other hstep hi] at hh ⊢
      obtain ⟨hreserve, hquiet⟩ := inv.quiet hh
      have hidle := hquiet i (Ne.symm hi)
      obtain ⟨hcell, hidles⟩ := step_idles hstep hidle.2 hidle.1
      refine ⟨fun stage hpc => by rw [hcell]; exact hreserve stage hpc, fun h hne => ?_⟩
      rw [hcell]
      by_cases hhi : h = i
      · subst hhi
        exact ⟨hidle.1, hidles⟩
      · rw [step_pc_other hstep hhi]
        exact hquiet h hne

/-! ## Exactly once -/

/-- Only the hart itself consumes its stages. -/
theorem consumed_by_owner {choice : Choice H} (hstep : s.Step (i, choice) s') (hne : h ≠ i) :
    consumedStages (s'.history h) = consumedStages (s.history h) := by
  have hrecord : ∀ (t : H) (event : Event), (∀ stage, event ≠ .consumed stage) →
      consumedStages (Function.update s.history t (s.history t ++ [event]) h) =
        consumedStages (s.history h) := by
    intro t event hevent
    by_cases hht : h = t
    · subst hht
      rw [Function.update_self]
      cases event with
      | consumed stage => exact absurd rfl (hevent stage)
      | _ => simp [consumedStages]
    · rw [Function.update_of_ne hht]
  unfold System.Step at hstep
  dsimp only at hstep
  generalize s.pc i = pc at hstep
  fun_cases System.step s i pc choice
  all_goals simp only [System.step, *, if_true, if_false, Option.some.injEq, Option.map_eq_some_iff,
    reduceCtorEq] at hstep
  case case17 =>
    obtain ⟨pc', -, rfl⟩ := hstep
    rfl
  all_goals subst hstep
  case case10 => simp [System.goto, System.record, System.setStage, hne]
  all_goals first
    | rfl
    | exact hrecord _ _ fun _ => Event.noConfusion

/-- The stage slot of a cell that is `START_PENDING` is full; what a hart
consumed is what was accepted for it, in order, up to the one outstanding
stage, which it consumes itself within seven of its own steps unless it halts;
it stops between any two hand-offs; a failed wake leaves its cell stopped and
empty; and no panic of the lifecycle is reached, so that a hart halts only when
its platform fails to clear the wake interrupt. -/
theorem handoff_exactly_once (bootHart : H)
    (hreach : Reachable (System.Initial bootHart) System.Step s) :
    (∀ h, (s.cell h).state = stateStartPending → ∃ stage, (s.cell h).stage = some stage) ∧
    (∀ h, acceptedStages (s.history h) =
      consumedStages (s.history h) ++ (s.cell h).phase.outstanding) ∧
    (∀ h stage, (s.cell h).phase = .pending stage → ∀ labels s', Run System.Step s labels s' →
      6 < labels.countP (decide <| ·.1 = h) →
      (∃ bug, s'.pc h = .halted bug) ∨
        ∃ rest, s'.history h = s.history h ++ .consumed stage :: rest) ∧
    (∀ h i choice s', s.Step (i, choice) s' → h ≠ i →
      consumedStages (s'.history h) = consumedStages (s.history h)) ∧
    (∀ h before between after stage stage',
      s.history h = before ++ .accepted stage :: (between ++ .accepted stage' :: after) →
      .stopped ∈ between) ∧
    (∀ i target choice s', s.pc i = .startRollback target → s.Step (i, choice) s' →
      s'.pc i = .takeTransfer .failed ∧ (s'.cell target).state = stateStopped ∧
        (s'.cell target).stage = none ∧ (s'.cell target).phase.outstanding = []) ∧
    (∀ h bug, s.pc h = .halted bug → bug = .clearFailed) := by
  have inv := handoffInv_of_reachable hreach
  have hboot : s.BootInv bootHart :=
    hreach.invariant (fun _ => bootInv_initial) fun _ _ _ inv hstep => bootInv_step inv hstep
  refine ⟨?_, ?_, ?_, ?_, ?_, ?_, ?_⟩
  · intro h hstate
    exact inv.stage_of_startPending hstate
  · intro h
    exact acceptedStages_eq (s.history h) (inv.history h)
  · intro h stage hphase labels s' hrun hsteps
    exact consumed_of_steps inv hphase hrun hsteps
  · intro h i choice s' hstep hne
    exact consumed_by_owner hstep hne
  · intro h before between after stage stage' hhistory
    have hreplay := inv.history h
    rw [hhistory] at hreplay
    exact stopped_mem_of_accepted_twice hreplay
  · intro i target choice s' hpc hstep
    have hheld : (s.pc i).reserves i = some (target, none) := by
      rw [hpc]
      rfl
    have hstage := (inv.reserved i target none hheld).2
    unfold System.Step at hstep
    rw [hpc] at hstep
    cases choice <;> cases hstep
    simp [System.goto, System.record, System.store, hstage, HartStateCell.phase, Phase.outstanding]
  · intro h bug hpc
    have howner := inv.owner h
    rw [hpc] at howner
    cases bug with
    | clearFailed => rfl
    | stageBusy => exact absurd hpc (hboot.notBusy h)
    | missingStage => exact howner.elim
    | neitherStartNorPark => exact howner.elim
    | invalidState => exact howner.elim

set_option maxRecDepth 4000 in
theorem handoff_exactly_once_two_harts :
    ∃ s : System Bool, Reachable (System.Initial false) System.Step s ∧
      (s.cell true).state = stateStartPending ∧
      (∃ stage, (s.cell true).stage = some stage) ∧
      acceptedStages (s.history true) =
        consumedStages (s.history true) ++ (s.cell true).phase.outstanding ∧
      acceptedStages (s.history true) = [⟨0x80200000, 7, .supervisor⟩] := by
  let init : System Bool :=
    { cell := fun _ => .new
      pc := fun h => if h then .clear .finisher else .stageReserve ⟨0x80200000, 1, .supervisor⟩
      ticket := fun _ => none
      pending := fun _ => false
      history := fun _ => [] }
  have hinit : init.Initial false :=
    ⟨⟨_, rfl⟩, fun h hne => by cases h <;> [exact absurd rfl hne; rfl], fun h => ⟨rfl, rfl, rfl⟩⟩
  obtain ⟨s, hexec, hstate, haccepted⟩ : ∃ s, init.exec
      (List.replicate 9 (false, .proceed) ++
        (false, .hartStart true ⟨0x80200000, 7, .supervisor⟩) ::
        List.replicate 4 (false, .proceed)) = some s ∧
      (s.cell true).state = stateStartPending ∧
      acceptedStages (s.history true) = [⟨0x80200000, 7, .supervisor⟩] := ⟨_, rfl, rfl, rfl⟩
  have hreach : Reachable (System.Initial false) System.Step s :=
    ⟨init, _, hinit, run_of_exec hexec⟩
  obtain ⟨hpending, hconsumed, -⟩ := handoff_exactly_once false hreach
  exact ⟨s, hreach, hstate, hpending true hstate, hconsumed true, haccepted⟩

end RustSbi.Hart
