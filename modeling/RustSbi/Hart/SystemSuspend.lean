import RustSbi.Hart.ExactlyOnce

/-!
System suspend (`sbi/suspend.rs`) over the hart lifecycle. The call reads the
state words of the other harts one after another while their harts go on, so
what it read first need not hold when it has read the last: a hart that the scan
has passed can be started by one that it has not reached. Without such a start
the caller is alone when it suspends.
-/

namespace RustSbi.Hart

open Transition

variable {H : Type}

/-! ## The call -/

/-- The privilege modes of `mstatus.MPP`. -/
inductive PreviousMode
  | machine
  | supervisor
  | user
  deriving DecidableEq, Repr

/-- `SUSPEND_TO_RAM`. -/
abbrev suspendToRam : UInt32 := 0

/-- `enabled_harts`: the harts that the device tree enables, less those that the
call reads as not privilege-checked. -/
def enabledHarts (board : Option (List (H × Bool))) (checked : H → Bool) :
    Option (List (H × Bool)) :=
  board.map fun enabled => enabled.map fun entry => (entry.1, entry.2 && checked entry.1)

/-- A `system_suspend` that has some harts still to read. -/
structure Scan (H : Type) where
  rest : List (H × Bool)
  stage : NextStage

/-- The head of `system_suspend`, up to its loop. -/
def systemSuspend (sleepType : UInt32) (prevMode : PreviousMode)
    (hartEnableMap : Option (List (H × Bool))) (resumeAddr opaqueValue : Nat) :
    Except SbiRet (Scan H) :=
  if sleepType ≠ suspendToRam then .error .invalidParam
  else if prevMode ≠ .supervisor ∧ prevMode ≠ .user then .error .failed
  else match hartEnableMap with
    | some hartEnableMap => .ok ⟨hartEnableMap, ⟨resumeAddr, opaqueValue, .supervisor⟩⟩
    | none => .error .failed

/-- The machine with the scans that its harts are in. -/
structure Board (H : Type) where
  harts : System H
  scan : H → Option (Scan H)

/-- A step of the machine: of the lifecycle, of the head of a `system_suspend`
with the privilege checks that it reads, or of its loop. -/
inductive Action (H : Type)
  | hart (h : H) (choice : Choice H)
  | systemSuspend (h : H) (sleepType : UInt32) (prevMode : PreviousMode) (checked : H → Bool)
      (resumeAddr opaqueValue : Nat)
  | scan (h : H) (hsm : Bool)

namespace Board

variable [DecidableEq H]

/-- The hart leaves its scan for another program counter. -/
def leave (b : Board H) (h : H) (pc : Pc H) : Board H :=
  ⟨b.harts.goto h pc, Function.update b.scan h none⟩

def setScan (b : Board H) (h : H) (scan : Scan H) : Board H :=
  { b with scan := Function.update b.scan h (some scan) }

/-- One round of the loop of `system_suspend`, or the suspend after the last. -/
def scanStep (b : Board H) (h : H) (hsm : Bool) (scan : Scan H) : Board H :=
  match scan.rest with
  | (hartid, hartEnable) :: rest =>
    if hartEnable = true ∧ hartid ≠ h then
      match hartState? (b.harts.cell hartid).state with
      | some .stopped => b.setScan h { scan with rest := rest }
      | some _ => b.leave h (.takeTransfer .denied)
      | none => b.leave h (.halted .invalidState)
    else b.setScan h { scan with rest := rest }
  | [] =>
    if hsm then b.leave h (.suspendClear (.nonRetentive scan.stage))
    else b.leave h (.takeTransfer .notSupported)

/-- The next atomic step of a hart. -/
def step (board : Option (List (H × Bool))) (b : Board H) : Action H → Option (Board H)
  | .hart h choice =>
    match b.scan h with
    | none => (b.harts.step h (b.harts.pc h) choice).map ({ b with harts := · })
    | some _ => none
  | .systemSuspend h sleepType prevMode checked resumeAddr opaqueValue =>
    match b.scan h, b.harts.pc h with
    | none, .lower =>
      match Hart.systemSuspend sleepType prevMode (enabledHarts board checked) resumeAddr
          opaqueValue with
      | .ok scan => some (b.setScan h scan)
      | .error ret => some (b.leave h (.takeTransfer ret))
    | _, _ => none
  | .scan h hsm => (b.scan h).map (b.scanStep h hsm)

/-- The board at boot: no hart is in a scan. -/
def Initial (bootHart : H) (b : Board H) : Prop :=
  b.harts.Initial bootHart ∧ ∀ h, b.scan h = none

def Step (board : Option (List (H × Bool))) (b : Board H) (action : Action H) (b' : Board H) :
    Prop :=
  b.step board action = some b'

/-- The board's steps one after another. -/
def exec (board : Option (List (H × Bool))) (b : Board H) : List (Action H) → Option (Board H)
  | [] => some b
  | action :: rest => (b.step board action).bind (·.exec board rest)

end Board

/-! ## Alone -/

/-- Every other enabled hart is stopped and has consumed what it accepted. -/
def Board.Alone (board : Option (List (H × Bool))) (b : Board H) (h : H) : Prop :=
  ∀ enabled, board = some enabled → ∀ t, (t, true) ∈ enabled → t ≠ h →
    (b.harts.cell t).state = stateStopped ∧
      acceptedStages (b.harts.history t) = consumedStages (b.harts.history t)

/-- The scan will not read the hart any more. -/
def Scan.Passed (scan : Scan H) (t : H) : Prop := (t, true) ∉ scan.rest

/-- A step that starts no hart behind a scan: no `start` reserves a stopped hart
that a scan has passed, and no scan begins while a hart that it will not read,
because it is not privilege-checked, is not stopped. -/
structure Board.QuietStep [DecidableEq H] (board : Option (List (H × Bool))) (b : Board H)
    (action : Action H) (b' : Board H) : Prop where
  step : b.Step board action b'
  noStart : ∀ i t stage, action = .hart i .proceed → b.harts.pc i = .startReserve t stage →
    (b.harts.cell t).state = stateStopped → ∀ h scan, b.scan h = some scan → t ≠ h →
    ∀ enabled, board = some enabled → (t, true) ∈ enabled → ¬ scan.Passed t
  noUnchecked : ∀ h sleepType prevMode checked resumeAddr opaqueValue,
    action = .systemSuspend h sleepType prevMode checked resumeAddr opaqueValue →
    ∀ enabled, board = some enabled → ∀ t, (t, true) ∈ enabled → t ≠ h → checked t = false →
      (b.harts.cell t).state = stateStopped

/-! ## Stopped harts -/

section Stopped

variable [DecidableEq H] {s s' : System H} {i t : H}

/-- A stopped hart stays stopped, unless a `start` reserves it or it stages its
own boot hand-off. -/
theorem step_stopped (inv : s.HandoffInv) {choice : Choice H} (hstep : s.Step (i, choice) s')
    (hstate : (s.cell t).state = stateStopped) :
    (s'.cell t).state = stateStopped ∨
      (choice = .proceed ∧ ∃ stage, s.pc i = .startReserve t stage) ∨
      (s.pc i).staging = true := by
  have hother : ∀ {u}, (s.cell u).state ≠ stateStopped → ∀ cell,
      (Function.update s.cell u cell t).state = stateStopped := by
    intro u hu cell
    have hne : t ≠ u := fun heq => hu (heq ▸ hstate)
    rw [Function.update_of_ne hne, hstate]
  have hsame : ∀ u cell, cell.state = (s.cell u).state →
      (Function.update s.cell u cell t).state = stateStopped := by
    intro u cell hcell
    by_cases htu : t = u
    · subst htu
      rw [Function.update_self, hcell, hstate]
    · rw [Function.update_of_ne htu, hstate]
  have hheld : ∀ {u written}, (s.pc i).reserves i = some (u, written) →
      (s.cell u).state ≠ stateStopped := by
    intro u written hres
    rw [(inv.reserved i u written hres).1]
    decide
  have howner := inv.owner i
  unfold System.Step at hstep
  dsimp only at hstep
  generalize hpc : s.pc i = pc at hstep
  rw [hpc] at howner hheld
  fun_cases System.step s i pc choice
  all_goals simp only [System.step, *, if_true, if_false, Option.some.injEq, Option.map_eq_some_iff,
    reduceCtorEq] at hstep
  case case17 =>
    obtain ⟨pc', -, rfl⟩ := hstep
    exact Or.inl hstate
  all_goals subst hstep
  case case18 target stage hstopped =>
    by_cases htarget : t = target
    · subst htarget
      exact Or.inr (Or.inl ⟨rfl, stage, rfl⟩)
    · refine Or.inl ?_
      simp [System.goto, System.store, htarget, hstate]
  case case8 hpending => exact Or.inl (hother (by rw [hpending]; decide) _)
  all_goals first
    | exact Or.inl hstate
    | exact Or.inr (Or.inr rfl)
    | exact Or.inl (hsame _ _ rfl)
    | exact Or.inl (hother (hheld rfl) _)
    | exact Or.inl (hother (HartStateCell.Runs.state_ne howner).2 _)

end Stopped

/-! ## The invariant -/

/-- A hart in a scan left the supervisor and took no lifecycle step since, and
what its scan has passed is stopped. -/
structure System.ScanInv (board : Option (List (H × Bool))) (s : System H) (h : H)
    (scan : Scan H) : Prop where
  lower : s.pc h = .lower
  stopped : ∀ enabled, board = some enabled → ∀ t, (t, true) ∈ enabled → t ≠ h → scan.Passed t →
    (s.cell t).state = stateStopped

structure Board.Inv [DecidableEq H] (board : Option (List (H × Bool))) (bootHart : H)
    (b : Board H) : Prop where
  handoff : b.harts.HandoffInv
  boot : b.harts.BootInv bootHart
  scans : ∀ h scan, b.scan h = some scan → b.harts.ScanInv board h scan

section Invariant

variable [DecidableEq H] {board : Option (List (H × Bool))} {bootHart : H} {b b' : Board H}

theorem stopped_of_hartState {state : UInt8} (h : hartState? state = some .stopped) :
    state = stateStopped := by
  unfold hartState? at h
  split_ifs at h <;> first | assumption | cases h

theorem board_inv_initial (h : b.Initial bootHart) : b.Inv board bootHart := by
  refine ⟨handoffInv_initial h.1, bootInv_initial h.1, ?_⟩
  intro h' scan hscan
  rw [h.2 h'] at hscan
  cases hscan

omit [DecidableEq H] in
theorem not_staging_of_lower {s : System H} (inv : s.BootInv bootHart) {h : H}
    (hlower : s.pc h = .lower) (i : H) : (s.pc i).staging ≠ true := by
  intro hstaging
  have hi := inv.only i hstaging
  subst hi
  have hne : h ≠ i := by
    rintro rfl
    rw [hlower] at hstaging
    cases hstaging
  have hidles := ((inv.quiet hstaging).2 h hne).2
  rw [hlower] at hidles
  cases hidles

theorem bootInv_goto {s : System H} (inv : s.BootInv bootHart) {h : H} (hlower : s.pc h = .lower)
    {pc : Pc H} (hstaging : pc.staging = false) (hbusy : pc ≠ .halted .stageBusy) :
    (s.goto h pc).BootInv bootHart := by
  have hpc : ∀ i, ((s.goto h pc).pc i).staging = true → (s.pc i).staging = true := by
    intro i hi
    by_cases hih : i = h
    · subst hih
      simp [System.goto, hstaging] at hi
    · simpa [System.goto, hih] using hi
  refine ⟨fun i hi => inv.only i (hpc i hi), fun i hi => ?_, fun hi => ?_⟩
  · by_cases hih : i = h
    · subst hih
      exact hbusy (by simpa [System.goto] using hi)
    · exact inv.notBusy i (by simpa [System.goto, hih] using hi)
  · exact absurd (hpc _ hi) (not_staging_of_lower inv hlower _)

theorem Board.Inv.leave (inv : b.Inv board bootHart) {h : H} (hlower : b.harts.pc h = .lower)
    {pc : Pc H} (hregion : pc.region = .running) (hfree : pc.reserves h = none)
    (hstaging : pc.staging = false) : (b.leave h pc).Inv board bootHart := by
  have hruns : OwnerInv (b.harts.cell h) .running := by
    have howner := inv.handoff.owner h
    rw [hlower] at howner
    exact howner
  refine ⟨inv.handoff.move h pc rfl rfl rfl hfree (hregion ▸ hruns), ?_, ?_⟩
  · refine bootInv_goto inv.boot hlower hstaging ?_
    rintro rfl
    cases hregion
  · intro i scan hscan
    have hne : i ≠ h := by
      rintro rfl
      simp [Board.leave] at hscan
    obtain ⟨hpc, hstopped⟩ := inv.scans i scan (by simpa [Board.leave, hne] using hscan)
    exact ⟨by simpa [Board.leave, System.goto, hne] using hpc, hstopped⟩

theorem Board.Inv.setScan (inv : b.Inv board bootHart) {h : H} {scan : Scan H}
    (hscan : b.harts.ScanInv board h scan) : (b.setScan h scan).Inv board bootHart := by
  refine ⟨inv.handoff, inv.boot, ?_⟩
  intro i scan' hscan'
  by_cases hih : i = h
  · subst hih
    have heq : scan = scan' := by simpa [Board.setScan] using hscan'
    exact heq ▸ hscan
  · exact inv.scans i scan' (by simpa [Board.setScan, hih] using hscan')

/-- One round of the loop: what it read is stopped, or it ends the call. -/
theorem Board.Inv.scanStep (inv : b.Inv board bootHart) {h : H} {hsm : Bool} {scan : Scan H}
    (hscan : b.scan h = some scan) : (b.scanStep h hsm scan).Inv board bootHart := by
  obtain ⟨hlower, hstopped⟩ := inv.scans h scan hscan
  obtain ⟨rest, stage⟩ := scan
  cases rest with
  | nil =>
    simp only [Board.scanStep]
    split <;> exact inv.leave hlower rfl rfl rfl
  | cons entry rest =>
    obtain ⟨hartid, hartEnable⟩ := entry
    have hrest : (hartEnable = true → hartid ≠ h →
        (b.harts.cell hartid).state = stateStopped) →
        b.harts.ScanInv board h ⟨rest, stage⟩ := by
      intro hread
      refine ⟨hlower, fun enabled henabled t ht hne hpassed => ?_⟩
      by_cases heq : (t, true) = (hartid, hartEnable)
      · cases heq
        exact hread rfl hne
      · exact hstopped enabled henabled t ht hne fun hmem =>
          (List.mem_cons.mp hmem).elim heq hpassed
    simp only [Board.scanStep]
    split
    · split
      · rename_i hstate
        refine inv.setScan (hrest fun _ _ => ?_)
        exact stopped_of_hartState hstate
      · exact inv.leave hlower rfl rfl rfl
      · rename_i hnone
        exact absurd hnone (hartState_ne_none (inv.handoff.owner hartid))
    · rename_i hskip
      refine inv.setScan (hrest fun henable hne => absurd ⟨henable, hne⟩ hskip)

theorem board_inv_step (inv : b.Inv board bootHart) {action : Action H}
    (hquiet : b.QuietStep board action b') : b'.Inv board bootHart := by
  obtain ⟨hstep, hnoStart, hnoUnchecked⟩ := hquiet
  unfold Board.Step at hstep
  cases action with
  | hart i choice =>
    simp only [Board.step] at hstep
    split at hstep
    · rename_i hscan
      obtain ⟨s', hs, rfl⟩ := Option.map_eq_some_iff.mp hstep
      have hs' : b.harts.Step (i, choice) s' := hs
      refine ⟨handoffInv_step inv.handoff hs', bootInv_step inv.boot hs', ?_⟩
      intro h scan hscan'
      have hne : h ≠ i := by
        rintro rfl
        rw [hscan] at hscan'
        cases hscan'
      obtain ⟨hlower, hstopped⟩ := inv.scans h scan hscan'
      refine ⟨(step_pc_other hs' hne).trans hlower, fun enabled henabled t ht hth hpassed => ?_⟩
      have hstate := hstopped enabled henabled t ht hth hpassed
      rcases step_stopped inv.handoff hs' hstate with hkept | ⟨rfl, stage, hpc⟩ | hstaging
      · exact hkept
      · exact absurd hpassed
          (hnoStart i t stage rfl hpc hstate h scan hscan' hth enabled henabled ht)
      · exact absurd hstaging (not_staging_of_lower inv.boot hlower i)
    · cases hstep
  | systemSuspend h sleepType prevMode checked resumeAddr opaqueValue =>
    simp only [Board.step] at hstep
    split at hstep
    · rename_i hscan hlower
      split at hstep
      · rename_i scan hbegin
        cases hstep
        refine inv.setScan ⟨hlower, fun enabled henabled t ht hne hpassed => ?_⟩
        apply hnoUnchecked _ _ _ _ _ _ rfl enabled henabled t ht hne
        -- The scan starts with every checked hart still to read.
        cases hchecked : checked t with
        | false => rfl
        | true =>
          refine absurd ?_ hpassed
          subst henabled
          simp only [Hart.systemSuspend, enabledHarts, Option.map_some] at hbegin
          split_ifs at hbegin
          cases hbegin
          exact List.mem_map.mpr ⟨(t, true), ht, by simp [hchecked]⟩
      · cases hstep
        exact inv.leave hlower rfl rfl rfl
    · cases hstep
  | scan h hsm =>
    obtain ⟨scan, hscan, rfl⟩ := Option.map_eq_some_iff.mp hstep
    exact inv.scanStep hscan

end Invariant

/-- The step that enters `hart_suspend` is that of a scan with no hart left to
read, and it writes no cell. -/
theorem enters_of_scanStep [DecidableEq H] {board : Option (List (H × Bool))} {b b' : Board H}
    {h : H} {hsm : Bool} {suspendType : SuspendType} (hstep : b.Step board (.scan h hsm) b')
    (hlower : b.harts.pc h = .lower) (henter : b'.harts.pc h = .suspendClear suspendType) :
    (∃ scan, b.scan h = some scan ∧ scan.rest = []) ∧ b'.harts.cell = b.harts.cell ∧
      b'.harts.history = b.harts.history := by
  obtain ⟨scan, hscan, rfl⟩ := Option.map_eq_some_iff.mp hstep
  obtain ⟨rest, stage⟩ := scan
  cases rest with
  | nil =>
    refine ⟨⟨_, hscan, rfl⟩, ?_⟩
    simp only [Board.scanStep]
    split <;> exact ⟨rfl, rfl⟩
  | cons entry rest =>
    exfalso
    simp only [Board.scanStep] at henter
    split at henter
    · split at henter <;> simp [Board.setScan, Board.leave, System.goto, hlower] at henter
    · simp [Board.setScan, hlower] at henter

/-- In every run in which no hart is started behind a scan, a `system_suspend`
that passes its check and enters `hart_suspend` finds every other enabled hart
stopped, with no accepted start still to be consumed. -/
theorem systemSuspend_alone [DecidableEq H] (board : Option (List (H × Bool))) (bootHart : H)
    {b b' : Board H} (hreach : Reachable (Board.Initial bootHart) (Board.QuietStep board) b)
    {h : H} {hsm : Bool} {suspendType : SuspendType} (hstep : b.Step board (.scan h hsm) b')
    (henter : b'.harts.pc h = .suspendClear suspendType) : b'.Alone board h := by
  have inv : b.Inv board bootHart :=
    hreach.invariant (fun _ => board_inv_initial) fun _ _ _ inv hquiet => board_inv_step inv hquiet
  have hlower : b.harts.pc h = .lower := by
    obtain ⟨scan, hscan, -⟩ := Option.map_eq_some_iff.mp hstep
    exact (inv.scans h scan hscan).lower
  obtain ⟨⟨scan, hscan, hdone⟩, hcell, hhistory⟩ := enters_of_scanStep hstep hlower henter
  intro enabled henabled t ht hne
  have hpassed : scan.Passed t := by
    rw [Scan.Passed, hdone]
    exact List.not_mem_nil
  have hstate := (inv.scans h scan hscan).stopped enabled henabled t ht hne hpassed
  rw [hcell, hhistory]
  refine ⟨hstate, ?_⟩
  rw [acceptedStages_eq _ (inv.handoff.history t)]
  simp [HartStateCell.phase, hstate, Phase.outstanding]

/-! ## Runs of the board -/

theorem run_of_boardExec [DecidableEq H] {board : Option (List (H × Bool))}
    {actions : List (Action H)} :
    ∀ {b b' : Board H}, b.exec board actions = some b' → Run (Board.Step board) b actions b' := by
  induction actions with
  | nil =>
    intro b b' h
    cases h
    exact .nil b
  | cons action rest ih =>
    intro b b' h
    obtain ⟨b₁, hstep, hrest⟩ := Option.bind_eq_some_iff.mp h
    exact .cons hstep (ih hrest)

/-- The stages of the three-hart runs. -/
def payload : NextStage := ⟨0x80200000, 1, .supervisor⟩

/-- Three harts at boot, all enabled. -/
def threeHarts : Board (Fin 3) where
  harts :=
    { cell := fun _ => .new
      pc := fun h => if h = 0 then .stageReserve payload else .clear .finisher
      ticket := fun _ => none
      pending := fun _ => false
      history := fun _ => [] }
  scan := fun _ => none

theorem threeHarts_initial : threeHarts.Initial 0 := by
  refine ⟨⟨⟨_, rfl⟩, fun h hne => if_neg hne, fun _ => ⟨rfl, rfl, rfl⟩⟩, fun _ => rfl⟩

/-- The enabled harts of the three-hart runs. -/
def threeEnabled : Option (List (Fin 3 × Bool)) := some [(0, true), (1, true), (2, true)]

/-- A run of the lifecycle is a run of the board in which no hart scans. -/
theorem quietRun_of_run [DecidableEq H] (board : Option (List (H × Bool))) {s s' : System H}
    {labels : List (H × Choice H)} (hrun : Run System.Step s labels s') :
    Run (Board.QuietStep board) ⟨s, fun _ => none⟩ (labels.map fun label => .hart label.1 label.2)
      ⟨s', fun _ => none⟩ := by
  induction hrun with
  | nil s => exact .nil _
  | @cons s s₁ s' label labels hstep _ ih =>
    refine .cons ⟨?_, ?_, ?_⟩ ih
    · unfold System.Step at hstep
      simp [Board.Step, Board.step, hstep]
    · intro i t stage _ _ _ h scan hscan
      cases hscan
    · intro h sleepType prevMode checked resumeAddr opaqueValue haction
      cases haction

theorem quietStep_scan [DecidableEq H] {board : Option (List (H × Bool))} {b b' : Board H} {h : H}
    {hsm : Bool} (hstep : b.Step board (.scan h hsm) b') :
    b.QuietStep board (.scan h hsm) b' := by
  refine ⟨hstep, ?_, ?_⟩
  · intro i t stage haction
    cases haction
  · intro h sleepType prevMode checked resumeAddr opaqueValue haction
    cases haction

/-- A call that finds every hart privilege-checked leaves none of them out. -/
theorem quietStep_systemSuspend [DecidableEq H] {board : Option (List (H × Bool))} {b b' : Board H}
    {h : H} {sleepType : UInt32} {prevMode : PreviousMode} {resumeAddr opaqueValue : Nat}
    (hstep : b.Step board
      (.systemSuspend h sleepType prevMode (fun _ => true) resumeAddr opaqueValue) b') :
    b.QuietStep board
      (.systemSuspend h sleepType prevMode (fun _ => true) resumeAddr opaqueValue) b' := by
  refine ⟨hstep, ?_, ?_⟩
  · intro i t stage haction
    cases haction
  · intro h sleepType prevMode checked resumeAddr opaqueValue haction enabled _ t _ _ hchecked
    cases haction
    cases hchecked

set_option maxRecDepth 8000 in
/-- Hart 0 boots and finds the two other harts stopped. -/
theorem systemSuspend_alone_three_harts :
    ∃ b b' : Board (Fin 3), Reachable (Board.Initial 0) (Board.QuietStep threeEnabled) b ∧
      b.Step threeEnabled (.scan 0 true) b' ∧
      (∃ suspendType, b'.harts.pc 0 = .suspendClear suspendType) ∧ b'.Alone threeEnabled 0 := by
  obtain ⟨s, hexec, b₁, b₂, b₃, b₄, b₅, h₁, h₂, h₃, h₄, h₅, suspendType, henter⟩ :
      ∃ s, threeHarts.harts.exec (List.replicate 9 (0, .proceed)) = some s ∧
      ∃ b₁ b₂ b₃ b₄ b₅ : Board (Fin 3),
        Board.step threeEnabled ⟨s, fun _ => none⟩ (.systemSuspend 0 suspendToRam .supervisor
          (fun _ => true) 0x80300000 0) = some b₁ ∧
        b₁.step threeEnabled (.scan 0 true) = some b₂ ∧
        b₂.step threeEnabled (.scan 0 true) = some b₃ ∧
        b₃.step threeEnabled (.scan 0 true) = some b₄ ∧
        b₄.step threeEnabled (.scan 0 true) = some b₅ ∧
        ∃ suspendType, b₅.harts.pc 0 = .suspendClear suspendType :=
    ⟨_, rfl, _, _, _, _, _, rfl, rfl, rfl, rfl, rfl, _, rfl⟩
  have hscans : Run (Board.QuietStep threeEnabled) ⟨s, fun _ => none⟩ _ b₄ :=
    .cons (quietStep_systemSuspend h₁) (.cons (quietStep_scan h₂) (.cons (quietStep_scan h₃)
      (.cons (quietStep_scan h₄) (.nil b₄))))
  have hreach : Reachable (Board.Initial 0) (Board.QuietStep threeEnabled) b₄ :=
    ⟨threeHarts, _, threeHarts_initial,
      (quietRun_of_run threeEnabled (run_of_exec hexec)).append hscans⟩
  exact ⟨b₄, b₅, hreach, h₅, ⟨suspendType, henter⟩,
    systemSuspend_alone threeEnabled 0 hreach h₅ henter⟩

/-- Hart 0 boots and starts hart 2, which enters its stage. -/
def twoRun : List (Action (Fin 3)) :=
  List.replicate 9 (.hart 0 .proceed) ++ .hart 0 (.hartStart 2 payload) ::
    List.replicate 6 (.hart 0 .proceed) ++ List.replicate 6 (.hart 2 .proceed)

/-- Hart 0 reads hart 1 as stopped; hart 2 starts hart 1 and stops; hart 0 reads
hart 2 as stopped. -/
def startedBehindScan : List (Action (Fin 3)) :=
  .systemSuspend 0 suspendToRam .supervisor (fun _ => true) 0x80300000 0 ::
    .scan 0 true :: .scan 0 true :: .hart 2 (.hartStart 1 payload) ::
    List.replicate 6 (.hart 2 .proceed) ++ .hart 2 .hartStop ::
    List.replicate 2 (.hart 2 .proceed) ++ [.scan 0 true]

set_option maxRecDepth 8000 in
/-- A run at whose end a `system_suspend` enters `hart_suspend` while another
enabled hart has a published start. -/
theorem suspends_beside_started_hart :
    ∃ b b' : Board (Fin 3), Reachable (Board.Initial 0) (Board.Step threeEnabled) b ∧
      b.Step threeEnabled (.scan 0 true) b' ∧
      (∃ suspendType, b'.harts.pc 0 = .suspendClear suspendType) ∧
      (b'.harts.cell 1).state = stateStartPending ∧ ¬ b'.Alone threeEnabled 0 := by
  obtain ⟨b, hexec, b', hstep, henter, hstate⟩ : ∃ b,
      threeHarts.exec threeEnabled (twoRun ++ startedBehindScan) = some b ∧
      ∃ b', b.step threeEnabled (.scan 0 true) = some b' ∧
        (∃ suspendType, b'.harts.pc 0 = .suspendClear suspendType) ∧
        (b'.harts.cell 1).state = stateStartPending :=
    ⟨_, rfl, _, rfl, ⟨_, rfl⟩, rfl⟩
  refine ⟨b, b', ⟨threeHarts, _, threeHarts_initial, run_of_boardExec hexec⟩, hstep, henter, hstate,
    ?_⟩
  intro halone
  have hstopped := (halone _ rfl 1 (by decide) (by decide)).1
  rw [hstate] at hstopped
  revert hstopped
  decide

end RustSbi.Hart
