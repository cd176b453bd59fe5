import RustSbi.Sbi.RfenceAccounting

/-!
No remote fence is stranded. A source queues its request before it marks the
target, and a target clears its mark before it drains the queue, so the mark and
the queue go out of step. What holds at all times is that a queued request has a
mark, a drain that will still look at the queue, or a source about to set the
mark. A mark over an empty queue makes the target look and find nothing.
-/

namespace RustSbi.Rfence

open Ipi Ledger Transition

variable {platform : Platform} {s s' : System} {h t : Nat}

/-! ## Marks and queues -/

/-- The fence queue of a hart. -/
def System.queue (s : System) (t : Nat) : List Entry := (s.hartLocal t).rfence.queue

/-- The `FENCE` bit of a hart's pending types is set. -/
def System.FenceMarked (s : System) (t : Nat) : Prop :=
  (s.hartLocal t).ipiType &&& ipiTypeFence ≠ 0#8

/-- Somebody is about to look at the queue of the hart: it is marked, it is in
the loop of `rfence_handler` and will find the queue empty before it leaves, or
a source has pushed and is about to mark. -/
def System.Served (s : System) (t : Nat) : Prop :=
  s.FenceMarked t ∨ s.pc t = .drain ∨ ∃ source call, s.pc source = .mark call t

def System.NotStranded (s : System) : Prop := ∀ t, s.queue t ≠ [] → s.Served t

/-- The program counters that serve a queue. -/
def Pc.serves : Pc → Bool
  | .drain | .mark _ _ => true
  | _ => false

@[simp] theorem queue_setLocal (hartLocal : HartLocal) :
    (s.setLocal h hartLocal).queue t =
      if t = h then hartLocal.rfence.queue else s.queue t := by
  unfold System.queue System.setLocal
  by_cases hth : t = h <;> simp [hth]

/-- A write of a hart's local data that keeps its queue. -/
theorem queue_of_setLocal {hartLocal : HartLocal} (hne : (s.setLocal h hartLocal).queue t ≠ [])
    (hsame : hartLocal.rfence.queue = s.queue h) : s.queue t ≠ [] := by
  rw [queue_setLocal] at hne
  split at hne
  · rename_i hth
    rw [hth, ← hsame]
    exact hne
  · exact hne

theorem fenceMarked_setLocal (hartLocal : HartLocal)
    (hmark : s.FenceMarked h → hartLocal.ipiType &&& ipiTypeFence ≠ 0#8)
    (hmarked : s.FenceMarked t) : (s.setLocal h hartLocal).FenceMarked t := by
  unfold System.FenceMarked System.setLocal
  by_cases hth : t = h
  · subst hth
    simpa using hmark hmarked
  · simp only [Function.update_of_ne hth]
    exact hmarked

/-- Setting a type keeps the `FENCE` bit. -/
theorem fenceMarked_setIpiType (eventId : BitVec 8) (hmarked : s.FenceMarked t) :
    (s.setIpiType h eventId).FenceMarked t := by
  refine fenceMarked_setLocal _ (fun hself => ?_) hmarked
  intro hzero
  apply hself
  have hor : ∀ x y z : BitVec 8, (x ||| y) &&& z = 0#8 → x &&& z = 0#8 := by
    intro x y z hxyz
    apply BitVec.eq_of_getLsbD_eq
    intro i hi
    have hbit : ((x ||| y) &&& z).getLsbD i = (0#8).getLsbD i := by rw [hxyz]
    simp only [BitVec.getLsbD_and, BitVec.getLsbD_or, BitVec.getLsbD_zero] at hbit ⊢
    cases hx : x.getLsbD i <;> simp_all
  exact hor _ _ _ hzero

theorem fenceMarked_of_setIpiType : (s.setIpiType t ipiTypeFence).FenceMarked t := by
  unfold System.FenceMarked System.setIpiType System.setLocal
  simp only [Function.update_self]
  intro hzero
  have hbit : (((s.hartLocal t).ipiType ||| ipiTypeFence) &&& ipiTypeFence).getLsbD 1 =
      (0#8).getLsbD 1 := by rw [hzero]
  simp [ipiTypeFence] at hbit

/-- A queue that is served stays served while its mark stays set and every
program counter that serves stays where it is. -/
theorem System.Served.keep (hserved : s.Served t)
    (hmark : s.FenceMarked t → s'.FenceMarked t)
    (hpc : ∀ k, (s.pc k).serves = true → s'.pc k = s.pc k) : s'.Served t := by
  rcases hserved with hmarked | hdrain | ⟨source, call, hsource⟩
  · exact .inl (hmark hmarked)
  · exact .inr (.inl (by rw [hpc t (by rw [hdrain]; rfl), hdrain]))
  · exact .inr (.inr ⟨source, call, by rw [hpc source (by rw [hsource]; rfl), hsource]⟩)

theorem System.NotStranded.keep (hall : s.NotStranded)
    (hqueue : ∀ t, s'.queue t ≠ [] → s.queue t ≠ [])
    (hmark : ∀ t, s.FenceMarked t → s'.FenceMarked t)
    (hpc : ∀ k, (s.pc k).serves = true → s'.pc k = s.pc k) : s'.NotStranded :=
  fun t ht => (hall t (hqueue t ht)).keep (hmark t) hpc

/-- The program counters that a hart outside drain and mark leaves as they are. -/
theorem pc_goto_of_not_serves {pc pc' : Pc} (hpc : s.pc h = pc) (hserves : pc.serves = false)
    (k : Nat) (hk : (s.pc k).serves = true) : (s.goto h pc').pc k = s.pc k := by
  have hne : k ≠ h := by
    rintro rfl
    rw [hpc, hserves] at hk
    cases hk
  simp [System.goto, hne]

/-! ## Steps -/

/-- A step that writes no pending types, grows no queue and moves a hart that
serves no queue. -/
theorem System.NotStranded.move (hall : s.NotStranded) {pc : Pc} (hpc : s.pc h = pc)
    (hserves : pc.serves = false) (pc' : Pc) (s₁ : System) (hpcs : s₁.pc = s.pc)
    (hqueue : ∀ t, s₁.queue t ≠ [] → s.queue t ≠ [])
    (hmark : ∀ t, s.FenceMarked t → s₁.FenceMarked t) : (s₁.goto h pc').NotStranded := by
  refine hall.keep hqueue hmark fun k hk => ?_
  rw [← hpcs] at hpc hk ⊢
  exact pc_goto_of_not_serves hpc hserves k hk

theorem fenceMarked_setCell (u : Nat) (cell : RFenceCell) (hmarked : s.FenceMarked t) :
    (s.setCell u cell).FenceMarked t :=
  fenceMarked_setLocal _ id hmarked

/-- Taking entries out of a queue leaves the others as they are. -/
theorem queue_setCell_of_subset {u : Nat} {cell : RFenceCell}
    (hsub : cell.queue ≠ [] → s.queue u ≠ []) (hne : (s.setCell u cell).queue t ≠ []) :
    s.queue t ≠ [] := by
  unfold System.setCell at hne
  rw [queue_setLocal] at hne
  split at hne
  · rename_i htu
    subst htu
    exact hsub hne
  · exact hne

theorem ne_nil_of_cancel {cell cell' : RFenceCell} {source : Nat} {entry : Entry}
    (hcancel : cell.cancel source = some (entry, cell')) : cell.queue ≠ [] := by
  intro hnil
  simp [RFenceCell.cancel, hnil] at hcancel

theorem NotStranded.handle (hall : s.NotStranded) {handler : Handler}
    (hstep : s.handle platform h handler = some s') : s'.NotStranded := by
  cases handler with
  | none => cases hstep
  | poll =>
    simp only [System.handle] at hstep
    split at hstep <;> cases hstep <;> exact hall.keep (fun _ => id) (fun _ => id) fun _ _ => rfl
  | get =>
    simp only [System.handle] at hstep
    split at hstep
    · rename_i entry cell hget
      cases hstep
      refine hall.keep (fun t => queue_setCell_of_subset fun _ => ?_)
        (fun t => fenceMarked_setCell h cell) fun _ _ => rfl
      intro hnil
      unfold System.queue at hnil
      simp [RFenceCell.get, hnil] at hget
    · rename_i hget
      cases hstep
      have hempty : s.queue h = [] := by
        unfold System.queue
        cases hqueue : (s.hartLocal h).rfence.queue with
        | nil => rfl
        | cons entry rest => simp [RFenceCell.get, hqueue] at hget
      -- The hart leaves its drain, and its own queue is empty.
      intro t ht
      have hth : t ≠ h := by
        rintro rfl
        exact ht hempty
      have hpc : ∀ k, s.pc k ≠ .drain ∨ k ≠ h → ((s.setHandler h .none).goto h
          (if s.pc h = .drain then .idle else s.pc h)).pc k = s.pc k := by
        intro k hk
        by_cases hkh : k = h
        · subst hkh
          have hdrain : s.pc k ≠ .drain := hk.resolve_right (absurd rfl)
          simp [System.goto, hdrain]
        · simp [System.goto, System.setHandler, hkh]
      rcases hall t ht with hmarked | hdrain | ⟨source, call, hsource⟩
      · exact .inl hmarked
      · exact .inr (.inl (by rw [hpc t (.inr hth), hdrain]))
      · refine .inr (.inr ⟨source, call, ?_⟩)
        rw [hpc source (.inl (by rw [hsource]; exact Pc.noConfusion)), hsource]
  | execute entry =>
    cases hstep
    exact hall.keep (fun t ht => queue_of_setLocal ht rfl)
      (fun t => fenceMarked_setLocal _ id) fun _ _ => rfl
  | acknowledge entry =>
    cases hstep
    exact hall.keep (fun t ht => queue_of_setLocal ht rfl)
      (fun t => fenceMarked_setCell entry.source _) fun _ _ => rfl

theorem NotStranded.proceed (hall : s.NotStranded) {pc : Pc} (hpc : s.pc h = pc)
    {choice : Choice platform.xlen} (hstep : s.proceed platform h pc choice = some s') :
    s'.NotStranded := by
  have hpoll : (s.setHandler h .poll).NotStranded :=
    hall.keep (fun _ => id) (fun _ => id) fun _ _ => rfl
  revert hstep
  fun_cases System.proceed platform s h pc choice
  case case1 | case21 =>
    rintro ⟨⟩
  case case2 =>
    rintro ⟨⟩
    exact hall
  case case3 ids htargets =>
    rintro ⟨⟩
    exact hall.move hpc rfl _ s rfl (fun _ => id) fun _ => id
  case case4 =>
    rintro ⟨⟩
    intro t ht
    have hqueue : s.queue t ≠ [] := queue_of_setLocal (s := s) (h := h) ht rfl
    by_cases hth : t = h
    · subst hth
      -- The hart was idle, so a queued request had its mark or a source about to mark.
      rcases hall t hqueue with hmarked | hdrain | ⟨source, call, hsource⟩
      · refine .inr (.inl ?_)
        unfold System.FenceMarked at hmarked
        simp [System.deliver, System.goto, hmarked]
      · rw [hpc] at hdrain
        cases hdrain
      · refine .inr (.inr ⟨source, call, ?_⟩)
        have hne : source ≠ t := by
          rintro rfl
          rw [hpc] at hsource
          cases hsource
        simpa [System.deliver, System.goto, System.setLocal, hne] using hsource
    · refine (hall t hqueue).keep (fun hmarked => ?_) fun k hk => ?_
      · unfold System.FenceMarked System.deliver System.goto System.setLocal
        simp only [Function.update_of_ne hth]
        exact hmarked
      · exact pc_goto_of_not_serves (s := s) hpc rfl k hk
  case case5 target =>
    rintro ⟨⟩
    exact hall.keep (fun t ht => queue_of_setLocal ht rfl)
      (fun t => fenceMarked_setIpiType ipiTypeSsoft) fun _ _ => rfl
  case case6 =>
    rintro ⟨⟩
    exact hall.keep (fun _ => id) (fun _ => id) fun _ _ => rfl
  case case7 call hrest =>
    rintro ⟨⟩
    exact hall.move hpc rfl _ s rfl (fun _ => id) fun _ => id
  case case8 call rest hrest visit ticket =>
    rintro ⟨⟩
    exact hall.move hpc rfl _ (((s.issue platform h call.ctx).record _).record _) rfl
      (fun t ht => queue_of_setLocal ht rfl) fun t => fenceMarked_setLocal _ id
  case case9 call target rest hrest visit ticket hne =>
    rintro ⟨⟩
    exact hall.move hpc rfl _ ((s.setCell h _).record _) rfl
      (fun t ht => queue_of_setLocal ht rfl) fun t => fenceMarked_setCell h _
  case case10 call target cell hpush =>
    rintro ⟨⟩
    intro t ht
    by_cases htarget : t = target
    · subst htarget
      exact .inr (.inr ⟨h, call, by simp [System.goto]⟩)
    · have hqueue : s.queue t ≠ [] := by
        have hq : (s.setCell target cell).queue t ≠ [] := ht
        rwa [System.setCell, queue_setLocal, if_neg htarget] at hq
      exact (hall t hqueue).keep (fenceMarked_setCell target cell)
        fun k hk => pc_goto_of_not_serves (s := s.setCell target cell) hpc rfl k hk
  case case11 | case12 | case20 =>
    rintro ⟨⟩
    exact hpoll
  case case13 call target =>
    rintro ⟨⟩
    intro t ht
    by_cases htarget : t = target
    · subst htarget
      exact .inl fenceMarked_of_setIpiType
    · have hqueue : s.queue t ≠ [] := queue_of_setLocal (s := s) (h := target) ht rfl
      rcases hall t hqueue with hmarked | hdrain | ⟨source, call', hsource⟩
      · exact .inl (fenceMarked_setIpiType ipiTypeFence hmarked)
      · have hne : t ≠ h := by
          rintro rfl
          rw [hpc] at hdrain
          cases hdrain
        exact .inr (.inl (by simpa [System.goto, System.setIpiType, System.setLocal, hne]))
      · have hne : source ≠ h := by
          rintro rfl
          rw [hpc] at hsource
          cases hsource
          exact htarget rfl
        refine .inr (.inr ⟨source, call', ?_⟩)
        simpa [System.goto, System.setIpiType, System.setLocal, hne] using hsource
  case case14 call target | case15 call target =>
    rintro ⟨⟩
    exact hall.move hpc rfl _ s rfl (fun _ => id) fun _ => id
  case case16 call target entry cell hcancel =>
    rintro ⟨⟩
    exact hall.move hpc rfl _ ((s.setCell target cell).record _) rfl
      (fun t => queue_setCell_of_subset fun _ => ne_nil_of_cancel hcancel)
      fun t => fenceMarked_setCell target cell
  case case17 call target hcancel =>
    rintro ⟨⟩
    exact hall.move hpc rfl _ s rfl (fun _ => id) fun _ => id
  case case18 call entry target =>
    rintro ⟨⟩
    exact hall.move hpc rfl _ (s.setCell h _) rfl (fun t ht => queue_of_setLocal ht rfl) fun t => fenceMarked_setCell h _
  case case19 call hsync =>
    rintro ⟨⟩
    exact hall.move hpc rfl _ (s.record _) rfl (fun _ => id) fun _ => id

theorem notStranded_of_reachable
    (hreach : Reachable (· = System.init) (System.Step platform) s) : s.NotStranded := by
  refine hreach.invariant (fun s₀ hinit => ?_) fun s₁ label s₂ hall hstep => ?_
  · subst hinit
    intro t ht
    exact absurd rfl ht
  · rcases step_cases hstep with ⟨-, hproceed⟩ | hhandle
    · exact NotStranded.proceed hall rfl hproceed
    · exact NotStranded.handle hall hhandle

/-! ## Marks over an empty queue -/

/-- The hart has taken no request out of its queue that it has still to serve. -/
def Handler.atRest : Handler → Bool
  | .none | .poll | .get => true
  | .execute _ | .acknowledge _ => false

/-- The fences that a hart has executed for other harts. -/
def remoteExecuted (t : Nat) (log : List (Event Nat RFenceContext)) : Nat :=
  log.countP fun
    | .executed ticket => decide (ticket.target = t ∧ ticket.source ≠ t)
    | _ => false

/-- A step after which the queue of the hart is empty. -/
def System.EmptyStep (platform : Platform) (t : Nat) (s : System)
    (label : Nat × Choice platform.xlen) (s' : System) : Prop :=
  s.Step platform label s' ∧ s'.queue t = []

theorem waitCount_tryPush {cell cell' : RFenceCell} {entry : Entry}
    (hpush : cell.tryPush entry = some cell') : cell'.waitSyncCount = cell.waitSyncCount := by
  unfold RFenceCell.tryPush at hpush
  split at hpush
  · cases hpush
  · cases hpush
    rfl

theorem waitCount_setLocal_other {k : Nat} (hk : k ≠ h) (hartLocal : HartLocal) :
    (s.setLocal h hartLocal).waitCount k = s.waitCount k := by
  rw [waitCount_setLocal, if_neg hk]

/-- Outside a handler a hart executes its own fences only. -/
theorem remoteExecuted_proceed {pc : Pc} {choice : Choice platform.xlen}
    (hstep : s.proceed platform h pc choice = some s') :
    remoteExecuted t s'.log = remoteExecuted t s.log := by
  revert hstep
  fun_cases System.proceed platform s h pc choice
  case case8 call rest hrest visit ticket =>
    rintro ⟨⟩
    simp [System.goto, System.record, System.issue, System.setLocal, remoteExecuted, ticket,
      Entry.ticket, Call.entry]
  all_goals rintro ⟨⟩
  all_goals simp [System.goto, System.record, System.setLocal, System.setCell,
    System.setHandler, System.setIpiType, System.begin, System.deliver, remoteExecuted]

theorem waitCount_setIpiType (eventId : BitVec 8) (k : Nat) :
    (s.setIpiType h eventId).waitCount k = s.waitCount k := by
  unfold System.setIpiType
  apply waitCount_setLocal_same
  rfl

/-- Outside a handler a hart writes no wait count but its own. -/
theorem waitCount_proceed {pc : Pc} {choice : Choice platform.xlen}
    (hstep : s.proceed platform h pc choice = some s') {k : Nat} (hk : k ≠ h) :
    s'.waitCount k = s.waitCount k := by
  revert hstep
  fun_cases System.proceed platform s h pc choice
  case case5 target | case13 call target =>
    rintro ⟨⟩
    exact waitCount_setIpiType (s := s) (h := target) _ k
  case case10 call target cell hpush =>
    rintro ⟨⟩
    exact waitCount_setLocal_same (s := s) (h := target) (waitCount_tryPush hpush) k
  case case16 call target entry cell hcancel =>
    rintro ⟨⟩
    obtain ⟨-, -, -, -, -, hwait⟩ := cancel_spec hcancel
    exact waitCount_setLocal_same (s := s) (h := target) hwait k
  all_goals rintro ⟨⟩
  all_goals first
    | rfl
    | exact waitCount_setLocal_other (s := s) hk _

/-- Outside a handler a hart starts none that holds a request. -/
theorem atRest_proceed {pc : Pc} {choice : Choice platform.xlen}
    (hstep : s.proceed platform h pc choice = some s') (hrest : (s.handler t).atRest = true) :
    (s'.handler t).atRest = true := by
  revert hstep
  fun_cases System.proceed platform s h pc choice
  case case6 | case11 | case12 | case20 =>
    rintro ⟨⟩
    by_cases hth : t = h
    · subst hth
      simp [System.setHandler, Handler.atRest]
    · simpa [System.setHandler, hth] using hrest
  all_goals rintro ⟨⟩
  all_goals exact hrest

/-- A handler that finds its queue empty holds no request, executes nothing and
acknowledges nothing. -/
theorem handle_empty {handler : Handler} (hstep : s.handle platform t handler = some s')
    (hempty : s.queue t = []) (hrest : handler.atRest = true) :
    (s'.handler t).atRest = true ∧ s'.log = s.log ∧ s'.hartLocal = s.hartLocal := by
  cases handler with
  | none => cases hstep
  | poll =>
    simp only [System.handle] at hstep
    split at hstep <;> cases hstep <;> simp [System.setHandler, Handler.atRest]
  | get =>
    have hget : (s.hartLocal t).rfence.get = none := by
      unfold System.queue at hempty
      simp [RFenceCell.get, hempty]
    simp only [System.handle, hget] at hstep
    cases hstep
    simp [System.setHandler, System.goto, Handler.atRest]
  | execute entry => cases hrest
  | acknowledge entry => cases hrest

theorem handle_other {handler : Handler} (hstep : s.handle platform h handler = some s')
    (hne : t ≠ h) :
    s'.handler t = s.handler t ∧ remoteExecuted t s'.log = remoteExecuted t s.log := by
  have htarget : ¬ h = t := fun heq => hne heq.symm
  cases handler with
  | none => cases hstep
  | poll =>
    simp only [System.handle] at hstep
    split at hstep <;> cases hstep <;> simp [System.setHandler, hne]
  | get =>
    simp only [System.handle] at hstep
    split at hstep <;> cases hstep <;>
      simp [System.setHandler, System.setCell, System.setLocal, System.goto, hne]
  | execute entry =>
    cases hstep
    simp [System.setHandler, System.record, System.issue, System.setLocal, remoteExecuted,
      Entry.ticket, hne, htarget]
  | acknowledge entry =>
    cases hstep
    simp [System.setHandler, System.setCell, System.setLocal, hne]

/-- What stays as it is while the queue of a hart is empty and it holds no
request. -/
theorem emptyStep_keeps {label : Nat × Choice platform.xlen}
    (hstep : s.EmptyStep platform t label s') (hempty : s.queue t = [])
    (hrest : (s.handler t).atRest = true) :
    (s'.handler t).atRest = true ∧ remoteExecuted t s'.log = remoteExecuted t s.log := by
  rcases step_cases hstep.1 with ⟨-, hproceed⟩ | hhandle
  · exact ⟨atRest_proceed hproceed hrest, remoteExecuted_proceed hproceed⟩
  · by_cases ht : t = label.1
    · subst ht
      obtain ⟨hrest', hlog, -⟩ := handle_empty hhandle hempty hrest
      exact ⟨hrest', by rw [hlog]⟩
    · obtain ⟨hhandler, hlog⟩ := handle_other hhandle ht
      exact ⟨hhandler ▸ hrest, hlog⟩

/-- While its queue is empty, a hart that holds no request executes no fence for
another hart and acknowledges none, whatever its mark says. -/
theorem empty_queue_silent {labels : List (Nat × Choice platform.xlen)}
    (hrun : Run (System.EmptyStep platform t) s labels s') (hempty : s.queue t = [])
    (hrest : (s.handler t).atRest = true) :
    s'.queue t = [] ∧ (s'.handler t).atRest = true ∧
      remoteExecuted t s'.log = remoteExecuted t s.log := by
  induction hrun with
  | nil s => exact ⟨hempty, hrest, rfl⟩
  | cons hstep _ ih =>
    obtain ⟨hrest₁, hlog₁⟩ := emptyStep_keeps hstep hempty hrest
    obtain ⟨hempty', hrest', hlog'⟩ := ih hstep.2 hrest₁
    exact ⟨hempty', hrest', hlog'.trans hlog₁⟩

theorem no_acknowledgement {choice : Choice platform.xlen}
    (hstep : s.Step platform (t, choice) s') (hempty : s.queue t = [])
    (hrest : (s.handler t).atRest = true) {k : Nat} (hk : k ≠ t) :
    s'.waitCount k = s.waitCount k := by
  rcases step_cases hstep with ⟨-, hproceed⟩ | hhandle
  · exact waitCount_proceed hproceed hk
  · obtain ⟨-, -, hlocal⟩ := handle_empty hhandle hempty hrest
    unfold System.waitCount
    rw [hlocal]

/-- No remote fence is stranded: in every state that the harts reach, a queued
request has its target marked, draining or about to be marked. And along every
run in which the queue of a hart stays empty, from a state in which it holds no
request, the hart executes no fence for another and no step of it changes the
wait count of another hart, marked or not. -/
theorem no_fence_stranded (platform : Platform) :
    (∀ s, Reachable (· = System.init) (System.Step platform) s → ∀ t, s.queue t ≠ [] →
      s.FenceMarked t ∨ s.pc t = .drain ∨ ∃ source call, s.pc source = .mark call t) ∧
    ∀ s, Reachable (· = System.init) (System.Step platform) s → ∀ t, s.queue t = [] →
      (s.handler t).atRest = true → ∀ labels s', Run (System.EmptyStep platform t) s labels s' →
        remoteExecuted t s'.log = remoteExecuted t s.log ∧
        ∀ choice s'', s'.Step platform (t, choice) s'' → ∀ k ≠ t, s''.waitCount k = s'.waitCount k := by
  refine ⟨fun s hreach => notStranded_of_reachable hreach, ?_⟩
  intro s _ t hempty hrest labels s' hrun
  obtain ⟨hempty', hrest', hlog⟩ := empty_queue_silent hrun hempty hrest
  exact ⟨hlog, fun choice s'' hstep k hk => no_acknowledgement hstep hempty' hrest' hk⟩

theorem step_of_exec {label : Nat × Choice platform.xlen}
    (hexec : s.exec platform [label] = some s') : s.Step platform label s' := by
  cases run_of_exec hexec with
  | cons hstep hnil =>
    cases hnil
    exact hstep

set_option maxRecDepth 8000 in
/-- Hart 0 has pushed a request to hart 1 and has not marked it yet; and after a
cancelled request hart 1 is marked over an empty queue: it ends its drain and
enters the next without executing anything. -/
theorem no_fence_stranded_two_harts :
    (∃ s, System.init.exec twoHarts (fenceThenFail.take 4) = some s ∧ s.queue 1 ≠ [] ∧
      (s.FenceMarked 1 ∨ s.pc 1 = .drain ∨ ∃ source call, s.pc source = .mark call 1)) ∧
    ∃ s s', System.init.exec twoHarts fenceThenFail = some s ∧ s.queue 1 = [] ∧ s.FenceMarked 1 ∧
      s.exec twoHarts [(1, .proceed), (1, .proceed), (1, .deliver)] = some s' ∧
        s'.pc 1 = .drain ∧ remoteExecuted 1 s'.log = remoteExecuted 1 s.log := by
  constructor
  · obtain ⟨s, hexec, hqueue⟩ : ∃ s, System.init.exec twoHarts (fenceThenFail.take 4) = some s ∧
        s.queue 1 ≠ [] := ⟨_, rfl, List.cons_ne_nil _ _⟩
    have hreach : Reachable (· = System.init) (System.Step twoHarts) s :=
      ⟨_, _, rfl, run_of_exec hexec⟩
    exact ⟨s, hexec, hqueue, (no_fence_stranded twoHarts).1 s hreach 1 hqueue⟩
  · obtain ⟨s, hexec, hempty, hmarked, hrest, s₁, h₁, he₁, s₂, h₂, he₂, s₃, h₃, he₃, hall, hdone⟩ :
        ∃ s, System.init.exec twoHarts fenceThenFail = some s ∧ s.queue 1 = [] ∧
          (s.hartLocal 1).ipiType = 2#8 ∧ (s.handler 1).atRest = true ∧
          ∃ s₁, s.exec twoHarts [(1, .proceed)] = some s₁ ∧ s₁.queue 1 = [] ∧
          ∃ s₂, s₁.exec twoHarts [(1, .proceed)] = some s₂ ∧ s₂.queue 1 = [] ∧
          ∃ s₃, s₂.exec twoHarts [(1, .deliver)] = some s₃ ∧ s₃.queue 1 = [] ∧
          s.exec twoHarts [(1, .proceed), (1, .proceed), (1, .deliver)] = some s₃ ∧
          s₃.pc 1 = .drain :=
      ⟨_, rfl, rfl, rfl, rfl, _, rfl, rfl, _, rfl, rfl, _, rfl, rfl, rfl, rfl⟩
    have hreach : Reachable (· = System.init) (System.Step twoHarts) s :=
      ⟨_, _, rfl, run_of_exec hexec⟩
    have hrun : Run (System.EmptyStep twoHarts 1) s [(1, .proceed), (1, .proceed), (1, .deliver)]
        s₃ :=
      .cons ⟨step_of_exec h₁, he₁⟩ (.cons ⟨step_of_exec h₂, he₂⟩
        (.cons ⟨step_of_exec h₃, he₃⟩ (.nil s₃)))
    have hmark : s.FenceMarked 1 := by
      rw [System.FenceMarked, hmarked]
      decide
    exact ⟨s, s₃, hexec, hempty, hmark, hall, hdone,
      ((no_fence_stranded twoHarts).2 s hreach 1 hempty hrest _ s₃ hrun).1⟩

end RustSbi.Rfence
