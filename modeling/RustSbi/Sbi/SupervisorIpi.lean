import RustSbi.Sbi.Rfence

/-!
Supervisor interprocessor interrupts (`sbi/ipi.rs`) on any number of harts: the
call `send_ipi`, which marks the targets of a window and then raises their
machine interrupts, the device's pending bits, and `deliver_current` in the
machine interrupt transport, the boot finisher and the suspend path. Every
access of a shared bit is a step of its own. A call that succeeds has had each
of its targets signalled, or an interrupt that will signal it is on its way;
and no hart is signalled that no call named.
-/

namespace RustSbi.SupervisorIpi

open Ipi Rfence Transition

variable {xlen : Xlen}

/-! ## Pending types -/

/-- The `SSOFT` bit of a set of pending types. -/
def Soft (types : BitVec 8) : Prop := types.getLsbD 0 = true

instance (types : BitVec 8) : Decidable (Soft types) := inferInstanceAs (Decidable (_ = true))

/-- The test of `deliver_current`. -/
theorem soft_iff (types : BitVec 8) : types &&& ipiTypeSsoft ≠ 0#8 ↔ Soft types := by
  unfold Soft
  constructor
  · intro hne
    by_contra hclear
    refine hne (BitVec.eq_of_getLsbD_eq fun i hi => ?_)
    rw [BitVec.getLsbD_and, BitVec.getLsbD_zero]
    rcases Nat.eq_zero_or_pos i with rfl | hpos
    · rw [Bool.eq_false_iff.mpr hclear, Bool.false_and]
    · have hbit : ∀ i < 8, 0 < i → ipiTypeSsoft.getLsbD i = false := by decide
      rw [hbit i hi hpos, Bool.and_false]
  · intro hset hzero
    have hbit : (types &&& ipiTypeSsoft).getLsbD 0 = true := by
      rw [BitVec.getLsbD_and, hset]
      decide
    rw [hzero] at hbit
    cases hbit

theorem soft_or_ssoft (types : BitVec 8) : Soft (types ||| ipiTypeSsoft) := by
  have hbit : ipiTypeSsoft.getLsbD 0 = true := by decide
  rw [Soft, BitVec.getLsbD_or, hbit, Bool.or_true]

theorem soft_or_fence (types : BitVec 8) : Soft (types ||| ipiTypeFence) ↔ Soft types := by
  have hbit : ipiTypeFence.getLsbD 0 = false := by decide
  rw [Soft, BitVec.getLsbD_or, hbit, Bool.or_false, Soft]

theorem not_soft_zero : ¬ Soft 0#8 := by decide

/-! ## The machine -/

/-- The callers of `deliver_current`: the machine interrupt transports, the
boot finisher and `suspend_current`. -/
inductive Caller
  | transport
  | finisher
  | suspend
  deriving DecidableEq, Repr

/-- The next atomic step of a hart. -/
inductive Pc
  /-- Below M-mode. -/
  | lower
  /-- `send_ipi`: mark the rest of a window, then raise the interrupts of the
  window, with the windows that follow. -/
  | mark (call : Nat) (todo window : List Nat) (rest : List (List Nat))
  | signal (call : Nat) (todo : List Nat) (rest : List (List Nat))
  /-- The clear in `stop_current`. -/
  | stopClear
  /-- The acknowledgement of the device before `deliver_current`. -/
  | clear (caller : Caller)
  /-- `get_and_reset_ipi_type`. -/
  | take (caller : Caller)
  /-- `deliver_current`, with the types taken. -/
  | deliver (caller : Caller) (types : BitVec 8)
  /-- `rfence_handler`. -/
  | drain (caller : Caller)
  /-- After `deliver_current`. -/
  | delivered (caller : Caller)
  /-- A failed acknowledgement stopped the hart for good. -/
  | halted
  deriving Repr

/-- What the supervisor, the other firmware services and the device decide. -/
inductive Choice (xlen : Xlen)
  | proceed
  /-- The device reports a failure. -/
  | fail
  /-- `sbi_send_ipi`; `receives` says which harts can receive an interrupt when
  the call selects its targets. -/
  | sendIpi (hartMask : HartMask xlen) (receives : Nat → Bool)
  /-- A remote fence marks another hart, and a fence or a hart start raises its interrupt. -/
  | markFence (target : Nat)
  | wake (target : Nat)
  | interrupt
  | stop
  | suspend
  /-- The supervisor clears `sip.SSIP`. -/
  | clearSsip
  /-- The finisher enters a staged next stage. -/
  | enter

/-- What became of a call's mark at a target, for stating properties: it waits
in the pending types, also when the call failed before it raised the interrupt,
the target has taken it, or the supervisor interrupt was set for it. -/
inductive Fate
  | owed
  | unsignalled
  | taken
  | delivered
  deriving DecidableEq, Repr

/-- The mark is in the pending types of the target. -/
def Fate.Waits (fate : Fate) : Prop := fate = .owed ∨ fate = .unsignalled

/-- The fate of a mark when its target takes the pending types. -/
def Fate.take : Fate → Fate
  | .owed => .taken
  | .unsignalled => .taken
  | fate => fate

/-- The fate of a mark when its target sets the supervisor interrupt. -/
def Fate.deliver : Fate → Fate
  | .taken => .delivered
  | fate => fate

theorem Fate.waits_deliver (fate : Fate) : fate.deliver.Waits ↔ fate.Waits := by
  cases fate <;> simp [Fate.deliver, Fate.Waits]

theorem Fate.not_waits_take (fate : Fate) : ¬ fate.take.Waits := by
  cases fate <;> simp [Fate.take, Fate.Waits]

/-- All harts of the machine. The numbers of the calls, their arguments and
results and the fates of their marks are not part of the firmware. -/
structure System (xlen : Xlen) where
  pc : Nat → Pc
  /-- `HartLocal::ipi_type`. -/
  ipiType : Nat → BitVec 8
  /-- The interrupt of the device is pending at the hart. -/
  pending : Nat → Bool
  /-- `mip.SSIP`. -/
  ssip : Nat → Bool
  calls : Nat
  request : Nat → Option (HartMask xlen × (Nat → Bool))
  result : Nat → Option SbiRet
  fate : Nat → Nat → Option Fate

/-- The targets of each request, in order. -/
def windows : List (IpiRequest xlen) → Except Checked.Panic (List (List Nat))
  | [] => .ok []
  | request :: rest =>
    match request.harts with
    | .error panic => .error panic
    | .ok first => (windows rest).map (first :: ·)

theorem requestHarts_eq_flatten (requests : List (IpiRequest xlen)) :
    requestHarts requests = (windows requests).map List.flatten := by
  induction requests with
  | nil => rfl
  | cons request rest ih =>
    simp only [requestHarts, windows]
    cases request.harts with
    | error panic => rfl
    | ok first =>
      simp only [ih]
      cases windows rest <;> rfl

/-- The windows of the targets that a call selects, or the error with which it
returns at once. -/
def targetWindows (harts : Harts) (receives : Nat → Bool) (hartMask : HartMask xlen) :
    Except Checked.Panic (Except SbiRet (List (List Nat))) :=
  match targetRequests harts receives hartMask with
  | .error panic => .error panic
  | .ok (.error ret) => .ok (.error ret)
  | .ok (.ok requests) => (windows requests).map .ok

/-- The windows of a call hold exactly the harts that it names and that can receive, each once. -/
theorem mem_targetWindows {harts : Harts} {receives : Nat → Bool} {hartMask : HartMask xlen}
    {ws : List (List Nat)} (hws : targetWindows harts receives hartMask = .ok (.ok ws)) :
    ws.flatten.Nodup ∧
      ∀ t, t ∈ ws.flatten ↔ available harts receives t = true ∧ hartMask.Denotes t := by
  have htargets : targets harts receives hartMask = .ok (.ok ws.flatten) := by
    unfold targetWindows at hws
    unfold targets
    generalize targetRequests harts receives hartMask = selected at hws ⊢
    obtain panic | ret | requests := selected
    · cases hws
    · cases hws
    · dsimp only at hws ⊢
      rw [requestHarts_eq_flatten]
      cases hw : windows requests with
      | error panic =>
        rw [hw] at hws
        cases hws
      | ok ws' =>
        rw [hw] at hws
        cases hws
        rfl
  obtain ⟨result, hresult, -, hmem, -⟩ := targets_exact harts receives hartMask
  cases hresult.symm.trans htargets
  exact ⟨(hmem _ rfl).1.imp Nat.ne_of_lt, (hmem _ rfl).2⟩

/-! ## Steps -/

namespace System

def goto (s : System xlen) (h : Nat) (pc : Pc) : System xlen :=
  { s with pc := Function.update s.pc h pc }

/-- A device write that raises the interrupt of a hart. -/
def raise (s : System xlen) (t : Nat) : System xlen :=
  { s with pending := Function.update s.pending t true }

def acknowledge (s : System xlen) (h : Nat) : System xlen :=
  { s with pending := Function.update s.pending h false }

/-- `set_ipi_type`. -/
def setIpiType (s : System xlen) (t : Nat) (eventId : BitVec 8) : System xlen :=
  { s with ipiType := Function.update s.ipiType t (s.ipiType t ||| eventId) }

/-- The swap of `get_and_reset_ipi_type`. -/
def resetIpiType (s : System xlen) (h : Nat) : System xlen :=
  { s with
    ipiType := Function.update s.ipiType h 0#8
    fate := fun call t => if t = h then (s.fate call t).map Fate.take else s.fate call t }

def setFate (s : System xlen) (call t : Nat) (fate : Fate) : System xlen :=
  { s with fate := Function.update s.fate call (Function.update (s.fate call) t (some fate)) }

/-- The call returns. A call that fails leaves the marks that it did not signal. -/
def finish (s : System xlen) (h call : Nat) (ret : SbiRet) : System xlen :=
  { s with
    pc := Function.update s.pc h .lower
    result := Function.update s.result call (some ret)
    fate := if ret = .success 0 then s.fate
      else Function.update s.fate call
        fun t => if s.fate call t = some .owed then some .unsignalled else s.fate call t }

/-- Where a call goes on when a window is done. -/
def nextWindow (s : System xlen) (h call : Nat) : List (List Nat) → System xlen
  | [] => s.finish h call (.success 0)
  | window :: rest => s.goto h (.mark call window window rest)

/-- `send_ipi` up to its first window. -/
def begin (s : System xlen) (h : Nat) (hartMask : HartMask xlen) (receives : Nat → Bool)
    (ws : List (List Nat)) : System xlen :=
  nextWindow { s with
    calls := s.calls + 1
    request := Function.update s.request s.calls (some (hartMask, receives)) } h s.calls ws

/-- The part of `deliver_current` for supervisor interrupts. -/
def signalSupervisor (s : System xlen) (h : Nat) : System xlen :=
  { s with
    ssip := Function.update s.ssip h true
    fate := fun call t => if t = h then (s.fate call t).map Fate.deliver else s.fate call t }

/-- The steps of hart `h` below M-mode. -/
def lowerStep (harts : Harts) (s : System xlen) (h : Nat) : Choice xlen → Option (System xlen)
  | .sendIpi hartMask receives =>
    match targetWindows harts receives hartMask with
    | .error _ => none
    | .ok (.error _) => some s
    | .ok (.ok ws) => some (s.begin h hartMask receives ws)
  | .markFence target => some (s.setIpiType target ipiTypeFence)
  | .wake target => some (s.raise target)
  | .interrupt => if s.pending h then some (s.goto h (.clear .transport)) else none
  | .stop => some (s.goto h .stopClear)
  | .suspend => some (s.goto h (.clear .suspend))
  | .clearSsip => some { s with ssip := Function.update s.ssip h false }
  | _ => none

/-- Where a hart goes on after `deliver_current`, when it does not enter a stage:
the finisher waits and looks again. -/
def afterDelivered : Caller → Pc
  | .transport => .lower
  | .finisher => .clear .finisher
  | .suspend => .lower

/-- The M-mode code of hart `h`. -/
def proceed (s : System xlen) (h : Nat) : Pc → Option (System xlen)
  | .lower => none
  | .mark call (t :: todo) window rest =>
    some (((s.setIpiType t ipiTypeSsoft).setFate call t .owed).goto h (.mark call todo window rest))
  | .mark call [] window rest => some (s.goto h (.signal call window rest))
  | .signal call (t :: todo) rest => some ((s.raise t).goto h (.signal call todo rest))
  | .signal call [] rest => some (s.nextWindow h call rest)
  | .stopClear => some ((s.acknowledge h).goto h (.clear .finisher))
  | .clear caller => some ((s.acknowledge h).goto h (.take caller))
  | .take caller => some ((s.resetIpiType h).goto h (.deliver caller (s.ipiType h)))
  | .deliver caller types =>
    let s' := if types &&& ipiTypeSsoft ≠ 0#8 then s.signalSupervisor h else s
    some (s'.goto h (if types &&& ipiTypeFence ≠ 0#8 then .drain caller else .delivered caller))
  | .drain caller => some (s.goto h (.delivered caller))
  | .delivered caller => some (s.goto h (afterDelivered caller))
  | .halted => none

/-- The failures of the device: a call gives up, `stop_current` and
`suspend_current` return the error, and the other two callers panic. -/
def failed (s : System xlen) (h : Nat) : Pc → Option (System xlen)
  | .signal call (_ :: _) _ => some (s.finish h call .failed)
  | .stopClear => some (s.goto h .lower)
  | .clear .suspend => some (s.goto h .lower)
  | .clear _ => some (s.goto h .halted)
  | _ => none

/-- The next atomic step of hart `h`. -/
def step (harts : Harts) (s : System xlen) (h : Nat) (choice : Choice xlen) : Option (System xlen) :=
  match choice, s.pc h with
  | choice, .lower => s.lowerStep harts h choice
  | .proceed, pc => s.proceed h pc
  | .fail, pc => s.failed h pc
  | .enter, .delivered .finisher => some (s.goto h .lower)
  | _, _ => none

def Step (harts : Harts) (s : System xlen) (label : Nat × Choice xlen) (s' : System xlen) : Prop :=
  s.step harts label.1 label.2 = some s'

/-- The machine when the boot hart has published its devices: every hart is in
the finisher or below M-mode, and nothing is marked. -/
def Initial (s : System xlen) : Prop :=
  (∀ h, s.pc h = .clear .finisher ∨ s.pc h = .lower) ∧ (∀ t, ¬ Soft (s.ipiType t)) ∧
    s.calls = 0 ∧ (∀ call, s.request call = none) ∧ (∀ call, s.result call = none) ∧
    ∀ call t, s.fate call t = none

/-- Every hart runs below M-mode and nothing is pending. -/
def init (xlen : Xlen) : System xlen :=
  ⟨fun _ => .lower, fun _ => 0#8, fun _ => false, fun _ => false, 0, fun _ => none, fun _ => none,
    fun _ _ => none⟩

theorem init_initial : Initial (init xlen) :=
  ⟨fun _ => .inr rfl, fun _ => not_soft_zero, rfl, fun _ => rfl, fun _ => rfl, fun _ _ => rfl⟩

end System

/-! ## What the steps keep -/

/-- The call that a hart is making. -/
def Pc.call? : Pc → Option Nat
  | .mark call _ _ _ => some call
  | .signal call _ _ => some call
  | _ => none

/-- The harts that the call has still to mark. -/
def Pc.unmarked : Pc → List Nat
  | .mark _ todo _ rest => todo ++ rest.flatten
  | .signal _ _ rest => rest.flatten
  | _ => []

/-- The harts of the current window whose interrupts the call has still to raise. -/
def Pc.unraised : Pc → List Nat
  | .mark _ _ window _ => window
  | .signal _ todo _ => todo
  | _ => []

/-- The hart takes its pending types without another interrupt, or never runs again. -/
def Pc.Takes (pc : Pc) : Prop :=
  match pc with
  | .clear caller => caller = .finisher
  | .take _ => True
  | .halted => True
  | _ => False

/-- The hart has taken a mark and has not delivered it. -/
def Pc.Taken (pc : Pc) : Prop :=
  match pc with
  | .deliver _ types => Soft types
  | _ => False

variable {harts : Harts} {s s' : System xlen} {h : Nat}

/-- A pending interrupt or the hart's own code leads to `deliver_current`. -/
def System.Coming (s : System xlen) (t : Nat) : Prop := s.pending t = true ∨ (s.pc t).Takes

/-- Some hart has still to mark `t` for the call. -/
def System.WillMark (s : System xlen) (call t : Nat) : Prop :=
  ∃ g, (s.pc g).call? = some call ∧ t ∈ (s.pc g).unmarked

/-- Some hart has still to raise the interrupt of `t` for the call. -/
def System.WillRaise (s : System xlen) (call t : Nat) : Prop :=
  ∃ g, (s.pc g).call? = some call ∧ t ∈ (s.pc g).unraised

structure System.Inv (harts : Harts) (s : System xlen) : Prop where
  /-- A mark that waits is in the pending types, and every such mark is one of a call. -/
  soft : ∀ t, Soft (s.ipiType t) ↔ ∃ call fate, s.fate call t = some fate ∧ fate.Waits
  /-- So is every mark that was taken. -/
  taken : ∀ t, (s.pc t).Taken ↔ ∃ call, s.fate call t = some .taken
  /-- A mark that waits will be taken, or its call raises the interrupt later. -/
  owed : ∀ call t, s.fate call t = some .owed → s.Coming t ∨ s.WillRaise call t
  unsignalled : ∀ call t, s.fate call t = some .unsignalled → s.result call = some .failed
  window : ∀ h call todo window rest, s.pc h = .mark call todo window rest → todo ⊆ window
  /-- A call in progress has no result and runs on one hart, and marks no hart twice. -/
  active : ∀ h call, (s.pc h).call? = some call →
    call < s.calls ∧ s.result call = none ∧ ∀ h', (s.pc h').call? = some call → h' = h
  once : ∀ h call, (s.pc h).call? = some call →
    (s.pc h).unmarked.Nodup ∧ ∀ t ∈ (s.pc h).unmarked, s.fate call t = none
  fresh : ∀ call, s.calls ≤ call →
    s.request call = none ∧ s.result call = none ∧ ∀ t, s.fate call t = none
  /-- A call marks only harts that it names. -/
  named : ∀ call t, (s.fate call t ≠ none ∨ s.WillMark call t) →
    ∃ hartMask receives, s.request call = some (hartMask, receives) ∧
      available harts receives t = true ∧ hartMask.Denotes t
  /-- A call that has not failed marks all of them. -/
  covered : ∀ call hartMask receives t, s.request call = some (hartMask, receives) →
    available harts receives t = true → hartMask.Denotes t → s.result call ≠ some .failed →
    s.fate call t ≠ none ∨ s.WillMark call t

/-! ## Steps outside `send_ipi` -/

/-- What the steps outside `send_ipi` leave alone. -/
structure System.Aside (s s' : System xlen) (h : Nat) : Prop where
  calls : s'.calls = s.calls
  request : s'.request = s.request
  result : s'.result = s.result
  other : ∀ t, t ≠ h → s'.pc t = s.pc t
  idle : (s.pc h).call? = none
  idle' : (s'.pc h).call? = none
  fate : ∀ call t, s'.fate call t = none ↔ s.fate call t = none

namespace System.Aside

/-- A hart that is making a call is not the one that takes the step. -/
theorem pc_of_call (haside : s.Aside s' h) {g call : Nat}
    (hcall : (s.pc g).call? = some call ∨ (s'.pc g).call? = some call) : s'.pc g = s.pc g := by
  refine haside.other g ?_
  rintro rfl
  obtain hcall | hcall := hcall
  · exact nomatch haside.idle.symm.trans hcall
  · exact nomatch haside.idle'.symm.trans hcall

theorem call?_iff (haside : s.Aside s' h) {g call : Nat} :
    (s'.pc g).call? = some call ↔ (s.pc g).call? = some call := by
  constructor
  · intro hcall
    exact haside.pc_of_call (.inr hcall) ▸ hcall
  · intro hcall
    exact (haside.pc_of_call (.inl hcall)).symm ▸ hcall

theorem willMark_iff (haside : s.Aside s' h) (call t : Nat) :
    s'.WillMark call t ↔ s.WillMark call t := by
  refine exists_congr fun g => ?_
  rw [haside.call?_iff]
  refine and_congr_right fun hcall => ?_
  rw [haside.pc_of_call (.inl hcall)]

theorem willRaise_iff (haside : s.Aside s' h) (call t : Nat) :
    s'.WillRaise call t ↔ s.WillRaise call t := by
  refine exists_congr fun g => ?_
  rw [haside.call?_iff]
  refine and_congr_right fun hcall => ?_
  rw [haside.pc_of_call (.inl hcall)]

/-- Such a step has to account for the marks at the hart that takes it. -/
theorem inv (haside : s.Aside s' h) (hinv : s.Inv harts)
    (hsoft : ∀ t, Soft (s'.ipiType t) ↔ ∃ call fate, s'.fate call t = some fate ∧ fate.Waits)
    (htaken : ∀ t, (s'.pc t).Taken ↔ ∃ call, s'.fate call t = some .taken)
    (howed : ∀ call t, s'.fate call t = some .owed →
      s.fate call t = some .owed ∧ (s.Coming t → s'.Coming t))
    (hunsignalled : ∀ call t, s'.fate call t = some .unsignalled →
      s.fate call t = some .unsignalled) : s'.Inv harts where
  soft := hsoft
  taken := htaken
  owed call t hfate := by
    obtain ⟨hfate, hkeep⟩ := howed call t hfate
    exact (hinv.owed call t hfate).imp hkeep (haside.willRaise_iff call t).mpr
  unsignalled call t hfate := by
    rw [haside.result]
    exact hinv.unsignalled call t (hunsignalled call t hfate)
  window g call todo window rest hpc := by
    have hcall : (s'.pc g).call? = some call := by rw [hpc]; rfl
    exact hinv.window g call todo window rest (haside.pc_of_call (.inr hcall) ▸ hpc)
  active g call hcall := by
    simp only [haside.call?_iff, haside.calls, haside.result] at hcall ⊢
    exact hinv.active g call hcall
  once g call hcall := by
    simp only [haside.pc_of_call (.inr hcall), haside.fate]
    exact hinv.once g call (haside.call?_iff.mp hcall)
  fresh call hle := by
    simp only [haside.calls, haside.request, haside.result, haside.fate] at hle ⊢
    exact hinv.fresh call hle
  named call t hnamed := by
    simp only [ne_eq, haside.fate, haside.willMark_iff, haside.request] at hnamed ⊢
    exact hinv.named call t hnamed
  covered call hartMask receives t := by
    simp only [ne_eq, haside.fate, haside.willMark_iff, haside.request, haside.result]
    exact hinv.covered call hartMask receives t

/-- A step that leaves all marks alone and loses no interrupt. -/
theorem inv_of_quiet (haside : s.Aside s' h) (hinv : s.Inv harts) (hfate : s'.fate = s.fate)
    (hsoft : ∀ t, Soft (s'.ipiType t) ↔ Soft (s.ipiType t))
    (htaken : ¬ (s.pc h).Taken) (htaken' : ¬ (s'.pc h).Taken)
    (hcoming : ∀ t, s.Coming t → s'.Coming t) : s'.Inv harts := by
  have htaken_iff : ∀ t, (s'.pc t).Taken ↔ (s.pc t).Taken := by
    intro t
    by_cases ht : t = h
    · rw [ht]
      exact iff_of_false htaken' htaken
    · rw [haside.other t ht]
  refine haside.inv hinv ?_ ?_ ?_ ?_
  · exact fun t => by rw [hsoft, hfate, hinv.soft]
  · exact fun t => by rw [htaken_iff, hfate, hinv.taken]
  · exact fun call t howed => ⟨hfate ▸ howed, hcoming t⟩
  · exact fun call t hunsignalled => hfate ▸ hunsignalled

end System.Aside

/-! ## Steps of a call -/

/-- A hart that is making a call takes no types. -/
theorem Pc.idle_of_call {pc : Pc} {call : Nat} (hcall : pc.call? = some call) :
    ¬ pc.Takes ∧ ¬ pc.Taken := by
  cases pc <;> simp_all [Pc.call?, Pc.Takes, Pc.Taken]

/-- A call returns when it has marked its harts and raised their interrupts, or
when the device failed. -/
def Pc.Returns (pc : Pc) (call : Nat) (ret : SbiRet) : Prop :=
  pc.call? = some call ∧
    ((ret = .success 0 ∧ pc.unmarked = [] ∧ pc.unraised = []) ∨ ret = .failed)

/-- A step inside a call: it marks the harts of a list for the call, or raises interrupts. -/
structure System.Advance (s s' : System xlen) (h call : Nat) (new : List Nat) : Prop where
  calls : s'.calls = s.calls
  request : s'.request = s.request
  result : s'.result = s.result
  call? : (s.pc h).call? = some call
  call?' : (s'.pc h).call? = some call
  other : ∀ t, t ≠ h → s'.pc t = s.pc t
  pending : ∀ t, s.pending t = true → s'.pending t = true
  soft : ∀ t, Soft (s'.ipiType t) ↔ Soft (s.ipiType t) ∨ t ∈ new
  fate : ∀ call' t, s'.fate call' t = if call' = call ∧ t ∈ new then some .owed else s.fate call' t
  unmarked : (s.pc h).unmarked = new ++ (s'.pc h).unmarked
  unraised : ∀ t ∈ (s.pc h).unraised, t ∈ (s'.pc h).unraised ∨ s'.pending t = true
  raised : ∀ t ∈ new, t ∈ (s'.pc h).unraised
  window : ∀ call' todo window rest, s'.pc h = .mark call' todo window rest → todo ⊆ window

namespace System.Advance

variable {call : Nat} {new : List Nat}

theorem call?_eq (hadv : s.Advance s' h call new) (t : Nat) : (s'.pc t).call? = (s.pc t).call? := by
  by_cases ht : t = h
  · rw [ht, hadv.call?, hadv.call?']
  · rw [hadv.other t ht]

theorem taken_iff (hadv : s.Advance s' h call new) (t : Nat) :
    (s'.pc t).Taken ↔ (s.pc t).Taken := by
  by_cases ht : t = h
  · rw [ht]
    exact iff_of_false (Pc.idle_of_call hadv.call?').2 (Pc.idle_of_call hadv.call?).2
  · rw [hadv.other t ht]

theorem coming (hadv : s.Advance s' h call new) {t : Nat} (hcoming : s.Coming t) : s'.Coming t := by
  refine hcoming.imp (hadv.pending t) fun htakes => ?_
  by_cases ht : t = h
  · exact absurd (ht ▸ htakes) (Pc.idle_of_call hadv.call?).1
  · rwa [hadv.other t ht]

/-- The harts that the call marks now had no mark of it. -/
theorem fate_new (hadv : s.Advance s' h call new) (hinv : s.Inv harts) {t : Nat} (ht : t ∈ new) :
    s.fate call t = none := by
  refine (hinv.once h call hadv.call?).2 t ?_
  rw [hadv.unmarked]
  exact List.mem_append_left _ ht

theorem fate_old (hadv : s.Advance s' h call new) (hinv : s.Inv harts) {call' t : Nat} {fate : Fate}
    (hfate : s.fate call' t = some fate) : s'.fate call' t = some fate := by
  rw [hadv.fate, if_neg, hfate]
  rintro ⟨rfl, hnew⟩
  exact nomatch (hadv.fate_new hinv hnew).symm.trans hfate

theorem fate_cases (hadv : s.Advance s' h call new) {call' t : Nat} {fate : Fate}
    (hfate : s'.fate call' t = some fate) :
    s.fate call' t = some fate ∨ (call' = call ∧ t ∈ new ∧ fate = .owed) := by
  rw [hadv.fate] at hfate
  split at hfate
  next hnew => exact .inr ⟨hnew.1, hnew.2, (Option.some.inj hfate).symm⟩
  next => exact .inl hfate

theorem willMark_of (hadv : s.Advance s' h call new) {call' t : Nat} (hmark : s'.WillMark call' t) :
    s.WillMark call' t := by
  obtain ⟨g, hcall, hmem⟩ := hmark
  rw [hadv.call?_eq] at hcall
  refine ⟨g, hcall, ?_⟩
  by_cases hg : g = h
  · rw [hg, hadv.unmarked]
    exact List.mem_append_right _ (hg ▸ hmem)
  · rwa [hadv.other g hg] at hmem

theorem willMark_or (hadv : s.Advance s' h call new) {call' t : Nat} (hmark : s.WillMark call' t) :
    s'.fate call' t ≠ none ∨ s'.WillMark call' t := by
  obtain ⟨g, hcall, hmem⟩ := hmark
  by_cases hg : g = h
  · subst hg
    cases hadv.call?.symm.trans hcall
    rw [hadv.unmarked, List.mem_append] at hmem
    obtain hnew | hmem := hmem
    · refine .inl ?_
      rw [hadv.fate, if_pos ⟨rfl, hnew⟩]
      exact Option.some_ne_none _
    · exact .inr ⟨g, hadv.call?', hmem⟩
  · refine .inr ⟨g, ?_⟩
    rw [hadv.other g hg]
    exact ⟨hcall, hmem⟩

theorem inv (hadv : s.Advance s' h call new) (hinv : s.Inv harts) : s'.Inv harts where
  soft t := by
    rw [hadv.soft, hinv.soft]
    constructor
    · rintro (⟨call', fate, hfate, hwaits⟩ | hnew)
      · exact ⟨call', fate, hadv.fate_old hinv hfate, hwaits⟩
      · exact ⟨call, .owed, (hadv.fate call t).trans (if_pos ⟨rfl, hnew⟩), .inl rfl⟩
    · rintro ⟨call', fate, hfate, hwaits⟩
      obtain hold | ⟨-, hnew, -⟩ := hadv.fate_cases hfate
      · exact .inl ⟨call', fate, hold, hwaits⟩
      · exact .inr hnew
  taken t := by
    rw [hadv.taken_iff, hinv.taken]
    refine exists_congr fun call' => ⟨hadv.fate_old hinv, fun hfate => ?_⟩
    exact (hadv.fate_cases hfate).resolve_right fun hnew => nomatch hnew.2.2
  owed call' t hfate := by
    obtain hold | ⟨rfl, hnew, -⟩ := hadv.fate_cases hfate
    · obtain hcoming | ⟨g, hcall, hmem⟩ := hinv.owed call' t hold
      · exact .inl (hadv.coming hcoming)
      · by_cases hg : g = h
        · subst hg
          cases hadv.call?.symm.trans hcall
          obtain hmem | hpending := hadv.unraised t hmem
          · exact .inr ⟨g, hadv.call?', hmem⟩
          · exact .inl (.inl hpending)
        · refine .inr ⟨g, ?_⟩
          rw [hadv.other g hg]
          exact ⟨hcall, hmem⟩
    · exact .inr ⟨h, hadv.call?', hadv.raised t hnew⟩
  unsignalled call' t hfate := by
    rw [hadv.result]
    refine hinv.unsignalled call' t ?_
    exact (hadv.fate_cases hfate).resolve_right fun hnew => nomatch hnew.2.2
  window g call' todo window rest hpc := by
    by_cases hg : g = h
    · exact hadv.window call' todo window rest (hg ▸ hpc)
    · exact hinv.window g call' todo window rest (hadv.other g hg ▸ hpc)
  active g call' hcall := by
    simp only [hadv.call?_eq, hadv.calls, hadv.result] at hcall ⊢
    exact hinv.active g call' hcall
  once g call' hcall := by
    by_cases hg : g = h
    · subst hg
      cases hadv.call?'.symm.trans hcall
      obtain ⟨hnodup, hnone⟩ := hinv.once g call hadv.call?
      rw [hadv.unmarked] at hnodup hnone
      refine ⟨hnodup.of_append_right, fun t ht => ?_⟩
      rw [hadv.fate, if_neg]
      · exact hnone t (List.mem_append_right _ ht)
      · exact fun hnew => (List.nodup_append.mp hnodup).2.2 t hnew.2 t ht rfl
    · rw [hadv.other g hg] at hcall ⊢
      refine ⟨(hinv.once g call' hcall).1, fun t ht => ?_⟩
      rw [hadv.fate, if_neg]
      · exact (hinv.once g call' hcall).2 t ht
      · rintro ⟨rfl, -⟩
        exact hg ((hinv.active h call' hadv.call?).2.2 g hcall)
  fresh call' hle := by
    rw [hadv.calls] at hle
    rw [hadv.request, hadv.result]
    obtain ⟨hrequest, hresult, hnone⟩ := hinv.fresh call' hle
    refine ⟨hrequest, hresult, fun t => ?_⟩
    rw [hadv.fate, if_neg, hnone]
    rintro ⟨rfl, -⟩
    exact absurd (hinv.active h call' hadv.call?).1 (Nat.not_lt.mpr hle)
  named call' t hnamed := by
    rw [hadv.request]
    refine hinv.named call' t ?_
    obtain hfate | hmark := hnamed
    · rw [hadv.fate] at hfate
      split at hfate
      next hnew =>
        obtain ⟨rfl, hnew⟩ := hnew
        exact .inr ⟨h, hadv.call?, hadv.unmarked ▸ List.mem_append_left _ hnew⟩
      next => exact .inl hfate
    · exact .inr (hadv.willMark_of hmark)
  covered call' hartMask receives t hrequest havailable hdenotes hresult := by
    rw [hadv.request] at hrequest
    rw [hadv.result] at hresult
    obtain hfate | hmark :=
      hinv.covered call' hartMask receives t hrequest havailable hdenotes hresult
    · obtain ⟨fate, hfate⟩ := Option.ne_none_iff_exists'.mp hfate
      exact .inl (hadv.fate_old hinv hfate ▸ Option.some_ne_none _)
    · exact hadv.willMark_or hmark

end System.Advance

namespace System

@[simp] theorem goto_pc_same (s : System xlen) (h : Nat) (pc : Pc) : (s.goto h pc).pc h = pc :=
  Function.update_self ..

theorem goto_pc_other (s : System xlen) {h g : Nat} (pc : Pc) (hne : g ≠ h) :
    (s.goto h pc).pc g = s.pc g :=
  Function.update_of_ne hne ..

theorem inv_mark {call t : Nat} {todo window : List Nat} {rest : List (List Nat)}
    (hpc : s.pc h = .mark call (t :: todo) window rest) (hinv : s.Inv harts) :
    (((s.setIpiType t ipiTypeSsoft).setFate call t .owed).goto h
      (.mark call todo window rest)).Inv harts := by
  have hwindow := hinv.window h call _ window rest hpc
  refine Advance.inv (?_ : s.Advance _ h call [t]) hinv
  exact
    { calls := rfl
      request := rfl
      result := rfl
      call? := by rw [hpc]; rfl
      call?' := by rw [goto_pc_same]; rfl
      other := fun g hg => goto_pc_other _ _ hg
      pending := fun _ => id
      soft := by
        intro u
        rw [List.mem_singleton]
        change Soft (Function.update s.ipiType t _ u) ↔ _
        by_cases hu : u = t
        · subst hu
          simp only [Function.update_self, soft_or_ssoft, or_true]
        · simp only [Function.update_of_ne hu, hu, or_false]
      fate := by
        intro call' u
        simp only [List.mem_singleton]
        change Function.update s.fate call (Function.update (s.fate call) t (some .owed)) call' u = _
        by_cases hcall : call' = call
        · subst hcall
          simp only [Function.update_self, Function.update_apply, true_and]
        · simp only [Function.update_of_ne hcall, hcall, false_and, if_false]
      unmarked := by rw [hpc, goto_pc_same]; rfl
      unraised := by
        intro u hu
        rw [hpc] at hu
        rw [goto_pc_same]
        exact .inl hu
      raised := by
        intro u hu
        rw [goto_pc_same, List.mem_singleton.mp hu]
        exact hwindow List.mem_cons_self
      window := by
        intro call' todo' window' rest' hpc'
        rw [goto_pc_same] at hpc'
        cases hpc'
        exact List.subset_of_cons_subset hwindow }

/-- A step that only moves a hart on in its call. -/
theorem inv_goto (call : Nat) {pc : Pc} (hcall : (s.pc h).call? = some call)
    (hcall' : pc.call? = some call) (hunmarked : (s.pc h).unmarked = pc.unmarked)
    (hunraised : (s.pc h).unraised ⊆ pc.unraised)
    (hwindow : ∀ call' todo window rest, pc = .mark call' todo window rest → todo ⊆ window)
    (hinv : s.Inv harts) : (s.goto h pc).Inv harts := by
  refine Advance.inv (?_ : s.Advance _ h call []) hinv
  exact
    { calls := rfl
      request := rfl
      result := rfl
      call? := hcall
      call?' := by rw [goto_pc_same]; exact hcall'
      other := fun g hg => goto_pc_other _ _ hg
      pending := fun _ => id
      soft := fun t => by simp [goto]
      fate := fun call' t => by simp [goto]
      unmarked := by rw [goto_pc_same]; exact hunmarked
      unraised := fun t ht => by rw [goto_pc_same]; exact .inl (hunraised ht)
      raised := fun t ht => nomatch ht
      window := fun call' todo window rest hpc =>
        hwindow call' todo window rest (goto_pc_same s h pc ▸ hpc) }

theorem inv_signal {call t : Nat} {todo : List Nat} {rest : List (List Nat)}
    (hpc : s.pc h = .signal call (t :: todo) rest) (hinv : s.Inv harts) :
    ((s.raise t).goto h (.signal call todo rest)).Inv harts := by
  refine Advance.inv (?_ : s.Advance _ h call []) hinv
  exact
    { calls := rfl
      request := rfl
      result := rfl
      call? := by rw [hpc]; rfl
      call?' := by rw [goto_pc_same]; rfl
      other := fun g hg => goto_pc_other _ _ hg
      pending := by
        intro u hu
        change Function.update s.pending t true u = true
        rw [Function.update_apply]
        split <;> first | rfl | exact hu
      soft := fun u => by simp [goto, raise]
      fate := fun call' u => by simp [goto, raise]
      unmarked := by rw [hpc, goto_pc_same]; rfl
      unraised := by
        intro u hu
        rw [hpc] at hu
        rw [goto_pc_same]
        obtain rfl | hmem := List.mem_cons.mp hu
        · exact .inr (Function.update_self ..)
        · exact .inl hmem
      raised := fun u hu => nomatch hu
      window := by
        intro call' todo' window' rest' hpc'
        rw [goto_pc_same] at hpc'
        cases hpc' }

section Finish

variable {call call' t : Nat} {ret : SbiRet}

theorem finish_pc_self (s : System xlen) (h call : Nat) (ret : SbiRet) :
    (s.finish h call ret).pc h = .lower :=
  Function.update_self ..

theorem finish_pc_other (s : System xlen) {h g : Nat} (call : Nat) (ret : SbiRet) (hg : g ≠ h) :
    (s.finish h call ret).pc g = s.pc g :=
  Function.update_of_ne hg ..

theorem finish_result_self (s : System xlen) (h call : Nat) (ret : SbiRet) :
    (s.finish h call ret).result call = some ret :=
  Function.update_self ..

theorem finish_result_other (hne : call' ≠ call) :
    (s.finish h call ret).result call' = s.result call' :=
  Function.update_of_ne hne ..

theorem finish_fate (s : System xlen) (h call : Nat) (ret : SbiRet) (call' t : Nat) :
    (s.finish h call ret).fate call' t =
      if ret ≠ .success 0 ∧ call' = call ∧ s.fate call' t = some .owed then some .unsignalled
      else s.fate call' t := by
  unfold finish
  by_cases hret : ret = .success 0
  · simp [hret]
  · by_cases hcall : call' = call
    · subst hcall
      simp [hret]
    · simp [hret, hcall]

theorem finish_fate_other (hne : call' ≠ call) :
    (s.finish h call ret).fate call' t = s.fate call' t := by
  rw [finish_fate, if_neg fun hall => hne hall.2.1]

theorem finish_fate_eq_none_iff :
    (s.finish h call ret).fate call' t = none ↔ s.fate call' t = none := by
  rw [finish_fate]
  split
  next hall => simp [hall.2.2]
  next => exact Iff.rfl

theorem finish_fate_eq_taken_iff :
    (s.finish h call ret).fate call' t = some .taken ↔ s.fate call' t = some .taken := by
  rw [finish_fate]
  split
  next hall => simp [hall.2.2]
  next => exact Iff.rfl

/-- The marks that wait are the same when a call returns. -/
theorem finish_waits (s : System xlen) (h call : Nat) (ret : SbiRet) (call' t : Nat) :
    (∃ fate, (s.finish h call ret).fate call' t = some fate ∧ fate.Waits) ↔
      ∃ fate, s.fate call' t = some fate ∧ fate.Waits := by
  rw [finish_fate]
  split
  next hall => simp [hall.2.2, Fate.Waits]
  next => exact Iff.rfl

/-- A hart that is in a call afterwards is another one, in another call. -/
theorem call?_of_finish (hcall : (s.pc h).call? = some call) (hinv : s.Inv harts) {g : Nat}
    (hcall' : ((s.finish h call ret).pc g).call? = some call') :
    g ≠ h ∧ call' ≠ call ∧ (s.pc g).call? = some call' := by
  have hg : g ≠ h := by
    rintro rfl
    rw [finish_pc_self] at hcall'
    cases hcall'
  rw [finish_pc_other s call ret hg] at hcall'
  refine ⟨hg, ?_, hcall'⟩
  rintro rfl
  exact hg ((hinv.active h call' hcall).2.2 g hcall')

theorem finish_pc_of_call (hcall : (s.pc h).call? = some call) (hne : call' ≠ call) {g : Nat}
    (hcall' : (s.pc g).call? = some call') : (s.finish h call ret).pc g = s.pc g := by
  refine finish_pc_other s call ret ?_
  rintro rfl
  cases hcall.symm.trans hcall'
  exact hne rfl

theorem willMark_of_finish (hcall : (s.pc h).call? = some call) (hinv : s.Inv harts)
    (hmark : (s.finish h call ret).WillMark call' t) : s.WillMark call' t := by
  obtain ⟨g, hcall', hmem⟩ := hmark
  obtain ⟨hg, -, hcall'⟩ := call?_of_finish hcall hinv hcall'
  exact ⟨g, hcall', finish_pc_other s call ret hg ▸ hmem⟩

theorem finish_willMark (hcall : (s.pc h).call? = some call) (hne : call' ≠ call)
    (hmark : s.WillMark call' t) : (s.finish h call ret).WillMark call' t := by
  obtain ⟨g, hcall', hmem⟩ := hmark
  refine ⟨g, ?_⟩
  rw [finish_pc_of_call hcall hne hcall']
  exact ⟨hcall', hmem⟩

theorem finish_willRaise (hcall : (s.pc h).call? = some call) (hne : call' ≠ call)
    (hraise : s.WillRaise call' t) : (s.finish h call ret).WillRaise call' t := by
  obtain ⟨g, hcall', hmem⟩ := hraise
  refine ⟨g, ?_⟩
  rw [finish_pc_of_call hcall hne hcall']
  exact ⟨hcall', hmem⟩

theorem finish_coming (hcall : (s.pc h).call? = some call) (hcoming : s.Coming t) :
    (s.finish h call ret).Coming t := by
  refine hcoming.imp_right fun htakes => ?_
  rw [finish_pc_other s call ret]
  · exact htakes
  · rintro rfl
    exact (Pc.idle_of_call hcall).1 htakes

theorem finish_taken (hcall : (s.pc h).call? = some call) (t : Nat) :
    ((s.finish h call ret).pc t).Taken ↔ (s.pc t).Taken := by
  by_cases ht : t = h
  · rw [ht, finish_pc_self]
    exact iff_of_false id (Pc.idle_of_call hcall).2
  · rw [finish_pc_other s call ret ht]

theorem finish_owed (hreturns : (s.pc h).Returns call ret) (hinv : s.Inv harts)
    (howed : (s.finish h call ret).fate call' t = some .owed) :
    (s.finish h call ret).Coming t ∨ (s.finish h call ret).WillRaise call' t := by
  obtain ⟨hcall, hret⟩ := hreturns
  rw [finish_fate] at howed
  split at howed
  next => cases howed
  next hkeep =>
    obtain hcoming | hraise := hinv.owed call' t howed
    · exact .inl (finish_coming hcall hcoming)
    · by_cases hne : call' = call
      · subst hne
        obtain ⟨-, -, hraised⟩ | rfl := hret
        · obtain ⟨g, hcall', hmem⟩ := hraise
          rw [(hinv.active h call' hcall).2.2 g hcall', hraised] at hmem
          cases hmem
        · exact absurd ⟨by decide, rfl, howed⟩ hkeep
      · exact .inr (finish_willRaise hcall hne hraise)

theorem finish_unsignalled (hreturns : (s.pc h).Returns call ret) (hinv : s.Inv harts)
    (hfate : (s.finish h call ret).fate call' t = some .unsignalled) :
    (s.finish h call ret).result call' = some .failed := by
  obtain ⟨hcall, hret⟩ := hreturns
  by_cases hne : call' = call
  · subst hne
    obtain ⟨rfl, -⟩ | rfl := hret
    · rw [finish_fate, if_neg fun hall => hall.1 rfl] at hfate
      have hfailed := hinv.unsignalled call' t hfate
      exact nomatch (hinv.active h call' hcall).2.1.symm.trans hfailed
    · exact finish_result_self s h call' _
  · rw [finish_result_other hne]
    exact hinv.unsignalled call' t ((finish_fate_other hne).symm.trans hfate)

theorem finish_active (hcall : (s.pc h).call? = some call) (hinv : s.Inv harts) {g : Nat}
    (hcall' : ((s.finish h call ret).pc g).call? = some call') :
    call' < s.calls ∧ (s.finish h call ret).result call' = none ∧
      ∀ g', ((s.finish h call ret).pc g').call? = some call' → g' = g := by
  obtain ⟨-, hne, hcall'⟩ := call?_of_finish hcall hinv hcall'
  obtain ⟨hlt, hnone, honly⟩ := hinv.active g call' hcall'
  rw [finish_result_other hne]
  exact ⟨hlt, hnone, fun g' hg' => honly g' (call?_of_finish hcall hinv hg').2.2⟩

theorem finish_once (hcall : (s.pc h).call? = some call) (hinv : s.Inv harts) {g : Nat}
    (hcall' : ((s.finish h call ret).pc g).call? = some call') :
    ((s.finish h call ret).pc g).unmarked.Nodup ∧
      ∀ t ∈ ((s.finish h call ret).pc g).unmarked, (s.finish h call ret).fate call' t = none := by
  obtain ⟨hg, -, hcall'⟩ := call?_of_finish hcall hinv hcall'
  simp only [finish_pc_other s call ret hg, finish_fate_eq_none_iff]
  exact hinv.once g call' hcall'

theorem finish_fresh (hcall : (s.pc h).call? = some call) (hinv : s.Inv harts)
    (hle : s.calls ≤ call') :
    s.request call' = none ∧ (s.finish h call ret).result call' = none ∧
      ∀ t, (s.finish h call ret).fate call' t = none := by
  have hne : call' ≠ call := by
    rintro rfl
    exact absurd (hinv.active h call' hcall).1 (Nat.not_lt.mpr hle)
  simp only [finish_result_other hne, finish_fate_eq_none_iff]
  exact hinv.fresh call' hle

theorem finish_covered (hreturns : (s.pc h).Returns call ret) (hinv : s.Inv harts)
    {hartMask : HartMask xlen} {receives : Nat → Bool}
    (hrequest : s.request call' = some (hartMask, receives))
    (havailable : available harts receives t = true) (hdenotes : hartMask.Denotes t)
    (hresult : (s.finish h call ret).result call' ≠ some .failed) :
    s.fate call' t ≠ none ∨ (s.finish h call ret).WillMark call' t := by
  obtain ⟨hcall, hret⟩ := hreturns
  have hcovered := hinv.covered call' hartMask receives t hrequest havailable hdenotes
  by_cases hne : call' = call
  · subst hne
    obtain ⟨-, honly⟩ := (hinv.active h call' hcall).2
    rw [finish_result_self] at hresult
    obtain ⟨rfl, hmarked, -⟩ | rfl := hret
    · refine .inl ((hcovered ?_).resolve_right ?_)
      · rw [(hinv.active h call' hcall).2.1]
        exact (Option.some_ne_none _).symm
      · rintro ⟨g, hcall', hmem⟩
        rw [honly g hcall', hmarked] at hmem
        cases hmem
    · exact absurd rfl hresult
  · rw [finish_result_other hne] at hresult
    exact (hcovered hresult).imp_right (finish_willMark hcall hne)

theorem inv_finish (hreturns : (s.pc h).Returns call ret) (hinv : s.Inv harts) :
    (s.finish h call ret).Inv harts where
  soft t := by
    refine (hinv.soft t).trans (exists_congr fun call' => ?_)
    exact (finish_waits s h call ret call' t).symm
  taken t := by
    rw [finish_taken hreturns.1, hinv.taken]
    exact exists_congr fun call' => finish_fate_eq_taken_iff.symm
  owed _ _ := finish_owed hreturns hinv
  unsignalled _ _ := finish_unsignalled hreturns hinv
  window g call' todo window rest hpc := by
    have hcall' : ((s.finish h call ret).pc g).call? = some call' := by rw [hpc]; rfl
    obtain ⟨hg, -⟩ := call?_of_finish hreturns.1 hinv hcall'
    exact hinv.window g call' todo window rest (finish_pc_other s call ret hg ▸ hpc)
  active _ _ := finish_active hreturns.1 hinv
  once _ _ := finish_once hreturns.1 hinv
  fresh _ := finish_fresh hreturns.1 hinv
  named call' t hnamed := by
    simp only [ne_eq, finish_fate_eq_none_iff] at hnamed
    exact hinv.named call' t (hnamed.imp_right (willMark_of_finish hreturns.1 hinv))
  covered call' hartMask receives t hrequest havailable hdenotes hresult := by
    simp only [ne_eq, finish_fate_eq_none_iff]
    exact finish_covered hreturns hinv hrequest havailable hdenotes hresult

end Finish

theorem inv_nextWindow {call : Nat} {rest : List (List Nat)}
    (hpc : s.pc h = .signal call [] rest) (hinv : s.Inv harts) :
    (s.nextWindow h call rest).Inv harts := by
  cases rest with
  | nil => exact inv_finish ⟨by rw [hpc]; rfl, .inl (by rw [hpc]; exact ⟨rfl, rfl, rfl⟩)⟩ hinv
  | cons window rest =>
    refine inv_goto call (by rw [hpc]; rfl) rfl (by rw [hpc]; rfl) ?_ ?_ hinv
    · rw [hpc]
      exact List.nil_subset _
    · rintro _ _ _ _ ⟨⟩
      exact List.Subset.refl _

/-- The state in which a call has selected its windows and taken none of them up. -/
def register (s : System xlen) (h : Nat) (hartMask : HartMask xlen) (receives : Nat → Bool)
    (ws : List (List Nat)) : System xlen :=
  { s with
    calls := s.calls + 1
    request := Function.update s.request s.calls (some (hartMask, receives))
    pc := Function.update s.pc h (.signal s.calls [] ws) }

theorem begin_eq (s : System xlen) (h : Nat) (hartMask : HartMask xlen) (receives : Nat → Bool)
    (ws : List (List Nat)) :
    s.begin h hartMask receives ws =
      (s.register h hartMask receives ws).nextWindow h s.calls ws := by
  cases ws <;> simp [begin, register, nextWindow, finish, goto]

section Register

variable {hartMask : HartMask xlen} {receives : Nat → Bool} {ws : List (List Nat)} {call t : Nat}

theorem register_pc_self (s : System xlen) (h : Nat) (hartMask : HartMask xlen)
    (receives : Nat → Bool) (ws : List (List Nat)) :
    (s.register h hartMask receives ws).pc h = .signal s.calls [] ws :=
  Function.update_self ..

theorem register_pc_other {g : Nat} (hg : g ≠ h) :
    (s.register h hartMask receives ws).pc g = s.pc g :=
  Function.update_of_ne hg ..

theorem register_request_self (s : System xlen) (h : Nat) (hartMask : HartMask xlen)
    (receives : Nat → Bool) (ws : List (List Nat)) :
    (s.register h hartMask receives ws).request s.calls = some (hartMask, receives) :=
  Function.update_self ..

theorem register_request_other (hne : call ≠ s.calls) :
    (s.register h hartMask receives ws).request call = s.request call :=
  Function.update_of_ne hne ..

/-- A hart that was in a call is still at the same place in it. -/
theorem register_pc_of_call (hpc : s.pc h = .lower) {g : Nat} (hcall : (s.pc g).call? = some call) :
    (s.register h hartMask receives ws).pc g = s.pc g := by
  refine register_pc_other ?_
  rintro rfl
  rw [hpc] at hcall
  cases hcall

theorem call?_of_register (hinv : s.Inv harts) {g : Nat}
    (hcall : ((s.register h hartMask receives ws).pc g).call? = some call) :
    (g = h ∧ call = s.calls) ∨ (g ≠ h ∧ call < s.calls ∧ (s.pc g).call? = some call) := by
  by_cases hg : g = h
  · subst hg
    rw [register_pc_self] at hcall
    exact .inl ⟨rfl, (Option.some.inj hcall).symm⟩
  · rw [register_pc_other hg] at hcall
    exact .inr ⟨hg, (hinv.active g call hcall).1, hcall⟩

theorem register_willMark (hpc : s.pc h = .lower) (hmark : s.WillMark call t) :
    (s.register h hartMask receives ws).WillMark call t := by
  obtain ⟨g, hcall, hmem⟩ := hmark
  refine ⟨g, ?_⟩
  rw [register_pc_of_call hpc hcall]
  exact ⟨hcall, hmem⟩

theorem register_willRaise (hpc : s.pc h = .lower) (hraise : s.WillRaise call t) :
    (s.register h hartMask receives ws).WillRaise call t := by
  obtain ⟨g, hcall, hmem⟩ := hraise
  refine ⟨g, ?_⟩
  rw [register_pc_of_call hpc hcall]
  exact ⟨hcall, hmem⟩

theorem register_coming (hpc : s.pc h = .lower) (hcoming : s.Coming t) :
    (s.register h hartMask receives ws).Coming t := by
  refine hcoming.imp_right fun htakes => ?_
  rw [register_pc_other]
  · exact htakes
  · rintro rfl
    rw [hpc] at htakes
    exact htakes

theorem register_taken (hpc : s.pc h = .lower) (t : Nat) :
    ((s.register h hartMask receives ws).pc t).Taken ↔ (s.pc t).Taken := by
  by_cases ht : t = h
  · rw [ht, register_pc_self, hpc]
    exact Iff.rfl
  · rw [register_pc_other ht]

theorem register_window (hinv : s.Inv harts) {g : Nat} {todo window : List Nat}
    {rest : List (List Nat)}
    (hpc : (s.register h hartMask receives ws).pc g = .mark call todo window rest) :
    todo ⊆ window := by
  by_cases hg : g = h
  · subst hg
    cases (register_pc_self s g hartMask receives ws).symm.trans hpc
  · exact hinv.window g call todo window rest ((register_pc_other hg).symm.trans hpc)

theorem register_active (hinv : s.Inv harts) {g : Nat}
    (hcall : ((s.register h hartMask receives ws).pc g).call? = some call) :
    call < s.calls + 1 ∧ s.result call = none ∧
      ∀ g', ((s.register h hartMask receives ws).pc g').call? = some call → g' = g := by
  obtain ⟨rfl, rfl⟩ | ⟨hg, hlt, hcall⟩ := call?_of_register hinv hcall
  · refine ⟨Nat.lt_succ_self _, (hinv.fresh s.calls (Nat.le_refl _)).2.1, fun g' hcall' => ?_⟩
    obtain ⟨hg', -⟩ | ⟨-, hlt, -⟩ := call?_of_register hinv hcall'
    · exact hg'
    · exact absurd hlt (Nat.lt_irrefl _)
  · obtain ⟨-, hresult, honly⟩ := hinv.active g call hcall
    refine ⟨Nat.lt_succ_of_lt hlt, hresult, fun g' hcall' => ?_⟩
    obtain ⟨-, heq⟩ | ⟨-, -, hcall'⟩ := call?_of_register hinv hcall'
    · exact absurd heq (Nat.ne_of_lt hlt)
    · exact honly g' hcall'

theorem register_once (hws : targetWindows harts receives hartMask = .ok (.ok ws))
    (hinv : s.Inv harts) {g : Nat}
    (hcall : ((s.register h hartMask receives ws).pc g).call? = some call) :
    ((s.register h hartMask receives ws).pc g).unmarked.Nodup ∧
      ∀ t ∈ ((s.register h hartMask receives ws).pc g).unmarked, s.fate call t = none := by
  obtain ⟨rfl, rfl⟩ | ⟨hg, -, hcall⟩ := call?_of_register hinv hcall
  · rw [register_pc_self]
    exact ⟨(mem_targetWindows hws).1, fun t _ => (hinv.fresh s.calls (Nat.le_refl _)).2.2 t⟩
  · rw [register_pc_other hg]
    exact hinv.once g call hcall

theorem register_fresh (hinv : s.Inv harts) (hle : s.calls + 1 ≤ call) :
    (s.register h hartMask receives ws).request call = none ∧ s.result call = none ∧
      ∀ t, s.fate call t = none := by
  rw [register_request_other (Nat.ne_of_gt hle)]
  exact hinv.fresh call (Nat.le_of_succ_le hle)

theorem register_named (hws : targetWindows harts receives hartMask = .ok (.ok ws))
    (hinv : s.Inv harts)
    (hnamed : s.fate call t ≠ none ∨ (s.register h hartMask receives ws).WillMark call t) :
    ∃ hartMask' receives',
      (s.register h hartMask receives ws).request call = some (hartMask', receives') ∧
        available harts receives' t = true ∧ hartMask'.Denotes t := by
  obtain hfate | ⟨g, hcall, hmem⟩ := hnamed
  · have hne : call ≠ s.calls := by
      rintro rfl
      exact hfate ((hinv.fresh s.calls (Nat.le_refl _)).2.2 t)
    rw [register_request_other hne]
    exact hinv.named call t (.inl hfate)
  · obtain ⟨rfl, rfl⟩ | ⟨hg, hlt, hcall⟩ := call?_of_register hinv hcall
    · rw [register_pc_self] at hmem
      refine ⟨hartMask, receives, register_request_self s g hartMask receives ws, ?_⟩
      exact ((mem_targetWindows hws).2 t).mp hmem
    · rw [register_pc_other hg] at hmem
      rw [register_request_other (Nat.ne_of_lt hlt)]
      exact hinv.named call t (.inr ⟨g, hcall, hmem⟩)

theorem register_covered (hpc : s.pc h = .lower)
    (hws : targetWindows harts receives hartMask = .ok (.ok ws)) (hinv : s.Inv harts)
    {hartMask' : HartMask xlen} {receives' : Nat → Bool}
    (hrequest : (s.register h hartMask receives ws).request call = some (hartMask', receives'))
    (havailable : available harts receives' t = true) (hdenotes : hartMask'.Denotes t)
    (hresult : s.result call ≠ some .failed) :
    s.fate call t ≠ none ∨ (s.register h hartMask receives ws).WillMark call t := by
  by_cases hne : call = s.calls
  · subst hne
    cases (register_request_self s h hartMask receives ws).symm.trans hrequest
    refine .inr ⟨h, ?_⟩
    rw [register_pc_self]
    exact ⟨rfl, ((mem_targetWindows hws).2 t).mpr ⟨havailable, hdenotes⟩⟩
  · rw [register_request_other hne] at hrequest
    have hcovered := hinv.covered call hartMask' receives' t hrequest havailable hdenotes hresult
    exact hcovered.imp_right (register_willMark hpc)

theorem inv_register (hpc : s.pc h = .lower)
    (hws : targetWindows harts receives hartMask = .ok (.ok ws)) (hinv : s.Inv harts) :
    (s.register h hartMask receives ws).Inv harts where
  soft := hinv.soft
  taken t := (register_taken hpc t).trans (hinv.taken t)
  owed call t howed :=
    (hinv.owed call t howed).imp (register_coming hpc) (register_willRaise hpc)
  unsignalled := hinv.unsignalled
  window _ _ _ _ _ := register_window hinv
  active _ _ := register_active hinv
  once _ _ := register_once hws hinv
  fresh _ := register_fresh hinv
  named _ _ := register_named hws hinv
  covered _ _ _ _ := register_covered hpc hws hinv

end Register

/-! ## Steps of a delivery -/

/-- What a hart does to the marks that calls have at it. -/
theorem fate_at_cases {f : Fate → Fate} {fates : Nat → Nat → Option Fate} {call t : Nat} {fate : Fate}
    (hfate : (if t = h then (fates call t).map f else fates call t) = some fate) :
    (t = h ∧ ∃ old, fates call h = some old ∧ f old = fate) ∨ (t ≠ h ∧ fates call t = some fate) := by
  split at hfate
  next ht =>
    subst ht
    obtain ⟨old, hold, heq⟩ := Option.map_eq_some_iff.mp hfate
    exact .inl ⟨rfl, old, hold, heq⟩
  next ht => exact .inr ⟨ht, hfate⟩

theorem fate_at_none {f : Fate → Fate} {fates : Nat → Nat → Option Fate} {call t : Nat} :
    (if t = h then (fates call t).map f else fates call t) = none ↔ fates call t = none := by
  split <;> simp

/-- The hart takes the marks that wait at it. -/
theorem inv_take {caller : Caller} (hpc : s.pc h = .take caller) (hinv : s.Inv harts) :
    ((s.resetIpiType h).goto h (.deliver caller (s.ipiType h))).Inv harts := by
  generalize hs' : (s.resetIpiType h).goto h (.deliver caller (s.ipiType h)) = s'
  have hself : s'.pc h = .deliver caller (s.ipiType h) := by rw [← hs', goto_pc_same]
  have hother : ∀ t, t ≠ h → s'.pc t = s.pc t := fun t ht => by rw [← hs', goto_pc_other _ _ ht]; rfl
  have hfate : ∀ call t, s'.fate call t =
      if t = h then (s.fate call t).map Fate.take else s.fate call t := fun call t => by rw [← hs']; rfl
  have hzero : s'.ipiType h = 0#8 := by rw [← hs']; exact Function.update_self ..
  have htypes : ∀ t, t ≠ h → s'.ipiType t = s.ipiType t :=
    fun t ht => by rw [← hs']; exact Function.update_of_ne ht ..
  have hpending : s'.pending = s.pending := by rw [← hs']; rfl
  have haside : s.Aside s' h :=
    ⟨by rw [← hs']; rfl, by rw [← hs']; rfl, by rw [← hs']; rfl, hother, by rw [hpc]; rfl,
      by rw [hself]; rfl, fun call t => by rw [hfate]; exact fate_at_none⟩
  have huntaken : ∀ call, s.fate call h ≠ some .taken := by
    intro call htaken
    have := (hinv.taken h).mpr ⟨call, htaken⟩
    rw [hpc] at this
    exact this
  refine haside.inv hinv ?soft ?taken ?owed ?unsignalled
  case soft =>
    intro t
    by_cases ht : t = h
    · subst ht
      rw [hzero]
      refine iff_of_false not_soft_zero ?_
      rintro ⟨call, fate, hmark, hwaits⟩
      obtain ⟨-, old, -, rfl⟩ | ⟨hne, -⟩ := fate_at_cases ((hfate call t).symm.trans hmark)
      · exact old.not_waits_take hwaits
      · exact hne rfl
    · simp only [htypes t ht, hfate, if_neg ht]
      exact hinv.soft t
  case taken =>
    intro t
    by_cases ht : t = h
    · subst ht
      rw [hself]
      refine (hinv.soft t).trans (exists_congr fun call => ?_)
      rw [hfate, if_pos rfl, Option.map_eq_some_iff]
      refine exists_congr fun fate => and_congr_right fun hmark => ?_
      cases fate with
      | taken => exact absurd hmark (huntaken call)
      | owed | unsignalled | delivered => simp [Fate.Waits, Fate.take]
    · simp only [hother t ht, hfate, if_neg ht]
      exact hinv.taken t
  case owed =>
    intro call t howed
    obtain ⟨-, old, -, heq⟩ | ⟨ht, hmark⟩ := fate_at_cases ((hfate call t).symm.trans howed)
    · cases old <;> cases heq
    · refine ⟨hmark, fun hcoming => ?_⟩
      unfold Coming at hcoming ⊢
      rwa [hother t ht, hpending]
  case unsignalled =>
    intro call t hunsignalled
    obtain ⟨-, old, -, heq⟩ | ⟨-, hmark⟩ := fate_at_cases ((hfate call t).symm.trans hunsignalled)
    · cases old <;> cases heq
    · exact hmark

/-- One supervisor interrupt is set for all marks that were taken together. -/
theorem inv_signalSupervisor {caller : Caller} {types : BitVec 8} {pc : Pc}
    (hpc : s.pc h = .deliver caller types) (hidle : pc.call? = none) (hnot : ¬ pc.Taken)
    (hinv : s.Inv harts) : ((s.signalSupervisor h).goto h pc).Inv harts := by
  generalize hs' : (s.signalSupervisor h).goto h pc = s'
  have hself : s'.pc h = pc := by rw [← hs', goto_pc_same]
  have hother : ∀ t, t ≠ h → s'.pc t = s.pc t := fun t ht => by rw [← hs', goto_pc_other _ _ ht]; rfl
  have hfate : ∀ call t, s'.fate call t =
      if t = h then (s.fate call t).map Fate.deliver else s.fate call t := fun call t => by rw [← hs']; rfl
  have htypes : s'.ipiType = s.ipiType := by rw [← hs']; rfl
  have hpending : s'.pending = s.pending := by rw [← hs']; rfl
  have haside : s.Aside s' h :=
    ⟨by rw [← hs']; rfl, by rw [← hs']; rfl, by rw [← hs']; rfl, hother, by rw [hpc]; rfl,
      by rw [hself]; exact hidle, fun call t => by rw [hfate]; exact fate_at_none⟩
  refine haside.inv hinv ?soft ?taken ?owed ?unsignalled
  case soft =>
    intro t
    rw [htypes, hinv.soft]
    refine exists_congr fun call => ?_
    rw [hfate]
    split
    next =>
      cases s.fate call t with
      | none => simp
      | some old => simp [Fate.waits_deliver]
    next => exact Iff.rfl
  case taken =>
    intro t
    by_cases ht : t = h
    · subst ht
      rw [hself]
      refine iff_of_false hnot ?_
      rintro ⟨call, hmark⟩
      obtain ⟨-, old, -, heq⟩ | ⟨hne, -⟩ := fate_at_cases ((hfate call t).symm.trans hmark)
      · cases old <;> cases heq
      · exact hne rfl
    · simp only [hother t ht, hfate, if_neg ht]
      exact hinv.taken t
  case owed =>
    intro call t howed
    have hold : s.fate call t = some .owed := by
      obtain ⟨rfl, old, hmark, heq⟩ | ⟨-, hmark⟩ := fate_at_cases ((hfate call t).symm.trans howed)
      · cases old <;> first | exact hmark | cases heq
      · exact hmark
    refine ⟨hold, Or.imp (fun hp => by rwa [hpending]) fun htakes => ?_⟩
    have ht : t ≠ h := by
      rintro rfl
      rw [hpc] at htakes
      exact htakes.elim
    rwa [hother t ht]
  case unsignalled =>
    intro call t hunsignalled
    obtain ⟨rfl, old, hmark, heq⟩ | ⟨-, hmark⟩ := fate_at_cases ((hfate call t).symm.trans hunsignalled)
    · cases old <;> first | exact hmark | cases heq
    · exact hmark

/-- A step of a hart outside calls that keeps marks and interrupts. -/
theorem inv_goto_idle {pc : Pc} (hidle : (s.pc h).call? = none) (hidle' : pc.call? = none)
    (hnot : ¬ (s.pc h).Taken) (hnot' : ¬ pc.Taken) (htakes : (s.pc h).Takes → pc.Takes ∨ s.pending h = true)
    (hinv : s.Inv harts) : (s.goto h pc).Inv harts := by
  have haside : s.Aside (s.goto h pc) h :=
    ⟨rfl, rfl, rfl, fun t ht => goto_pc_other s pc ht, hidle, by rw [goto_pc_same]; exact hidle',
      fun _ _ => Iff.rfl⟩
  refine haside.inv_of_quiet hinv rfl (fun _ => Iff.rfl) hnot (by rw [goto_pc_same]; exact hnot') ?_
  rintro t (hpending | hcoming)
  · exact .inl hpending
  · by_cases ht : t = h
    · subst ht
      exact (htakes hcoming).elim (fun h => .inr (by rw [goto_pc_same]; exact h)) .inl
    · exact .inr (by rw [goto_pc_other s pc ht]; exact hcoming)

/-- An acknowledgement is followed by the code that takes the types. -/
theorem inv_acknowledge {pc : Pc} (hidle : (s.pc h).call? = none) (hidle' : pc.call? = none)
    (hnot : ¬ (s.pc h).Taken) (hnot' : ¬ pc.Taken) (htakes : pc.Takes) (hinv : s.Inv harts) :
    ((s.acknowledge h).goto h pc).Inv harts := by
  have haside : s.Aside ((s.acknowledge h).goto h pc) h :=
    ⟨rfl, rfl, rfl, fun t ht => goto_pc_other _ _ ht, hidle, by rw [goto_pc_same]; exact hidle',
      fun _ _ => Iff.rfl⟩
  refine haside.inv_of_quiet hinv rfl (fun _ => Iff.rfl) hnot (by rw [goto_pc_same]; exact hnot') ?_
  intro t hcoming
  by_cases ht : t = h
  · subst ht
    exact .inr (by rw [goto_pc_same]; exact htakes)
  · refine hcoming.imp (fun hpending => ?_) fun hold => ?_
    · exact (Function.update_of_ne ht ..).trans hpending
    · rw [goto_pc_other _ _ ht]
      exact hold

theorem inv_deliver {caller : Caller} {types : BitVec 8} {pc : Pc}
    (hpc : s.pc h = .deliver caller types) (hidle : pc.call? = none) (hnot : ¬ pc.Taken)
    (hinv : s.Inv harts) :
    ((if types &&& ipiTypeSsoft ≠ 0#8 then s.signalSupervisor h else s).goto h pc).Inv harts := by
  split
  next => exact inv_signalSupervisor hpc hidle hnot hinv
  next hsoft =>
    rw [soft_iff] at hsoft
    refine inv_goto_idle (by rw [hpc]; rfl) hidle (by rw [hpc]; exact hsoft) hnot ?_ hinv
    rw [hpc]
    exact False.elim

theorem inv_proceed (hstep : s.proceed h (s.pc h) = some s') (hinv : s.Inv harts) : s'.Inv harts := by
  cases hpc : s.pc h with
  | lower | halted =>
    rw [hpc] at hstep
    cases hstep
  | mark call todo window rest =>
    rw [hpc] at hstep
    cases todo with
    | nil =>
      cases hstep
      refine inv_goto call (by rw [hpc]; rfl) rfl (by rw [hpc]; rfl) ?_ nofun hinv
      rw [hpc]
      exact List.Subset.refl _
    | cons t todo =>
      cases hstep
      exact inv_mark hpc hinv
  | signal call todo rest =>
    rw [hpc] at hstep
    cases todo with
    | nil =>
      cases hstep
      exact inv_nextWindow hpc hinv
    | cons t todo =>
      cases hstep
      exact inv_signal hpc hinv
  | stopClear =>
    rw [hpc] at hstep
    cases hstep
    exact inv_acknowledge (by rw [hpc]; rfl) rfl (by rw [hpc]; exact id) id rfl hinv
  | clear caller =>
    rw [hpc] at hstep
    cases hstep
    exact inv_acknowledge (by rw [hpc]; rfl) rfl (by rw [hpc]; exact id) id trivial hinv
  | take caller =>
    rw [hpc] at hstep
    cases hstep
    exact inv_take hpc hinv
  | deliver caller types =>
    rw [hpc] at hstep
    cases hstep
    refine inv_deliver hpc ?_ ?_ hinv <;> split <;> first | rfl | exact id
  | drain caller =>
    rw [hpc] at hstep
    cases hstep
    refine inv_goto_idle (by rw [hpc]; rfl) rfl (by rw [hpc]; exact id) id ?_ hinv
    rw [hpc]
    exact False.elim
  | delivered caller =>
    rw [hpc] at hstep
    cases hstep
    refine inv_goto_idle (by rw [hpc]; rfl) ?_ (by rw [hpc]; exact id) ?_ ?_ hinv
    · cases caller <;> rfl
    · cases caller <;> exact id
    · rw [hpc]
      exact False.elim

theorem inv_failed (hstep : s.failed h (s.pc h) = some s') (hinv : s.Inv harts) : s'.Inv harts := by
  unfold failed at hstep
  split at hstep
  next call t todo rest hpc =>
    cases hstep
    exact inv_finish ⟨by rw [hpc]; rfl, .inr rfl⟩ hinv
  next hpc =>
    cases hstep
    refine inv_goto_idle (by rw [hpc]; rfl) rfl (by rw [hpc]; exact id) id ?_ hinv
    rw [hpc]
    exact False.elim
  next hpc =>
    cases hstep
    refine inv_goto_idle (by rw [hpc]; rfl) rfl (by rw [hpc]; exact id) id ?_ hinv
    rw [hpc]
    exact nofun
  next caller _ hpc =>
    cases hstep
    exact inv_goto_idle (by rw [hpc]; rfl) rfl (by rw [hpc]; exact id) id (fun _ => .inl trivial) hinv
  next => cases hstep

/-- A step below M-mode that keeps the marks and raises at most an interrupt. -/
theorem inv_lower {s' : System xlen} (hpc : s.pc h = .lower) (hpc' : s'.pc = s.pc)
    (hcalls : s'.calls = s.calls) (hrequest : s'.request = s.request) (hresult : s'.result = s.result)
    (hfate : s'.fate = s.fate) (hsoft : ∀ t, Soft (s'.ipiType t) ↔ Soft (s.ipiType t))
    (hpending : ∀ t, s.pending t = true → s'.pending t = true) (hinv : s.Inv harts) :
    s'.Inv harts := by
  have haside : s.Aside s' h :=
    ⟨hcalls, hrequest, hresult, fun _ _ => by rw [hpc'], by rw [hpc]; rfl, by rw [hpc', hpc]; rfl,
      fun _ _ => by rw [hfate]⟩
  refine haside.inv_of_quiet hinv hfate hsoft (by rw [hpc]; exact id) (by rw [hpc', hpc]; exact id) ?_
  intro t hcoming
  exact hcoming.imp (hpending t) fun htakes => by rwa [hpc']

theorem inv_lowerStep {choice : Choice xlen} (hpc : s.pc h = .lower)
    (hstep : s.lowerStep harts h choice = some s') (hinv : s.Inv harts) : s'.Inv harts := by
  have hgoto : ∀ pc : Pc, pc.call? = none → ¬ pc.Taken → (s.goto h pc).Inv harts := by
    intro pc hidle hnot
    refine inv_goto_idle (by rw [hpc]; rfl) hidle (by rw [hpc]; exact id) hnot ?_ hinv
    rw [hpc]
    exact False.elim
  unfold lowerStep at hstep
  split at hstep
  next hartMask receives =>
    split at hstep
    next => cases hstep
    next => cases hstep; exact hinv
    next ws hws =>
      cases hstep
      rw [begin_eq]
      exact inv_nextWindow (Function.update_self ..) (inv_register hpc hws hinv)
  next target =>
    cases hstep
    refine inv_lower hpc rfl rfl rfl rfl rfl (fun t => ?_) (fun _ => id) hinv
    change Soft (Function.update s.ipiType target _ t) ↔ _
    by_cases ht : t = target
    · subst ht
      rw [Function.update_self, soft_or_fence]
    · rw [Function.update_of_ne ht]
  next target =>
    cases hstep
    refine inv_lower hpc rfl rfl rfl rfl rfl (fun _ => Iff.rfl) (fun t hpending => ?_) hinv
    change Function.update s.pending target true t = true
    rw [Function.update_apply]
    split <;> first | rfl | exact hpending
  next =>
    rw [Option.ite_none_right_eq_some] at hstep
    cases hstep.2
    exact hgoto _ rfl id
  next => cases hstep; exact hgoto _ rfl id
  next => cases hstep; exact hgoto _ rfl id
  next =>
    cases hstep
    exact inv_lower hpc rfl rfl rfl rfl rfl (fun _ => Iff.rfl) (fun _ => id) hinv
  next => cases hstep

theorem inv_step {label : Nat × Choice xlen} (hstep : Step harts s label s') (hinv : s.Inv harts) :
    s'.Inv harts := by
  unfold Step step at hstep
  split at hstep
  next hpc => exact inv_lowerStep hpc hstep hinv
  next => exact inv_proceed hstep hinv
  next => exact inv_failed hstep hinv
  next hpc =>
    cases hstep
    refine inv_goto_idle (by rw [hpc]; rfl) rfl (by rw [hpc]; exact id) id ?_ hinv
    rw [hpc]
    exact False.elim
  next => cases hstep

theorem inv_of_initial (hs : s.Initial) : s.Inv harts := by
  obtain ⟨hpc, hsoft, hcalls, hrequest, hresult, hfate⟩ := hs
  have hidle : ∀ g, (s.pc g).call? = none ∧ ¬ (s.pc g).Taken := by
    intro g
    obtain hg | hg := hpc g <;> rw [hg] <;> exact ⟨rfl, id⟩
  have hnomark : ∀ call t, ¬ s.WillMark call t := by
    rintro call t ⟨g, hcall, -⟩
    exact nomatch (hidle g).1.symm.trans hcall
  have hnofate : ∀ {call t : Nat} {fate : Fate}, s.fate call t ≠ some fate :=
    fun {call t _} h => nomatch (hfate call t).symm.trans h
  exact
    { soft := fun t => iff_of_false (hsoft t) fun ⟨_, _, hmark, _⟩ => hnofate hmark
      taken := fun t => iff_of_false (hidle t).2 fun ⟨_, hmark⟩ => hnofate hmark
      owed := fun _ _ howed => absurd howed hnofate
      unsignalled := fun _ _ hunsignalled => absurd hunsignalled hnofate
      window := by
        intro g call todo window rest hg
        have hcall := (hidle g).1
        rw [hg] at hcall
        cases hcall
      active := fun g call hcall => nomatch (hidle g).1.symm.trans hcall
      once := fun g call hcall => nomatch (hidle g).1.symm.trans hcall
      fresh := fun call _ => ⟨hrequest call, hresult call, hfate call⟩
      named := by
        rintro call t (hmark | hmark)
        · exact absurd (hfate call t) hmark
        · exact absurd hmark (hnomark call t)
      covered := fun call hartMask receives t hreq => nomatch (hrequest call).symm.trans hreq }

theorem inv_of_reachable (hs : Reachable Initial (Step harts) s) : s.Inv harts :=
  hs.invariant (fun _ => inv_of_initial) fun _ _ _ hinv hstep => inv_step hstep hinv

/-! ## What the supervisors see -/

/-- A step that sets no supervisor interrupt and delivers no mark. -/
def Silent (s s' : System xlen) : Prop :=
  (∀ t, s'.ssip t = true → s.ssip t = true) ∧
    ∀ call t, s'.fate call t = some .delivered ↔ s.fate call t = some .delivered

theorem silent_of_eq (hssip : s'.ssip = s.ssip) (hfate : s'.fate = s.fate) : s.Silent s' :=
  ⟨fun t => by rw [hssip]; exact id, fun call t => by rw [hfate]⟩

theorem silent_finish (s : System xlen) (h call : Nat) (ret : SbiRet) :
    s.Silent (s.finish h call ret) := by
  refine ⟨fun _ => id, fun call' t => ?_⟩
  rw [finish_fate]
  split
  next hall => simp [hall.2.2]
  next => exact Iff.rfl

theorem silent_nextWindow (s : System xlen) (h call : Nat) (rest : List (List Nat)) :
    s.Silent (s.nextWindow h call rest) := by
  cases rest with
  | nil => exact silent_finish s h call _
  | cons window rest => exact silent_of_eq rfl rfl

theorem silent_lowerStep {choice : Choice xlen} (hstep : s.lowerStep harts h choice = some s') :
    s.Silent s' := by
  unfold lowerStep at hstep
  split at hstep
  next hartMask receives =>
    split at hstep
    next => cases hstep
    next => cases hstep; exact silent_of_eq rfl rfl
    next ws hws =>
      cases hstep
      exact silent_nextWindow { s with
        calls := s.calls + 1
        request := Function.update s.request s.calls (some (hartMask, receives)) } h s.calls ws
  next => cases hstep; exact silent_of_eq rfl rfl
  next => cases hstep; exact silent_of_eq rfl rfl
  next =>
    rw [Option.ite_none_right_eq_some] at hstep
    cases hstep.2
    exact silent_of_eq rfl rfl
  next => cases hstep; exact silent_of_eq rfl rfl
  next => cases hstep; exact silent_of_eq rfl rfl
  next =>
    cases hstep
    refine ⟨fun t hset => ?_, fun _ _ => Iff.rfl⟩
    change Function.update s.ssip h false t = true at hset
    rw [Function.update_apply] at hset
    split at hset
    · cases hset
    · exact hset
  next => cases hstep

/-- A supervisor interrupt is set, and a mark delivered, by `deliver_current`
with a mark taken, and by no other step. -/
theorem deliver_or_silent {label : Nat × Choice xlen} (hinv : s.Inv harts)
    (hstep : Step harts s label s') :
    (∃ caller types pc, s.pc label.1 = .deliver caller types ∧ Soft types ∧
      s' = (s.signalSupervisor label.1).goto label.1 pc) ∨ s.Silent s' := by
  unfold Step step at hstep
  split at hstep
  next => exact .inr (silent_lowerStep hstep)
  next =>
    unfold proceed at hstep
    split at hstep
    next => cases hstep
    next call t todo window rest hpc =>
      cases hstep
      refine .inr ⟨fun _ => id, fun call' u => ?_⟩
      change Function.update s.fate call (Function.update (s.fate call) t (some .owed)) call' u = _ ↔ _
      by_cases hnew : call' = call ∧ u = t
      · obtain ⟨rfl, rfl⟩ := hnew
        have hnone : s.fate call' u = none := by
          refine (hinv.once label.1 call' (by rw [hpc]; rfl)).2 u ?_
          rw [hpc]
          exact List.mem_cons_self
        simp [hnone]
      · by_cases hcall : call' = call
        · subst hcall
          rw [Function.update_self, Function.update_of_ne fun hu => hnew ⟨rfl, hu⟩]
        · rw [Function.update_of_ne hcall]
    next => cases hstep; exact .inr (silent_of_eq rfl rfl)
    next => cases hstep; exact .inr (silent_of_eq rfl rfl)
    next => cases hstep; exact .inr (silent_nextWindow s _ _ _)
    next => cases hstep; exact .inr (silent_of_eq rfl rfl)
    next => cases hstep; exact .inr (silent_of_eq rfl rfl)
    next =>
      cases hstep
      refine .inr ⟨fun _ => id, fun call t => ?_⟩
      change (if t = label.1 then (s.fate call t).map Fate.take else s.fate call t) = _ ↔ _
      split
      next =>
        cases s.fate call t with
        | none => simp
        | some old => cases old <;> simp [Fate.take]
      next => exact Iff.rfl
    next caller types hpc =>
      cases hstep
      by_cases hsoft : types &&& ipiTypeSsoft ≠ 0#8
      · rw [if_pos hsoft]
        exact .inl ⟨caller, types, _, hpc, (soft_iff types).mp hsoft, rfl⟩
      · rw [if_neg hsoft]
        exact .inr (silent_of_eq rfl rfl)
    next => cases hstep; exact .inr (silent_of_eq rfl rfl)
    next => cases hstep; exact .inr (silent_of_eq rfl rfl)
    next => cases hstep
  next =>
    unfold failed at hstep
    split at hstep
    next => cases hstep; exact .inr (silent_finish s _ _ _)
    next => cases hstep; exact .inr (silent_of_eq rfl rfl)
    next => cases hstep; exact .inr (silent_of_eq rfl rfl)
    next => cases hstep; exact .inr (silent_of_eq rfl rfl)
    next => cases hstep
  next => cases hstep; exact .inr (silent_of_eq rfl rfl)
  next => cases hstep

/-- A call of `send_ipi` that has returned success marked exactly the harts that
its mask names and that can receive, and each of their marks has been delivered
with a supervisor interrupt, is being delivered, or waits with a machine
interrupt pending or the target's own code about to take it. -/
theorem send_ipi_reaches_targets (harts : Harts) {s : System xlen}
    (hs : Reachable Initial (Step harts) s) {call : Nat} {hartMask : HartMask xlen}
    {receives : Nat → Bool} (hrequest : s.request call = some (hartMask, receives))
    (hresult : s.result call = some (.success 0)) (t : Nat) :
    (s.fate call t ≠ none ↔ available harts receives t = true ∧ hartMask.Denotes t) ∧
    (available harts receives t = true → hartMask.Denotes t →
      s.fate call t = some .delivered ∨ (s.fate call t = some .taken ∧ (s.pc t).Taken) ∨
        (s.fate call t = some .owed ∧ Soft (s.ipiType t) ∧ s.Coming t)) := by
  have hinv := inv_of_reachable hs
  have hdone : ∀ g, (s.pc g).call? ≠ some call := by
    intro g hcall
    exact nomatch hresult.symm.trans (hinv.active g call hcall).2.1
  have hmarked : available harts receives t = true → hartMask.Denotes t → s.fate call t ≠ none := by
    intro havailable hdenotes
    refine (hinv.covered call hartMask receives t hrequest havailable hdenotes ?_).resolve_right ?_
    · rw [hresult]
      decide
    · rintro ⟨g, hcall, -⟩
      exact hdone g hcall
  refine ⟨⟨fun hfate => ?_, fun h => hmarked h.1 h.2⟩, fun havailable hdenotes => ?_⟩
  · obtain ⟨hartMask', receives', hrequest', havailable, hdenotes⟩ := hinv.named call t (.inl hfate)
    cases hrequest.symm.trans hrequest'
    exact ⟨havailable, hdenotes⟩
  · obtain ⟨fate, hfate⟩ := Option.ne_none_iff_exists'.mp (hmarked havailable hdenotes)
    cases fate with
    | delivered => exact .inl hfate
    | taken => exact .inr (.inl ⟨hfate, (hinv.taken t).mpr ⟨call, hfate⟩⟩)
    | owed =>
      refine .inr (.inr ⟨hfate, (hinv.soft t).mpr ⟨call, .owed, hfate, .inl rfl⟩, ?_⟩)
      refine (hinv.owed call t hfate).resolve_right ?_
      rintro ⟨g, hcall, -⟩
      exact hdone g hcall
    | unsignalled =>
      have hfailed := hresult.symm.trans (hinv.unsignalled call t hfate)
      exact absurd (Option.some.inj hfailed) (by decide)

/-- Two harts of eight. -/
def twoHarts : Harts := ⟨8, [true, true], by decide⟩

/-- Hart 0 interrupts hart 1, which has not run since. -/
def sendToOne : List (Nat × Choice .rv32) :=
  (0, .sendIpi ⟨2#32, 0⟩ fun _ => true) :: List.replicate 4 (0, .proceed)

set_option maxRecDepth 8000 in
theorem send_ipi_reaches_targets_hart_one :
    ∃ s : System .rv32, Reachable Initial (Step twoHarts) s ∧ s.result 0 = some (.success 0) ∧
      (s.fate 0 1 = some .delivered ∨ (s.fate 0 1 = some .taken ∧ (s.pc 1).Taken) ∨
        (s.fate 0 1 = some .owed ∧ Soft (s.ipiType 1) ∧ s.Coming 1)) := by
  obtain ⟨s, hexec, hrequest, hresult⟩ : ∃ s,
      sendToOne.foldlM (fun s label => s.step twoHarts label.1 label.2) (init .rv32) = some s ∧
      s.request 0 = some (⟨2#32, 0⟩, fun _ => true) ∧ s.result 0 = some (.success 0) :=
    ⟨_, rfl, rfl, rfl⟩
  have hreach : Reachable Initial (Step twoHarts) s :=
    ⟨_, _, init_initial, Run.of_foldlM (fun _ _ _ h => h) hexec⟩
  refine ⟨s, hreach, hresult, (send_ipi_reaches_targets twoHarts hreach hrequest hresult 1).2 ?_ ?_⟩
  · decide
  · exact .inr ⟨1, by decide, rfl⟩

/-- No supervisor interrupt is invented: a step that sets one delivers a mark of
some call that named the hart, every mark is delivered at most once, and only by
such a step. -/
theorem ssip_set_for_call (harts : Harts) {s s' : System xlen} {label : Nat × Choice xlen}
    (hs : Reachable Initial (Step harts) s) (hstep : Step harts s label s') (t : Nat) :
    (s.ssip t = false → s'.ssip t = true →
      ∃ call hartMask receives, s.request call = some (hartMask, receives) ∧ hartMask.Denotes t ∧
        s.fate call t = some .taken ∧ s'.fate call t = some .delivered) ∧
    (∀ call, s.fate call t = some .delivered → s'.fate call t = some .delivered) ∧
    ∀ call, s.fate call t ≠ some .delivered → s'.fate call t = some .delivered →
      s.fate call t = some .taken ∧ s'.ssip t = true := by
  have hinv := inv_of_reachable hs
  obtain ⟨caller, types, pc, hpc, hsoft, rfl⟩ | ⟨hssip, hfate⟩ := deliver_or_silent hinv hstep
  · have hfate : ∀ call, ((s.signalSupervisor label.1).goto label.1 pc).fate call t =
        if t = label.1 then (s.fate call t).map Fate.deliver else s.fate call t := fun _ => rfl
    have hssip : ((s.signalSupervisor label.1).goto label.1 pc).ssip t =
        Function.update s.ssip label.1 true t := rfl
    by_cases ht : t = label.1
    · subst ht
      rw [Function.update_self] at hssip
      refine ⟨fun _ _ => ?_, fun call hdelivered => ?_, fun call hnot hdelivered => ?_⟩
      · obtain ⟨call, htaken⟩ := (hinv.taken label.1).mp (by rw [hpc]; exact hsoft)
        obtain ⟨hartMask, receives, hrequest, -, hdenotes⟩ :=
          hinv.named call label.1 (.inl (by rw [htaken]; exact Option.some_ne_none _))
        refine ⟨call, hartMask, receives, hrequest, hdenotes, htaken, ?_⟩
        rw [hfate, if_pos rfl, htaken]
        rfl
      · rw [hfate, if_pos rfl, hdelivered]
        rfl
      · rw [hfate, if_pos rfl, Option.map_eq_some_iff] at hdelivered
        obtain ⟨old, hold, heq⟩ := hdelivered
        refine ⟨?_, hssip⟩
        cases old with
        | taken => exact hold
        | delivered => exact absurd hold hnot
        | owed | unsignalled => cases heq
    · rw [Function.update_of_ne ht] at hssip
      simp only [hfate, if_neg ht, hssip]
      refine ⟨fun hclear hset => ?_, fun _ => id, fun call hnot hdelivered => absurd hdelivered hnot⟩
      rw [hclear] at hset
      cases hset
  · refine ⟨fun hclear hset => ?_, fun call => (hfate call t).mpr, fun call hnot hdelivered => ?_⟩
    · rw [hssip t hset] at hclear
      cases hclear
    · exact absurd ((hfate call t).mp hdelivered) hnot

set_option maxRecDepth 8000 in
/-- Hart 1 takes the interrupt and is about to set its supervisor interrupt. -/
theorem ssip_set_for_call_hart_one :
    ∃ s s' : System .rv32, Reachable Initial (Step twoHarts) s ∧
      Step twoHarts s (1, .proceed) s' ∧ s'.ssip 1 = true ∧
      ∃ call hartMask receives, s.request call = some (hartMask, receives) ∧ hartMask.Denotes 1 ∧
        s.fate call 1 = some .taken ∧ s'.fate call 1 = some .delivered := by
  let labels : List (Nat × Choice .rv32) :=
    sendToOne ++ [(1, .interrupt), (1, .proceed), (1, .proceed)]
  obtain ⟨s, s', hexec, hstep, hclear, hset⟩ : ∃ s s' : System .rv32,
      labels.foldlM (fun s label => s.step twoHarts label.1 label.2) (init .rv32) = some s ∧
      s.step twoHarts 1 .proceed = some s' ∧ s.ssip 1 = false ∧ s'.ssip 1 = true :=
    ⟨_, _, rfl, rfl, rfl, rfl⟩
  have hreach : Reachable Initial (Step twoHarts) s :=
    ⟨_, _, init_initial, Run.of_foldlM (fun _ _ _ h => h) hexec⟩
  have hstep' : Step twoHarts s (1, .proceed) s' := hstep
  exact ⟨s, s', hreach, hstep', hset, (ssip_set_for_call twoHarts hreach hstep' 1).1 hclear hset⟩

end System

end RustSbi.SupervisorIpi
