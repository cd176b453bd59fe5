import Mathlib.Tactic

/-!
Calls that send one request to each of several targets and return when every
request is settled. The ledger keeps the requests in flight as a multiset, so
that moving a request from one place to another leaves it unchanged, and a log
of what was requested, executed and cancelled, with the newest event first.
The invariant at the end holds of every step that follows the rules below and
gives the three guarantees of such a protocol: a request is executed or
cancelled at most once, the requests in flight belong to calls that have not
returned, and a call that returns without failure was executed by every target.
-/

namespace Ledger

/-- One request of a call; the number of the call identifies it. -/
structure Ticket (H D : Type) where
  call : Nat
  source : H
  target : H
  data : D
  deriving DecidableEq, Repr

/-- A call under way: the targets it has visited, in order, and those to come. -/
structure Call (H D : Type) where
  id : Nat
  data : D
  visited : List H
  rest : List H
  ok : Bool

inductive Event (H D : Type)
  | began (call : Nat) (source : H) (data : D) (targets : List H)
  | requested (ticket : Ticket H D)
  | executed (ticket : Ticket H D)
  | cancelled (ticket : Ticket H D)
  | returned (call : Nat) (ok : Bool)
  deriving DecidableEq, Repr

/-- The call that an event is about. -/
def Event.call {H D : Type} : Event H D → Nat
  | began call _ _ _ => call
  | requested ticket => ticket.call
  | executed ticket => ticket.call
  | cancelled ticket => ticket.call
  | returned call _ => call

/-- Every target of a call that returned without failure executed its request
after the call began. -/
def Complete {H D : Type} (log : List (Event H D)) : Prop :=
  ∀ newer older call, log = newer ++ .returned call true :: older →
    ∃ h data targets since before, older = since ++ .began call h data targets :: before ∧
      ∀ t ∈ targets, .executed ⟨call, h, t, data⟩ ∈ since

theorem Complete.cons {H D : Type} {log : List (Event H D)} (hlog : Complete log) {event : Event H D}
    (hevent : ∀ call, event ≠ .returned call true) : Complete (event :: log) := by
  intro newer older call heq
  rcases List.cons_eq_append_iff.mp heq with ⟨rfl, hhead⟩ | ⟨newer, rfl, hrest⟩
  · injection hhead with hhead
    exact (hevent call hhead.symm).elim
  · exact hlog newer older call hrest

/-- The state of the protocol. A request in flight carries whether it has been
executed or cancelled and only waits for its acknowledgement. -/
structure State (H D : Type) where
  active : H → Option (Call H D)
  inFlight : Multiset (Ticket H D × Bool)
  calls : Nat
  log : List (Event H D)

variable {H D : Type} [DecidableEq H]

/-- The request of a call to a target. -/
def Call.ticket (call : Call H D) (source target : H) : Ticket H D :=
  ⟨call.id, source, target, call.data⟩

/-- The call after it has visited its next target. -/
def Call.visit (call : Call H D) (target : H) (rest : List H) : Call H D :=
  { call with visited := call.visited ++ [target], rest := rest }

namespace State

/-- Another call, or none, is under way at the hart. -/
def setActive (s : State H D) (h : H) (call : Option (Call H D)) : State H D :=
  { s with active := Function.update s.active h call }

def record (s : State H D) (event : Event H D) : State H D := { s with log := event :: s.log }

/-- The rules of the protocol. -/
inductive Step : State H D → State H D → Prop
  | stay (s : State H D) : Step s s
  | begin (s : State H D) (h : H) (data : D) (targets : List H) (hidle : s.active h = none)
      (hnodup : targets.Nodup) :
      Step s { (s.setActive h (some ⟨s.calls, data, [], targets, true⟩)).record
        (.began s.calls h data targets) with calls := s.calls + 1 }
  | executeOwn (s : State H D) (h : H) (call : Call H D) (rest : List H)
      (hactive : s.active h = some call) (hrest : call.rest = h :: rest) :
      Step s (((s.setActive h (some (call.visit h rest))).record
        (.requested (call.ticket h h))).record (.executed (call.ticket h h)))
  | request (s : State H D) (h t : H) (call : Call H D) (rest : List H)
      (hactive : s.active h = some call) (hrest : call.rest = t :: rest) :
      Step s { (s.setActive h (some (call.visit t rest))).record (.requested (call.ticket h t)) with
        inFlight := (call.ticket h t, false) ::ₘ s.inFlight }
  | execute (s : State H D) (ticket : Ticket H D) (rest : Multiset (Ticket H D × Bool))
      (hmem : s.inFlight = (ticket, false) ::ₘ rest) :
      Step s { s.record (.executed ticket) with inFlight := (ticket, true) ::ₘ rest }
  | cancel (s : State H D) (ticket : Ticket H D) (call : Call H D)
      (rest : Multiset (Ticket H D × Bool)) (hactive : s.active ticket.source = some call)
      (hmem : s.inFlight = (ticket, false) ::ₘ rest) :
      Step s { (s.setActive ticket.source (some { call with ok := false })).record
        (.cancelled ticket) with inFlight := (ticket, true) ::ₘ rest }
  | fail (s : State H D) (h : H) (call : Call H D) (hactive : s.active h = some call) :
      Step s (s.setActive h (some { call with ok := false }))
  | settle (s : State H D) (ticket : Ticket H D) (rest : Multiset (Ticket H D × Bool))
      (hmem : s.inFlight = (ticket, true) ::ₘ rest) :
      Step s { s with inFlight := rest }
  | ret (s : State H D) (h : H) (call : Call H D) (hactive : s.active h = some call)
      (hsettled : ∀ request ∈ s.inFlight, request.1.source ≠ h)
      (hrest : call.ok = true → call.rest = []) :
      Step s ((s.setActive h none).record (.returned call.id call.ok))

end State

/-- A call that is under way after a step was under way before it, or has just
begun. -/
theorem active_step {s s' : State H D} (hstep : s.Step s') {h : H} {call : Call H D}
    (hcall : s'.active h = some call) :
    (∃ own, s.active h = some own ∧ call.id = own.id) ∨
      (call.id = s.calls ∧ ∀ k ≠ h, s'.active k = s.active k) := by
  cases hstep with
  | stay | execute | settle => exact .inl ⟨call, hcall, rfl⟩
  | begin h' data targets hidle hnodup =>
    by_cases hh : h = h'
    · subst hh
      simp only [State.record, State.setActive, Function.update_self, Option.some.injEq] at hcall
      exact .inr ⟨by rw [← hcall], fun k hk => by simp [State.record, State.setActive, hk]⟩
    · simp only [State.record, State.setActive, Function.update_of_ne hh] at hcall
      exact .inl ⟨call, hcall, rfl⟩
  | executeOwn h' own rest hactive hrest | request h' t own rest hactive hrest =>
    by_cases hh : h = h'
    · subst hh
      simp only [State.record, State.setActive, Function.update_self, Option.some.injEq] at hcall
      exact .inl ⟨own, hactive, by rw [← hcall]; rfl⟩
    · simp only [State.record, State.setActive, Function.update_of_ne hh] at hcall
      exact .inl ⟨call, hcall, rfl⟩
  | fail h' own hactive =>
    by_cases hh : h = h'
    · subst hh
      simp only [State.setActive, Function.update_self, Option.some.injEq] at hcall
      exact .inl ⟨own, hactive, by rw [← hcall]⟩
    · simp only [State.setActive, Function.update_of_ne hh] at hcall
      exact .inl ⟨call, hcall, rfl⟩
  | cancel ticket own rest hactive hmem =>
    by_cases hh : h = ticket.source
    · subst hh
      simp only [State.record, State.setActive, Function.update_self, Option.some.injEq] at hcall
      exact .inl ⟨own, hactive, by rw [← hcall]⟩
    · simp only [State.record, State.setActive, Function.update_of_ne hh] at hcall
      exact .inl ⟨call, hcall, rfl⟩
  | ret h' own hactive hsettled hrest =>
    by_cases hh : h = h'
    · subst hh
      simp [State.record, State.setActive] at hcall
    · simp only [State.record, State.setActive, Function.update_of_ne hh] at hcall
      exact .inl ⟨call, hcall, rfl⟩

/-! ## The invariant of a call -/

section CallOk

variable [DecidableEq D]

/-- What the log says about a call that is under way at `h`. -/
structure CallOk (calls : Nat) (log : List (Event H D)) (h : H) (call : Call H D) : Prop where
  id_lt : call.id < calls
  nodup : (call.visited ++ call.rest).Nodup
  requested : ∀ t, log.count (.requested (call.ticket h t)) = if t ∈ call.visited then 1 else 0
  clean : call.ok = true → ∀ t, .cancelled (call.ticket h t) ∉ log
  began : ∃ newer older,
    log = newer ++ .began call.id h call.data (call.visited ++ call.rest) :: older ∧
      ∀ event ∈ older, event.call ≠ call.id
  not_returned : ∀ ok, .returned call.id ok ∉ log

variable {calls : Nat} {log : List (Event H D)} {h : H} {call : Call H D}

theorem CallOk.mono (hok : CallOk calls log h call) {calls' : Nat} (hle : calls ≤ calls') :
    CallOk calls' log h call :=
  { hok with id_lt := Nat.lt_of_lt_of_le hok.id_lt hle }

/-- An event that is no request and no cancellation of the call. -/
theorem CallOk.cons (hok : CallOk calls log h call) {event : Event H D}
    (hrequested : ∀ t, event ≠ .requested (call.ticket h t))
    (hcancelled : ∀ t, event ≠ .cancelled (call.ticket h t))
    (hreturned : ∀ ok, event ≠ .returned call.id ok) : CallOk calls (event :: log) h call where
  id_lt := hok.id_lt
  nodup := hok.nodup
  requested t := by
    rw [List.count_cons_of_ne (hrequested t), hok.requested t]
  clean hcall t := by
    rw [List.mem_cons, not_or]
    exact ⟨fun heq => hcancelled t heq.symm, hok.clean hcall t⟩
  began := by
    obtain ⟨newer, older, hlog, holder⟩ := hok.began
    exact ⟨event :: newer, older, by rw [hlog, List.cons_append], holder⟩
  not_returned ok := by
    rw [List.mem_cons, not_or]
    exact ⟨fun heq => hreturned ok heq.symm, hok.not_returned ok⟩

/-- A call whose number is new. -/
theorem CallOk.begin (hfresh : ∀ event ∈ log, event.call < calls) (h : H) (data : D)
    {targets : List H} (hnodup : targets.Nodup) :
    CallOk (calls + 1) (.began calls h data targets :: log) h ⟨calls, data, [], targets, true⟩ where
  id_lt := Nat.lt_succ_self calls
  nodup := by simpa using hnodup
  requested t := by
    have hnot : Event.requested (Call.ticket ⟨calls, data, [], targets, true⟩ h t) ∉ log :=
      fun hmem => Nat.lt_irrefl _ (hfresh _ hmem)
    simp [List.count_cons_of_ne, List.count_eq_zero_of_not_mem hnot]
  clean _ t := by
    have hnot : Event.cancelled (Call.ticket ⟨calls, data, [], targets, true⟩ h t) ∉ log :=
      fun hmem => Nat.lt_irrefl _ (hfresh _ hmem)
    simp [hnot]
  began := ⟨[], log, by simp, fun event hmem => Nat.ne_of_lt (hfresh event hmem)⟩
  not_returned ok := by
    have hnot : Event.returned calls ok ∉ log := fun hmem => Nat.lt_irrefl _ (hfresh _ hmem)
    simp [hnot]

theorem CallOk.not_visited (hok : CallOk calls log h call) {t : H} {rest : List H}
    (hrest : call.rest = t :: rest) : t ∉ call.visited := by
  have hnodup := hok.nodup
  rw [hrest, List.nodup_append] at hnodup
  intro hmem
  exact hnodup.2.2 t hmem t List.mem_cons_self rfl

theorem CallOk.visit (hok : CallOk calls log h call) {t : H} {rest : List H}
    (hrest : call.rest = t :: rest) :
    CallOk calls (.requested (call.ticket h t) :: log) h (call.visit t rest) where
  id_lt := hok.id_lt
  nodup := by
    have hnodup := hok.nodup
    rw [hrest] at hnodup
    simpa [Call.visit] using hnodup
  requested t' := by
    have hcount := hok.requested t'
    change List.count (Event.requested (call.ticket h t')) _ = _
    by_cases ht : t' = t
    · subst ht
      rw [if_neg (hok.not_visited hrest)] at hcount
      simp [Call.visit, hcount]
    · have hne : Event.requested (call.ticket h t) ≠ .requested (call.ticket h t') := by
        intro heq
        injection heq with heq
        exact ht (congrArg Ticket.target heq).symm
      rw [List.count_cons_of_ne hne, hcount]
      simp [Call.visit, ht]
  clean hcall t' := by
    change Event.cancelled (call.ticket h t') ∉ _
    simp [hok.clean hcall t']
  began := by
    obtain ⟨newer, older, hlog, holder⟩ := hok.began
    refine ⟨.requested (call.ticket h t) :: newer, older, ?_, holder⟩
    simp [hlog, Call.visit, hrest]
  not_returned ok := by
    change Event.returned call.id ok ∉ _
    simp [hok.not_returned ok]

theorem CallOk.fail (hok : CallOk calls log h call) :
    CallOk calls log h { call with ok := false } :=
  ⟨hok.id_lt, hok.nodup, hok.requested, fun hcall => (Bool.false_ne_true hcall).elim, hok.began,
    hok.not_returned⟩

theorem CallOk.cancel (hok : CallOk calls log h call) (ticket : Ticket H D) :
    CallOk calls (.cancelled ticket :: log) h { call with ok := false } where
  id_lt := hok.id_lt
  nodup := hok.nodup
  requested t := by
    rw [List.count_cons_of_ne (by simp)]
    exact hok.requested t
  clean hcall := (Bool.false_ne_true hcall).elim
  began := by
    obtain ⟨newer, older, hlog, holder⟩ := hok.began
    exact ⟨.cancelled ticket :: newer, older, by rw [hlog, List.cons_append], holder⟩
  not_returned ok := by simp [hok.not_returned ok]

end CallOk

/-! ## The invariant of the protocol -/

section Inv

/-- The call of a request in flight has not returned and has visited the target. -/
def Live (active : H → Option (Call H D)) (ticket : Ticket H D) : Prop :=
  ∃ call, active ticket.source = some call ∧
    ticket = call.ticket ticket.source ticket.target ∧ ticket.target ∈ call.visited

theorem Live.update {active : H → Option (Call H D)} {ticket : Ticket H D}
    (hlive : Live active ticket) {h : H} {call : Call H D} (hactive : active h = some call)
    (call' : Call H D) (hticket : ∀ t, call'.ticket h t = call.ticket h t)
    (hvisited : call.visited ⊆ call'.visited) :
    Live (Function.update active h (some call')) ticket := by
  obtain ⟨own, hown, heq, hmem⟩ := hlive
  by_cases hsource : ticket.source = h
  · subst hsource
    have hcall : own = call := Option.some.inj (hown.symm.trans hactive)
    subst hcall
    exact ⟨call', by simp, by rw [hticket]; exact heq, hvisited hmem⟩
  · exact ⟨own, by simp [hsource, hown], heq, hmem⟩

variable [DecidableEq D]

structure Inv (s : State H D) : Prop where
  live : ∀ request ∈ s.inFlight, Live s.active request.1
  fresh : ∀ event ∈ s.log, event.call < s.calls
  callOk : ∀ h call, s.active h = some call → CallOk s.calls s.log h call
  owner : ∀ h h' call call', s.active h = some call → s.active h' = some call' →
    call.id = call'.id → h = h'
  requested_le : ∀ ticket, s.log.count (.requested ticket) ≤ 1
  inFlight_le : ∀ ticket, s.inFlight.count (ticket, false) + s.inFlight.count (ticket, true) ≤
    s.log.count (.requested ticket)
  balance : ∀ ticket, s.log.count (.executed ticket) + s.log.count (.cancelled ticket) +
    s.inFlight.count (ticket, false) = s.log.count (.requested ticket)
  complete : Complete s.log

variable {s s' : State H D}

/-- A protocol with no call under way and an empty log. -/
theorem Inv.initial (hactive : ∀ h, s.active h = none) (hflight : s.inFlight = 0)
    (hlog : s.log = []) : Inv s where
  live := by simp [hflight]
  fresh := by simp [hlog]
  callOk h call hcall := by simp [hactive] at hcall
  owner h h' call call' hcall := by simp [hactive] at hcall
  requested_le := by simp [hlog]
  inFlight_le := by simp [hflight]
  balance := by simp [hflight, hlog]
  complete := by
    intro newer older call heq
    simp [hlog] at heq

theorem live_step (hstep : s.Step s') (hinv : Inv s) :
    ∀ request ∈ s'.inFlight, Live s'.active request.1 := by
  have hlive := hinv.live
  cases hstep with
  | stay => exact hlive
  | begin h data targets hidle hnodup =>
    intro request hmem
    obtain ⟨call, hcall, heq, hvisited⟩ := hlive request hmem
    have hne : request.1.source ≠ h := fun hsource => by simp [hsource, hidle] at hcall
    exact ⟨call, by simp [State.setActive, State.record, hne, hcall], heq, hvisited⟩
  | executeOwn h call rest hactive hrest =>
    intro request hmem
    exact (hlive request hmem).update hactive (call.visit h rest) (fun _ => rfl)
      (List.subset_append_left _ _)
  | request h t call rest hactive hrest =>
    intro request hmem
    rcases Multiset.mem_cons.mp hmem with rfl | hmem
    · exact ⟨call.visit t rest, by simp [State.setActive, State.record, Call.ticket], rfl,
        by simp [Call.visit, Call.ticket]⟩
    · exact (hlive request hmem).update hactive (call.visit t rest) (fun _ => rfl)
        (List.subset_append_left _ _)
  | execute ticket rest hmem =>
    rw [hmem, Multiset.forall_mem_cons] at hlive
    exact Multiset.forall_mem_cons.mpr hlive
  | cancel ticket call rest hactive hmem =>
    rw [hmem, Multiset.forall_mem_cons] at hlive
    have hupdate : ∀ own, Live s.active own →
        Live (Function.update s.active ticket.source (some { call with ok := false })) own :=
      fun own hown => hown.update hactive _ (fun _ => rfl) (List.Subset.refl _)
    exact Multiset.forall_mem_cons.mpr
      ⟨hupdate _ hlive.1, fun request hmem => hupdate _ (hlive.2 request hmem)⟩
  | fail h call hactive =>
    intro request hmem
    exact (hlive request hmem).update hactive { call with ok := false } (fun _ => rfl)
      (List.Subset.refl _)
  | settle ticket rest hmem =>
    rw [hmem, Multiset.forall_mem_cons] at hlive
    exact hlive.2
  | ret h call hactive hsettled hrest =>
    intro request hmem
    obtain ⟨own, hown, heq, hvisited⟩ := hlive request hmem
    exact ⟨own, by simp [State.setActive, State.record, hsettled request hmem, hown], heq, hvisited⟩

theorem fresh_step (hstep : s.Step s') (hinv : Inv s) : ∀ event ∈ s'.log, event.call < s'.calls := by
  have hfresh := hinv.fresh
  have hid : ∀ {h call}, s.active h = some call → call.id < s.calls :=
    fun hactive => (hinv.callOk _ _ hactive).id_lt
  have hticket : ∀ {request}, request ∈ s.inFlight → request.1.call < s.calls := by
    intro request hmem
    obtain ⟨call, hcall, heq, -⟩ := hinv.live request hmem
    rw [heq]
    exact hid hcall
  cases hstep with
  | stay => exact hfresh
  | begin h data targets hidle hnodup =>
    intro event hevent
    rcases List.mem_cons.mp hevent with rfl | hevent
    · exact Nat.lt_succ_self s.calls
    · exact Nat.lt_succ_of_lt (hfresh event hevent)
  | executeOwn h call rest hactive hrest =>
    simp only [State.record, List.forall_mem_cons]
    exact ⟨hid hactive, hid hactive, hfresh⟩
  | request h t call rest hactive hrest =>
    simp only [State.record, List.forall_mem_cons]
    exact ⟨hid hactive, hfresh⟩
  | execute ticket rest hmem =>
    simp only [State.record, List.forall_mem_cons]
    exact ⟨hticket (hmem ▸ Multiset.mem_cons_self _ _), hfresh⟩
  | cancel ticket call rest hactive hmem =>
    simp only [State.record, List.forall_mem_cons]
    exact ⟨hticket (hmem ▸ Multiset.mem_cons_self _ _), hfresh⟩
  | fail h call hactive => exact hfresh
  | settle ticket rest hmem => exact hfresh
  | ret h call hactive hsettled hrest =>
    simp only [State.record, List.forall_mem_cons]
    exact ⟨hid hactive, hfresh⟩

theorem requested_le_step (hstep : s.Step s') (hinv : Inv s) (ticket : Ticket H D) :
    s'.log.count (.requested ticket) ≤ 1 := by
  have hle := hinv.requested_le ticket
  -- a new request is one of a target that the call had not visited
  have hnew : ∀ {h t call rest}, s.active h = some call → call.rest = t :: rest →
      (Event.requested (call.ticket h t) :: s.log).count (.requested ticket) ≤ 1 := by
    intro h t call rest hactive hrest
    have hok := hinv.callOk h call hactive
    have hzero := hok.requested t
    rw [if_neg (hok.not_visited hrest)] at hzero
    by_cases heq : call.ticket h t = ticket
    · subst heq
      simp [hzero]
    · rw [List.count_cons_of_ne (by simpa using heq)]
      exact hle
  cases hstep with
  | executeOwn h call rest hactive hrest =>
    simpa [State.record, State.setActive] using hnew hactive hrest
  | request h t call rest hactive hrest => exact hnew hactive hrest
  | _ => simpa [State.record, State.setActive] using hle

theorem inFlight_le_step (hstep : s.Step s') (hinv : Inv s) (ticket : Ticket H D) :
    s'.inFlight.count (ticket, false) + s'.inFlight.count (ticket, true) ≤
      s'.log.count (.requested ticket) := by
  have hle := hinv.inFlight_le ticket
  cases hstep with
  | executeOwn h call rest hactive hrest =>
    simp only [State.record, State.setActive, List.count_cons]
    omega
  | request h t call rest hactive hrest =>
    simp only [State.record, State.setActive, Multiset.count_cons, List.count_cons]
    by_cases heq : ticket = call.ticket h t
    · simp [heq] at hle ⊢
      omega
    · simpa [heq, Ne.symm heq] using hle
  | execute own rest hmem =>
    simp only [hmem, Multiset.count_cons] at hle
    simp only [State.record, Multiset.count_cons]
    by_cases heq : ticket = own
    · simp [heq] at hle ⊢
      omega
    · simpa [heq] using hle
  | cancel own call rest hactive hmem =>
    simp only [hmem, Multiset.count_cons] at hle
    simp only [State.record, State.setActive, Multiset.count_cons]
    by_cases heq : ticket = own
    · simp [heq] at hle ⊢
      omega
    · simpa [heq] using hle
  | settle own rest hmem =>
    simp only [hmem, Multiset.count_cons] at hle
    dsimp only
    omega
  | _ => simpa [State.record, State.setActive] using hle

theorem balance_step (hstep : s.Step s') (hinv : Inv s) (ticket : Ticket H D) :
    s'.log.count (.executed ticket) + s'.log.count (.cancelled ticket) +
      s'.inFlight.count (ticket, false) = s'.log.count (.requested ticket) := by
  have hbalance := hinv.balance ticket
  cases hstep with
  | executeOwn h call rest hactive hrest =>
    simp only [State.record, State.setActive, List.count_cons]
    by_cases heq : ticket = call.ticket h h
    · simp [heq] at hbalance ⊢
      omega
    · simpa [heq, Ne.symm heq] using hbalance
  | request h t call rest hactive hrest =>
    simp only [State.record, State.setActive, Multiset.count_cons, List.count_cons]
    by_cases heq : ticket = call.ticket h t
    · simp [heq] at hbalance ⊢
      omega
    · simpa [heq, Ne.symm heq] using hbalance
  | execute own rest hmem =>
    simp only [hmem, Multiset.count_cons] at hbalance
    simp only [State.record, Multiset.count_cons, List.count_cons]
    by_cases heq : ticket = own
    · simp [heq] at hbalance ⊢
      omega
    · simpa [heq, Ne.symm heq] using hbalance
  | cancel own call rest hactive hmem =>
    simp only [hmem, Multiset.count_cons] at hbalance
    simp only [State.record, State.setActive, Multiset.count_cons, List.count_cons]
    by_cases heq : ticket = own
    · simp [heq] at hbalance ⊢
      omega
    · simpa [heq, Ne.symm heq] using hbalance
  | settle own rest hmem =>
    simpa [hmem] using hbalance
  | _ => simpa [State.record, State.setActive] using hbalance

theorem owner_step (hstep : s.Step s') (hinv : Inv s) (h h' : H) (call call' : Call H D)
    (hcall : s'.active h = some call) (hcall' : s'.active h' = some call')
    (hid : call.id = call'.id) : h = h' := by
  by_contra hne
  have hlt : ∀ {k own}, s.active k = some own → own.id < s.calls :=
    fun hown => (hinv.callOk _ _ hown).id_lt
  rcases active_step hstep hcall with ⟨own, hown, heq⟩ | ⟨hnew, hrest⟩
  · rcases active_step hstep hcall' with ⟨own', hown', heq'⟩ | ⟨hnew', -⟩
    · exact hne (hinv.owner h h' own own' hown hown' (by rw [← heq, hid, heq']))
    · have hown := hlt hown
      omega
  · rw [hrest h' (Ne.symm hne)] at hcall'
    have hcall' := hlt hcall'
    omega

theorem callOk_step (hstep : s.Step s') (hinv : Inv s) (h : H) (call : Call H D)
    (hcall : s'.active h = some call) : CallOk s'.calls s'.log h call := by
  have hok := hinv.callOk
  cases hstep with
  | stay => exact hok h call hcall
  | begin h' data targets hidle hnodup =>
    by_cases hh : h = h'
    · subst hh
      simp only [State.record, State.setActive, Function.update_self, Option.some.injEq] at hcall
      subst hcall
      exact .begin hinv.fresh h data hnodup
    · simp only [State.record, State.setActive, Function.update_of_ne hh] at hcall
      exact ((hok h call hcall).mono (Nat.le_succ s.calls)).cons (by simp) (by simp) (by simp)
  | executeOwn h' own rest hactive hrest =>
    by_cases hh : h = h'
    · subst hh
      simp only [State.record, State.setActive, Function.update_self, Option.some.injEq] at hcall
      subst hcall
      exact ((hok h own hactive).visit hrest).cons (by simp) (by simp) (by simp)
    · simp only [State.record, State.setActive, Function.update_of_ne hh] at hcall
      exact ((hok h call hcall).cons (by simp [Call.ticket, Ne.symm hh]) (by simp)
        (by simp)).cons
        (by simp) (by simp) (by simp)
  | request h' t own rest hactive hrest =>
    by_cases hh : h = h'
    · subst hh
      simp only [State.record, State.setActive, Function.update_self, Option.some.injEq] at hcall
      subst hcall
      exact (hok h own hactive).visit hrest
    · simp only [State.record, State.setActive, Function.update_of_ne hh] at hcall
      exact (hok h call hcall).cons (by simp [Call.ticket, Ne.symm hh]) (by simp)
        (by simp)
  | execute ticket rest hmem => exact (hok h call hcall).cons (by simp) (by simp) (by simp)
  | cancel ticket own rest hactive hmem =>
    by_cases hh : h = ticket.source
    · subst hh
      simp only [State.record, State.setActive, Function.update_self, Option.some.injEq] at hcall
      subst hcall
      exact (hok ticket.source own hactive).cancel ticket
    · simp only [State.record, State.setActive, Function.update_of_ne hh] at hcall
      refine (hok h call hcall).cons (by simp) ?_ (by simp)
      rintro t heq
      injection heq with heq
      exact hh (congrArg Ticket.source heq).symm
  | fail h' own hactive =>
    by_cases hh : h = h'
    · subst hh
      simp only [State.setActive, Function.update_self, Option.some.injEq] at hcall
      subst hcall
      exact (hok h own hactive).fail
    · simp only [State.setActive, Function.update_of_ne hh] at hcall
      exact hok h call hcall
  | settle ticket rest hmem => exact hok h call hcall
  | ret h' own hactive hsettled hrest =>
    by_cases hh : h = h'
    · subst hh
      simp [State.record, State.setActive] at hcall
    · simp only [State.record, State.setActive, Function.update_of_ne hh] at hcall
      refine (hok h call hcall).cons (by simp) (by simp) ?_
      intro ok heq
      injection heq with hid
      exact hh (hinv.owner h h' call own hcall hactive hid.symm)

/-- When nothing of a call that did not fail is in flight, every target it has
visited executed its request. -/
theorem Inv.executed (hinv : Inv s) {h : H} {call : Call H D} (hactive : s.active h = some call)
    (hsettled : ∀ request ∈ s.inFlight, request.1.source ≠ h) (hok : call.ok = true) {t : H}
    (ht : t ∈ call.visited) : .executed (call.ticket h t) ∈ s.log := by
  have hcall := hinv.callOk h call hactive
  have hrequested := hcall.requested t
  rw [if_pos ht] at hrequested
  have hcancelled := List.count_eq_zero_of_not_mem (hcall.clean hok t)
  have hflight : s.inFlight.count (call.ticket h t, false) = 0 := by
    apply Multiset.count_eq_zero_of_notMem
    intro hmem
    exact hsettled _ hmem rfl
  have hbalance := hinv.balance (call.ticket h t)
  apply List.count_pos_iff.mp
  omega

theorem complete_step (hstep : s.Step s') (hinv : Inv s) : Complete s'.log := by
  have hcomplete := hinv.complete
  cases hstep with
  | stay | fail | settle => exact hcomplete
  | begin | request | execute | cancel => exact hcomplete.cons (by simp)
  | executeOwn => exact (hcomplete.cons (by simp)).cons (by simp)
  | ret h call hactive hsettled hrest =>
    intro newer older id heq
    rcases List.cons_eq_append_iff.mp heq with ⟨rfl, hhead⟩ | ⟨newer, rfl, hold⟩
    · simp only [List.cons.injEq, Event.returned.injEq] at hhead
      obtain ⟨⟨rfl, hok⟩, rfl⟩ := hhead
      obtain ⟨since, before, hlog, hbefore⟩ := (hinv.callOk h call hactive).began
      refine ⟨h, call.data, _, since, before, hlog, ?_⟩
      intro t ht
      rw [hrest hok.symm, List.append_nil] at ht
      have hmem := hinv.executed hactive hsettled hok.symm ht
      rw [hlog] at hmem
      rcases List.mem_append.mp hmem with hsince | hbegan
      · exact hsince
      · rcases List.mem_cons.mp hbegan with heq | hold
        · cases heq
        · exact (hbefore _ hold rfl).elim
    · exact hcomplete newer older id hold

/-- Every step that follows the rules keeps the invariant. -/
theorem Inv.step (hstep : s.Step s') (hinv : Inv s) : Inv s' where
  live := live_step hstep hinv
  fresh := fresh_step hstep hinv
  callOk := callOk_step hstep hinv
  owner := owner_step hstep hinv
  requested_le := requested_le_step hstep hinv
  inFlight_le := inFlight_le_step hstep hinv
  balance := balance_step hstep hinv
  complete := complete_step hstep hinv

theorem count_map_fst (requests : Multiset (Ticket H D × Bool)) (ticket : Ticket H D) :
    (requests.map Prod.fst).count ticket =
      requests.count (ticket, false) + requests.count (ticket, true) := by
  induction requests using Multiset.induction with
  | empty => simp
  | cons request requests ih =>
    obtain ⟨own, settled⟩ := request
    by_cases heq : ticket = own
    · subst heq
      cases settled <;> simp [ih] <;> omega
    · simp [ih, heq]

/-- No request is in flight twice. -/
theorem Inv.nodup_inFlight (hinv : Inv s) : (s.inFlight.map Prod.fst).Nodup := by
  rw [Multiset.nodup_iff_count_le_one]
  intro ticket
  rw [count_map_fst]
  exact (hinv.inFlight_le ticket).trans (hinv.requested_le ticket)

/-- No request of a call that has returned is in flight. -/
theorem Inv.settled_of_returned (hinv : Inv s) {call : Nat} {ok : Bool}
    (hreturned : .returned call ok ∈ s.log) : ∀ request ∈ s.inFlight, request.1.call ≠ call := by
  rintro request hmem rfl
  obtain ⟨own, hown, heq, -⟩ := hinv.live request hmem
  have hid : request.1.call = own.id := congrArg Ticket.call heq
  rw [hid] at hreturned
  exact (hinv.callOk _ own hown).not_returned ok hreturned

/-- A hart has at most as many requests in flight as its call has visited targets. -/
theorem Inv.countP_source_le (hinv : Inv s) {h : H} {call : Call H D}
    (hactive : s.active h = some call) :
    s.inFlight.countP (fun request => request.1.source = h) ≤ call.visited.length := by
  let own := (s.inFlight.filter fun request => request.1.source = h).map Prod.fst
  have hnodup : own.Nodup :=
    Multiset.nodup_of_le (Multiset.map_le_map (Multiset.filter_le _ _)) hinv.nodup_inFlight
  have hsubset : own ⊆ ↑(call.visited.map (call.ticket h)) := by
    intro ticket hmem
    obtain ⟨request, hrequest, rfl⟩ := Multiset.mem_map.mp hmem
    obtain ⟨hflight, hsource⟩ := Multiset.mem_filter.mp hrequest
    obtain ⟨call', hcall', heq, hvisited⟩ := hinv.live request hflight
    rw [hsource] at hcall' heq
    obtain rfl : call' = call := Option.some.inj (hcall'.symm.trans hactive)
    rw [heq]
    exact Multiset.mem_coe.mpr (List.mem_map_of_mem hvisited)
  calc s.inFlight.countP (fun request => request.1.source = h)
      = own.card := by rw [Multiset.countP_eq_card_filter, Multiset.card_map]
    _ ≤ Multiset.card (↑(call.visited.map (call.ticket h)) : Multiset (Ticket H D)) :=
        Multiset.card_le_card ((Multiset.le_iff_subset hnodup).mpr hsubset)
    _ = call.visited.length := by simp

end Inv

end Ledger
