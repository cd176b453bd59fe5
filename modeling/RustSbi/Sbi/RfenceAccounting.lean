import RustSbi.Sbi.Rfence

/-!
Completion and accounting of remote fences. Every request in flight is at one
place: counted but not pushed, in a queue, popped by a handler, or removed by a
cancellation. The machine with its places forgotten follows the rules of the
ledger, so the invariant of the ledger holds in every reachable state, and the
wait count of a hart is the number of its requests in flight.
-/

namespace RustSbi.Rfence

open Ipi Ledger Transition

/-! ## Requests in flight -/

/-- A request in flight and whether it only waits for its acknowledgement. -/
abbrev Request := Ticket Nat RFenceContext × Bool

/-- The call that a hart is in. -/
def Pc.call? : Pc → Option Call
  | idle => none
  | drain => none
  | next call => some call
  | push call _ => some call
  | mark call _ => some call
  | send call _ => some call
  | cancel call _ => some call
  | uncount call _ _ => some call
  | wait call => some call

/-- The request that a caller has counted and not pushed, or has removed from
the queue and not discounted. -/
def Pc.inFlight (h : Nat) : Pc → Multiset Request
  | push call target => {((call.entry h).ticket target, false)}
  | uncount _ entry target => {(entry.ticket target, true)}
  | _ => 0

/-- The request that a handler has popped and not acknowledged. -/
def Handler.inFlight (h : Nat) : Handler → Multiset Request
  | execute entry => {(entry.ticket h, false)}
  | acknowledge entry => {(entry.ticket h, true)}
  | _ => 0

/-- The requests in a queue. -/
def RFenceCell.inFlight (h : Nat) (cell : RFenceCell) : Multiset Request :=
  ↑(cell.queue.map fun entry => (entry.ticket h, false))

/-- A sum over the harts of the machine. -/
def overHarts {α : Type} (n : Nat) (f : Nat → α → Multiset Request) (g : Nat → α) :
    Multiset Request :=
  ∑ h ∈ Finset.range n, f h (g h)

theorem overHarts_update {α : Type} {n h : Nat} (f : Nat → α → Multiset Request) (g : Nat → α)
    (hlt : h < n) (x : α) :
    overHarts n f (Function.update g h x) + f h (g h) = overHarts n f g + f h x := by
  have hmem : h ∈ Finset.range n := Finset.mem_range.mpr hlt
  have hrest : ∑ k ∈ (Finset.range n).erase h, f k (Function.update g h x k) =
      ∑ k ∈ (Finset.range n).erase h, f k (g k) := by
    apply Finset.sum_congr rfl
    intro k hk
    rw [Function.update_of_ne (Finset.ne_of_mem_erase hk)]
  rw [overHarts, overHarts, ← Finset.add_sum_erase _ _ hmem, ← Finset.add_sum_erase _ _ hmem,
    hrest, Function.update_self]
  abel

/-- An update that keeps the requests of the hart keeps those of all. -/
theorem overHarts_update_same {α : Type} {n h : Nat} {f : Nat → α → Multiset Request} {g : Nat → α}
    {x : α} (hsame : f h x = f h (g h)) :
    overHarts n f (Function.update g h x) = overHarts n f g := by
  apply Finset.sum_congr rfl
  intro k _
  by_cases hk : k = h
  · subst hk
    rw [Function.update_self, hsame]
  · rw [Function.update_of_ne hk]

/-- The requests in flight of the whole machine. -/
def System.inFlight (n : Nat) (s : System) : Multiset Request :=
  overHarts n Pc.inFlight s.pc +
    overHarts n (fun h hartLocal => hartLocal.rfence.inFlight h) s.hartLocal +
    overHarts n Handler.inFlight s.handler

/-- The call in the terms of the ledger. -/
def Call.toLedger (call : Call) : Ledger.Call Nat RFenceContext :=
  ⟨call.id, call.ctx, call.visited, call.rest, decide (call.result = .success 0)⟩

/-- The calls under way. -/
def System.active (s : System) (h : Nat) : Option (Ledger.Call Nat RFenceContext) :=
  (s.pc h).call?.map Call.toLedger

/-- The machine with the places of its requests forgotten. -/
def System.ledger (n : Nat) (s : System) : Ledger.State Nat RFenceContext :=
  ⟨s.active, s.inFlight n, s.calls, s.log⟩

theorem active_goto (s : System) (h : Nat) (pc : Pc) :
    (s.goto h pc).active = Function.update s.active h (pc.call?.map Call.toLedger) := by
  funext k
  by_cases hk : k = h
  · subst hk
    simp [System.active, System.goto]
  · simp [System.active, System.goto, hk]

theorem active_goto_same {s : System} {h : Nat} {pc : Pc} (hcall : pc.call? = (s.pc h).call?) :
    (s.goto h pc).active = s.active := by
  rw [active_goto, hcall]
  exact Function.update_eq_self h s.active

section Flight

variable {n h : Nat}

@[simp] theorem inFlight_record (s : System) (event : Event Nat RFenceContext) :
    (s.record event).inFlight n = s.inFlight n := rfl

theorem inFlight_goto (s : System) (hlt : h < n) (pc : Pc) :
    (s.goto h pc).inFlight n + (s.pc h).inFlight h = s.inFlight n + pc.inFlight h := by
  have hsum := overHarts_update Pc.inFlight s.pc hlt pc
  simp only [System.inFlight, System.goto]
  rw [add_right_comm, add_right_comm _ _ (Pc.inFlight h (s.pc h)), hsum]
  abel

theorem inFlight_goto_same {s : System} {pc : Pc} (hsame : pc.inFlight h = (s.pc h).inFlight h) :
    (s.goto h pc).inFlight n = s.inFlight n := by
  simp only [System.inFlight, System.goto, overHarts_update_same hsame]

theorem inFlight_setHandler (s : System) (hlt : h < n) (handler : Handler) :
    (s.setHandler h handler).inFlight n + (s.handler h).inFlight h =
      s.inFlight n + handler.inFlight h := by
  have hsum := overHarts_update Handler.inFlight s.handler hlt handler
  simp only [System.inFlight, System.setHandler]
  rw [add_assoc, hsum, ← add_assoc]

theorem inFlight_setHandler_same {s : System} {handler : Handler}
    (hsame : handler.inFlight h = (s.handler h).inFlight h) :
    (s.setHandler h handler).inFlight n = s.inFlight n := by
  simp only [System.inFlight, System.setHandler, overHarts_update_same hsame]

theorem inFlight_setCell (s : System) (hlt : h < n) (cell : RFenceCell) :
    (s.setCell h cell).inFlight n + (s.hartLocal h).rfence.inFlight h =
      s.inFlight n + cell.inFlight h := by
  have hsum := overHarts_update (fun h hartLocal => hartLocal.rfence.inFlight h) s.hartLocal hlt
    { s.hartLocal h with rfence := cell }
  simp only [System.inFlight, System.setCell, System.setLocal]
  rw [add_right_comm, add_assoc (overHarts n Pc.inFlight s.pc), hsum]
  abel

theorem inFlight_setLocal_same {s : System} {hartLocal : HartLocal}
    (hsame : hartLocal.rfence.queue = (s.hartLocal h).rfence.queue) :
    (s.setLocal h hartLocal).inFlight n = s.inFlight n := by
  simp only [System.inFlight, System.setLocal]
  rw [overHarts_update_same]
  simp only [RFenceCell.inFlight, hsame]

end Flight

/-! ## The invariant -/

/-- `wait_sync_count` of a hart. -/
def System.waitCount (s : System) (h : Nat) : Nat := (s.hartLocal h).rfence.waitSyncCount.toNat

/-- The number of requests of a hart. -/
def sentBy (h : Nat) (requests : Multiset Request) : Nat :=
  requests.countP fun request => request.1.source = h

theorem sentBy_cons (h : Nat) (request : Request) (requests : Multiset Request) :
    sentBy h (request ::ₘ requests) =
      sentBy h requests + if request.1.source = h then 1 else 0 :=
  Multiset.countP_cons _ _ _

/-- The call of a hart and its targets are within the hart tables. -/
def Call.Ok (n h : Nat) (call : Call) : Prop := h < n ∧ ∀ t ∈ call.visited ++ call.rest, t < n

/-- What the variables of a caller satisfy at each of its steps. -/
def Pc.Ok (n h : Nat) : Pc → Prop
  | idle => True
  | drain => True
  | next call => call.Ok n h ∧ call.result = .success 0
  | push call target => call.Ok n h ∧ call.result = .success 0 ∧ target < n
  | mark call target => call.Ok n h ∧ call.result = .success 0 ∧ target < n
  | send call target => call.Ok n h ∧ call.result = .success 0 ∧ target < n
  | cancel call target => call.Ok n h ∧ call.result = .success 0 ∧ target < n
  | uncount call entry _ => call.Ok n h ∧ call.result = .failed ∧ entry.source = h
  | wait call => call.Ok n h ∧ (call.result = .success 0 → call.rest = [])

/-- The machine follows the ledger and the wait counts agree with it. -/
structure Accounted (n : Nat) (s : System) : Prop where
  inv : Inv (s.ledger n)
  pcOk : ∀ h, (s.pc h).Ok n h
  wait : ∀ h < n, s.waitCount h = sentBy h (s.inFlight n)

theorem Pc.Ok.callOk {n h : Nat} {pc : Pc} (hok : pc.Ok n h) {call : Call}
    (hcall : pc.call? = some call) : call.Ok n h := by
  cases pc <;> simp_all [Pc.Ok, Pc.call?]

theorem accounted_init (n : Nat) : Accounted n System.init := by
  have hflight : System.init.inFlight n = 0 := by
    simp [System.inFlight, overHarts, System.init, Pc.inFlight, Handler.inFlight,
      RFenceCell.inFlight, HartLocal.new, RFenceCell.new]
  refine ⟨Inv.initial (fun _ => rfl) hflight rfl, fun _ => trivial, fun h _ => ?_⟩
  rw [hflight]
  rfl

section Steps

variable {n h : Nat} {s : System}

theorem pcOk_goto (hacc : Accounted n s) {pc : Pc} (hok : pc.Ok n h) (k : Nat) :
    ((s.goto h pc).pc k).Ok n k := by
  by_cases hk : k = h
  · subst hk
    simpa [System.goto] using hok
  · simpa [System.goto, hk] using hacc.pcOk k

/-- A step that moves no request and changes no wait count. -/
theorem Accounted.stay (hacc : Accounted n s) {s' : System} (hledger : s'.ledger n = s.ledger n)
    (hpc : ∀ k, (s'.pc k).Ok n k) (hwait : ∀ k, s'.waitCount k = s.waitCount k) :
    Accounted n s' := by
  have hflight : s'.inFlight n = s.inFlight n := congrArg State.inFlight hledger
  refine ⟨hledger ▸ hacc.inv, hpc, fun k hk => ?_⟩
  rw [hwait, hacc.wait k hk, hflight]

/-- A step that the ledger makes too, after which the wait counts are the
numbers of requests in flight. -/
theorem Accounted.advance (hacc : Accounted n s) {s' : System} {l : State Nat RFenceContext}
    (hstep : (s.ledger n).Step l) (hactive : s'.active = l.active)
    (hflight : s'.inFlight n = l.inFlight) (hcalls : s'.calls = l.calls) (hlog : s'.log = l.log)
    (hpc : ∀ k, (s'.pc k).Ok n k)
    (hwait : ∀ k < n, s'.waitCount k = sentBy k l.inFlight) :
    Accounted n s' := by
  have hledger : s'.ledger n = l := by rw [System.ledger, hactive, hflight, hcalls, hlog]
  refine ⟨hledger ▸ hacc.inv.step hstep, hpc, fun k hk => ?_⟩
  rw [hwait k hk, hflight]

@[simp] theorem waitCount_goto (pc : Pc) (k : Nat) : (s.goto h pc).waitCount k = s.waitCount k := rfl

@[simp] theorem waitCount_setHandler (handler : Handler) (k : Nat) :
    (s.setHandler h handler).waitCount k = s.waitCount k := rfl

@[simp] theorem waitCount_record (event : Event Nat RFenceContext) (k : Nat) :
    (s.record event).waitCount k = s.waitCount k := rfl

theorem waitCount_setLocal (hartLocal : HartLocal) (k : Nat) :
    (s.setLocal h hartLocal).waitCount k =
      if k = h then hartLocal.rfence.waitSyncCount.toNat else s.waitCount k := by
  by_cases hk : k = h
  · simp [System.waitCount, System.setLocal, hk]
  · simp [System.waitCount, System.setLocal, hk]

theorem waitCount_setLocal_same {hartLocal : HartLocal}
    (hsame : hartLocal.rfence.waitSyncCount = (s.hartLocal h).rfence.waitSyncCount) (k : Nat) :
    (s.setLocal h hartLocal).waitCount k = s.waitCount k := by
  rw [waitCount_setLocal]
  split
  · rename_i hk
    rw [hsame, hk, System.waitCount]
  · rfl

theorem waitCount_setCell_sub (h k : Nat) :
    (s.setCell h (s.hartLocal h).rfence.sub).waitCount k =
      if k = h then (s.hartLocal k).rfence.sub.waitSyncCount.toNat else s.waitCount k := by
  rw [System.setCell, waitCount_setLocal]
  split
  · rename_i hk
    rw [hk]
  · rfl

theorem Accounted.setHandler (hacc : Accounted n s) {handler : Handler}
    (hsame : handler.inFlight h = (s.handler h).inFlight h) :
    Accounted n (s.setHandler h handler) := by
  refine hacc.stay ?_ hacc.pcOk (fun _ => rfl)
  rw [System.ledger, inFlight_setHandler_same hsame]
  rfl

theorem Accounted.goto (hacc : Accounted n s) {pc : Pc} (hcall : pc.call? = (s.pc h).call?)
    (hsame : pc.inFlight h = (s.pc h).inFlight h) (hok : pc.Ok n h) :
    Accounted n (s.goto h pc) := by
  refine hacc.stay ?_ (pcOk_goto hacc hok) (fun _ => rfl)
  rw [System.ledger, inFlight_goto_same hsame, active_goto_same hcall]
  rfl

theorem Accounted.setLocal (hacc : Accounted n s) (h : Nat) (hartLocal : HartLocal)
    (hcell : hartLocal.rfence = (s.hartLocal h).rfence) :
    Accounted n (s.setLocal h hartLocal) := by
  refine hacc.stay ?_ hacc.pcOk (waitCount_setLocal_same (by rw [hcell]))
  rw [System.ledger, inFlight_setLocal_same (by rw [hcell])]
  rfl

theorem Accounted.issue (hacc : Accounted n s) (platform : Platform) (h : Nat) (ctx : RFenceContext) :
    Accounted n (s.issue platform h ctx) :=
  hacc.setLocal h _ rfl

theorem Accounted.setIpiType (hacc : Accounted n s) (h : Nat) (eventId : BitVec 8) :
    Accounted n (s.setIpiType h eventId) :=
  hacc.setLocal h _ rfl

/-- `try_push` moves the request from the caller to the queue. -/
theorem Accounted.push (hacc : Accounted n s) (hlt : h < n) {call : Call} {target : Nat}
    (hpc : s.pc h = .push call target) {cell : RFenceCell}
    (hpush : (s.hartLocal target).rfence.tryPush (call.entry h) = some cell) :
    Accounted n ((s.setCell target cell).goto h (.mark call target)) := by
  have hok := hacc.pcOk h
  rw [hpc] at hok
  have htarget : target < n := hok.2.2
  obtain ⟨hqueue, hwait⟩ : cell.queue = (s.hartLocal target).rfence.queue ++ [call.entry h] ∧
      cell.waitSyncCount = (s.hartLocal target).rfence.waitSyncCount := by
    unfold RFenceCell.tryPush at hpush
    split at hpush
    · cases hpush
    · cases hpush
      exact ⟨rfl, rfl⟩
  have hflight : ((s.setCell target cell).goto h (.mark call target)).inFlight n = s.inFlight n := by
    have hgoto := inFlight_goto (s.setCell target cell) hlt (.mark call target)
    have hcell := inFlight_setCell s htarget cell
    have hmoved : cell.inFlight target = (s.hartLocal target).rfence.inFlight target +
        (s.pc h).inFlight h := by
      rw [RFenceCell.inFlight, hqueue, List.map_append, ← Multiset.coe_add, hpc]
      rfl
    rw [hmoved, ← add_assoc, add_right_comm] at hcell
    have hnone : (Pc.mark call target).inFlight h = 0 := rfl
    rw [hnone, add_zero] at hgoto
    apply add_right_cancel (b := (s.pc h).inFlight h)
    exact hgoto.trans (add_right_cancel hcell)
  refine hacc.stay ?_ (pcOk_goto hacc hok) ?_
  · rw [System.ledger, hflight, active_goto_same (by simp [System.setCell, System.setLocal, hpc, Pc.call?])]
    rfl
  · intro k
    rw [waitCount_goto]
    exact waitCount_setLocal_same hwait k

/-- `get` moves the request from the queue to the handler. -/
theorem Accounted.pop (hacc : Accounted n s) (hlt : h < n) (hhandler : s.handler h = .get)
    {entry : Entry} {cell : RFenceCell} (hget : (s.hartLocal h).rfence.get = some (entry, cell)) :
    Accounted n ((s.setCell h cell).setHandler h (.execute entry)) := by
  obtain ⟨hqueue, hwait⟩ : (s.hartLocal h).rfence.queue = entry :: cell.queue ∧
      cell.waitSyncCount = (s.hartLocal h).rfence.waitSyncCount := by
    unfold RFenceCell.get at hget
    split at hget
    · cases hget
    · rename_i hqueue
      cases hget
      exact ⟨hqueue, rfl⟩
  have hflight : ((s.setCell h cell).setHandler h (.execute entry)).inFlight n = s.inFlight n := by
    have hset := inFlight_setHandler (s.setCell h cell) hlt (.execute entry)
    have hcell := inFlight_setCell s hlt cell
    have hmoved : (s.hartLocal h).rfence.inFlight h =
        (Handler.execute entry).inFlight h + cell.inFlight h := by
      simp [RFenceCell.inFlight, hqueue, Handler.inFlight]
    have hold : (((s.setCell h cell).handler h).inFlight h) = 0 := by
      change (s.handler h).inFlight h = 0
      rw [hhandler]
      rfl
    rw [hold, add_zero] at hset
    rw [hmoved, ← add_assoc] at hcell
    rw [hset]
    exact add_right_cancel hcell
  refine hacc.stay ?_ hacc.pcOk ?_
  · rw [System.ledger, hflight]
    rfl
  · intro k
    rw [waitCount_setHandler]
    exact waitCount_setLocal_same hwait k

/-- The requests in flight beside the one that a handler holds. -/
theorem inFlight_eq_cons_of_handler (hlt : h < n) {request : Request}
    (hold : (s.handler h).inFlight h = {request}) :
    s.inFlight n = request ::ₘ (s.setHandler h .none).inFlight n := by
  have hset := inFlight_setHandler s hlt .none
  rw [hold] at hset
  rw [← Multiset.singleton_add, add_comm]
  exact (hset.trans (add_zero _)).symm

theorem inFlight_setHandler_cons (hlt : h < n) {handler : Handler} {request : Request}
    (hnew : handler.inFlight h = {request}) :
    (s.setHandler h handler).inFlight n = request ::ₘ (s.setHandler h .none).inFlight n := by
  have hcons := inFlight_eq_cons_of_handler (s := s.setHandler h handler) hlt
    (by simpa [System.setHandler] using hnew)
  rw [hcons]
  simp [System.setHandler]

/-- A request in flight is one of a call within the hart tables. -/
theorem Accounted.source_lt (hacc : Accounted n s) {request : Request}
    (hmem : request ∈ s.inFlight n) : request.1.source < n := by
  obtain ⟨call, hcall, -⟩ := hacc.inv.live request hmem
  obtain ⟨own, hown, -⟩ := Option.map_eq_some_iff.mp hcall
  exact ((hacc.pcOk _).callOk hown).1

/-- The handler executes the request that it holds. -/
theorem Accounted.execute (hacc : Accounted n s) (hlt : h < n) {entry : Entry}
    (hhandler : s.handler h = .execute entry) :
    Accounted n ((s.record (.executed (entry.ticket h))).setHandler h (.acknowledge entry)) := by
  have hold : s.inFlight n = (entry.ticket h, false) ::ₘ (s.setHandler h .none).inFlight n :=
    inFlight_eq_cons_of_handler hlt (by rw [hhandler]; rfl)
  have hnew : ((s.record (.executed (entry.ticket h))).setHandler h (.acknowledge entry)).inFlight n =
      (entry.ticket h, true) ::ₘ (s.setHandler h .none).inFlight n :=
    inFlight_setHandler_cons hlt rfl
  refine hacc.advance (.execute (s.ledger n) (entry.ticket h) _ hold) rfl hnew rfl rfl hacc.pcOk ?_
  intro k hk
  have hwait := hacc.wait k hk
  rw [hold, sentBy_cons] at hwait
  rw [sentBy_cons]
  exact hwait

/-- Discounting a settled request, together with the wait count of its source. -/
theorem Accounted.settle (hacc : Accounted n s) {s' : System}
    (ticket : Ticket Nat RFenceContext)
    (hflight : s.inFlight n = (ticket, true) ::ₘ s'.inFlight n) (hactive : s'.active = s.active)
    (hcalls : s'.calls = s.calls) (hlog : s'.log = s.log) (hpc : ∀ k, (s'.pc k).Ok n k)
    (hwait : ∀ k, s'.waitCount k =
      if k = ticket.source then (s.hartLocal k).rfence.sub.waitSyncCount.toNat else s.waitCount k) :
    Accounted n s' := by
  refine hacc.advance (.settle (s.ledger n) ticket _ hflight) hactive rfl hcalls hlog hpc ?_
  intro k hk
  have hold := hacc.wait k hk
  rw [hflight, sentBy_cons] at hold
  rw [hwait k]
  by_cases hsource : k = ticket.source
  · subst hsource
    simp only [if_true] at hold ⊢
    rw [System.waitCount] at hold
    simp only [RFenceCell.sub]
    bv_omega
  · rw [if_neg hsource, hold, if_neg (Ne.symm hsource), add_zero]

/-- A handler acknowledges the request that it has executed. -/
theorem Accounted.acknowledge (hacc : Accounted n s) (hlt : h < n) {entry : Entry}
    (hhandler : s.handler h = .acknowledge entry) :
    Accounted n ((s.setCell entry.source (s.hartLocal entry.source).rfence.sub).setHandler h .none) := by
  have hflight : s.inFlight n = (entry.ticket h, true) ::ₘ (s.setHandler h .none).inFlight n :=
    inFlight_eq_cons_of_handler hlt (by rw [hhandler]; rfl)
  have hcell : ((s.setCell entry.source (s.hartLocal entry.source).rfence.sub).setHandler h
      .none).inFlight n = (s.setHandler h .none).inFlight n :=
    inFlight_setLocal_same (s := s.setHandler h .none) rfl
  refine hacc.settle _ (hcell ▸ hflight) rfl rfl rfl hacc.pcOk ?_
  exact waitCount_setCell_sub entry.source

/-- The caller discounts the request that it has cancelled. -/
theorem Accounted.uncount (hacc : Accounted n s) (hlt : h < n) {call : Call} {entry : Entry}
    {target : Nat} (hpc : s.pc h = .uncount call entry target) :
    Accounted n ((s.setCell h (s.hartLocal h).rfence.sub).goto h (.wait call)) := by
  have hok := hacc.pcOk h
  rw [hpc] at hok
  have hgoto := inFlight_goto (s.setCell h (s.hartLocal h).rfence.sub) hlt (.wait call)
  have hsame : (s.setCell h (s.hartLocal h).rfence.sub).inFlight n = s.inFlight n :=
    inFlight_setLocal_same rfl
  have hold : ((s.setCell h (s.hartLocal h).rfence.sub).pc h).inFlight h =
      {(entry.ticket target, true)} := by
    change (s.pc h).inFlight h = _
    rw [hpc]
    rfl
  rw [hold, hsame] at hgoto
  refine hacc.settle (entry.ticket target) ?_ ?_ rfl rfl (pcOk_goto hacc ⟨hok.1, ?_⟩) ?_
  · rw [← Multiset.singleton_add, add_comm]
    exact (hgoto.trans (add_zero _)).symm
  · rw [active_goto_same (by simp [System.setCell, System.setLocal, hpc, Pc.call?])]
    rfl
  · intro hresult
    rw [hok.2.1] at hresult
    cases hresult
  · intro k
    have hsource : (entry.ticket target).source = h := hok.2.2
    rw [waitCount_goto, waitCount_setCell_sub, hsource]

/-- A call selects its targets. -/
theorem Accounted.begin (hacc : Accounted n s) (hlt : h < n) (hpc : s.pc h = .idle)
    (ctx : RFenceContext) {ids : List Nat} (hnodup : ids.Nodup) (hids : ∀ t ∈ ids, t < n) :
    Accounted n (s.begin h ctx ids) := by
  let call : Call := ⟨s.calls, ctx, [], ids, .success 0⟩
  have hsame : (Pc.next call).inFlight h = (s.pc h).inFlight h := by rw [hpc]; rfl
  have hflight : (s.begin h ctx ids).inFlight n = s.inFlight n := inFlight_goto_same hsame
  have hactive : (s.begin h ctx ids).active = Function.update s.active h (some call.toLedger) :=
    active_goto s h (.next call)
  have hidle : s.active h = none := by rw [System.active, hpc]; rfl
  exact hacc.advance (.begin (s.ledger n) h ctx ids hidle hnodup) hactive hflight rfl rfl
    (pcOk_goto hacc ⟨⟨hlt, hids⟩, rfl⟩) hacc.wait

/-- A caller executes its own request. -/
theorem Accounted.executeOwn (hacc : Accounted n s) {call : Call} (hpc : s.pc h = .next call)
    {rest : List Nat} (hrest : call.rest = h :: rest) :
    Accounted n (((s.record (.requested ((call.entry h).ticket h))).record
      (.executed ((call.entry h).ticket h))).goto h
        (.next { call with visited := call.visited ++ [h], rest := rest })) := by
  have hok := hacc.pcOk h
  rw [hpc] at hok
  have hactive : s.active h = some call.toLedger := by rw [System.active, hpc]; rfl
  have hids := hok.1.2
  rw [hrest] at hids
  refine hacc.advance (.executeOwn (s.ledger n) h call.toLedger rest hactive hrest)
    (active_goto _ h _) ?_ rfl rfl (pcOk_goto hacc ⟨⟨hok.1.1, by simpa using hids⟩, hok.2⟩) hacc.wait
  exact inFlight_goto_same (s := (s.record _).record _) (by
    change _ = (s.pc h).inFlight h
    rw [hpc]
    rfl)

/-- A caller that counts one more request has fewer than `n` in flight. -/
theorem Accounted.sentBy_lt (hacc : Accounted n s) {call : Call} (hpc : s.pc h = .next call)
    {target : Nat} {rest : List Nat} (hrest : call.rest = target :: rest) :
    sentBy h (s.inFlight n) < n := by
  have hok := hacc.pcOk h
  rw [hpc] at hok
  have hactive : s.active h = some call.toLedger := by rw [System.active, hpc]; rfl
  have hnodup : (call.visited ++ call.rest).Nodup := (hacc.inv.callOk h _ hactive).nodup
  have hsubset : call.visited ++ call.rest ⊆ List.range n :=
    fun t ht => List.mem_range.mpr (hok.1.2 t ht)
  have hlength := (hnodup.subperm hsubset).length_le
  rw [hrest, List.length_append, List.length_cons, List.length_range] at hlength
  have hcount : sentBy h (s.inFlight n) ≤ call.visited.length :=
    hacc.inv.countP_source_le hactive
  omega

/-- A caller counts a request. -/
theorem Accounted.request (hacc : Accounted n s) (hmax : n < 2 ^ 32) {call : Call}
    (hpc : s.pc h = .next call) {target : Nat} {rest : List Nat}
    (hrest : call.rest = target :: rest) :
    Accounted n (((s.setCell h (s.hartLocal h).rfence.add).record
      (.requested ((call.entry h).ticket target))).goto h
        (.push { call with visited := call.visited ++ [target], rest := rest } target)) := by
  have hok := hacc.pcOk h
  rw [hpc] at hok
  have hlt : h < n := hok.1.1
  have hids := hok.1.2
  have hactive : s.active h = some call.toLedger := by rw [System.active, hpc]; rfl
  let s₁ := (s.setCell h (s.hartLocal h).rfence.add).record (.requested ((call.entry h).ticket target))
  let pc := Pc.push { call with visited := call.visited ++ [target], rest := rest } target
  have hsame : s₁.inFlight n = s.inFlight n := by
    rw [inFlight_record]
    exact inFlight_setLocal_same rfl
  have hflight : (s₁.goto h pc).inFlight n =
      ((call.entry h).ticket target, false) ::ₘ s.inFlight n := by
    have hgoto := inFlight_goto s₁ hlt pc
    have hold : (s₁.pc h).inFlight h = 0 := by
      change (s.pc h).inFlight h = 0
      rw [hpc]
      rfl
    rw [hold, add_zero, hsame] at hgoto
    rw [hgoto, ← Multiset.singleton_add, add_comm]
    rfl
  rw [hrest] at hids
  refine hacc.advance (.request (s.ledger n) h target call.toLedger rest hactive hrest)
    (active_goto _ h _) hflight rfl rfl
    (pcOk_goto hacc ⟨⟨hlt, by simpa using hids⟩, hok.2, hids target (by simp)⟩) ?_
  intro k hk
  have hwait := hacc.wait k hk
  rw [sentBy_cons, waitCount_goto, waitCount_record, System.setCell, waitCount_setLocal]
  change _ = sentBy k (s.inFlight n) + if h = k then 1 else 0
  by_cases hsource : k = h
  · subst hsource
    have hbound := hacc.sentBy_lt hpc hrest
    rw [System.waitCount] at hwait
    simp only [if_true, RFenceCell.add]
    bv_omega
  · rw [if_neg hsource, if_neg (Ne.symm hsource), hwait, add_zero]

theorem cancel_spec {cell cell' : RFenceCell} {source : Nat} {entry : Entry}
    (h : cell.cancel source = some (entry, cell')) :
    ∃ before after, cell.queue = before ++ entry :: after ∧ cell'.queue = before ++ after ∧
      entry.source = source ∧ cell'.waitSyncCount = cell.waitSyncCount := by
  unfold RFenceCell.cancel at h
  split at h
  · cases h
  · rename_i index hindex
    obtain ⟨found, hfound, heq⟩ := Option.map_eq_some_iff.mp h
    obtain ⟨hlt, hsource, -⟩ := List.findIdx?_eq_some_iff_getElem.mp hindex
    rw [List.getElem?_eq_getElem hlt, Option.some.injEq] at hfound
    cases heq
    refine ⟨cell.queue.take index, cell.queue.drop (index + 1), ?_, ?_, ?_, rfl⟩
    · rw [← hfound, ← List.drop_eq_getElem_cons hlt, List.take_append_drop]
    · exact List.eraseIdx_eq_take_drop_succ _ _
    · rw [← hfound]
      simpa using hsource

/-- The caller takes its request back from the queue. -/
theorem Accounted.cancel (hacc : Accounted n s) (hlt : h < n) {call : Call} {target : Nat}
    (hpc : s.pc h = .cancel call target) {entry : Entry} {cell : RFenceCell}
    (hcancel : (s.hartLocal target).rfence.cancel h = some (entry, cell)) :
    Accounted n (((s.setCell target cell).record (.cancelled (entry.ticket target))).goto h
      (.uncount { call with result := .failed } entry target)) := by
  have hok := hacc.pcOk h
  rw [hpc] at hok
  have htarget : target < n := hok.2.2
  obtain ⟨before, after, hqueue, hqueue', hsource, hwait⟩ := cancel_spec hcancel
  have hactive : s.active (entry.ticket target).source = some call.toLedger := by
    change s.active entry.source = _
    rw [hsource, System.active, hpc]
    rfl
  have hcell := inFlight_setCell s htarget cell
  have hmoved : (s.hartLocal target).rfence.inFlight target =
      {(entry.ticket target, false)} + cell.inFlight target := by
    rw [RFenceCell.inFlight, RFenceCell.inFlight, hqueue, hqueue']
    simp
  rw [hmoved, ← add_assoc] at hcell
  have hold : s.inFlight n = (entry.ticket target, false) ::ₘ (s.setCell target cell).inFlight n := by
    rw [← Multiset.singleton_add, add_comm]
    exact (add_right_cancel hcell).symm
  let pc := Pc.uncount { call with result := .failed } entry target
  have hnew : (((s.setCell target cell).record (.cancelled (entry.ticket target))).goto h pc).inFlight n =
      (entry.ticket target, true) ::ₘ (s.setCell target cell).inFlight n := by
    have hgoto := inFlight_goto ((s.setCell target cell).record (.cancelled (entry.ticket target)))
      hlt pc
    have hnone : (((s.setCell target cell).record (.cancelled (entry.ticket target))).pc h).inFlight h
        = 0 := by
      change (s.pc h).inFlight h = 0
      rw [hpc]
      rfl
    rw [hnone, add_zero, inFlight_record] at hgoto
    rw [hgoto, ← Multiset.singleton_add, add_comm]
    rfl
  have hgoto : (((s.setCell target cell).record (.cancelled (entry.ticket target))).goto h pc).active =
      Function.update s.active (entry.ticket target).source
        (some { call.toLedger with ok := false }) := by
    rw [active_goto]
    change Function.update s.active h _ = Function.update s.active entry.source _
    rw [hsource]
    rfl
  refine hacc.advance (.cancel (s.ledger n) (entry.ticket target) call.toLedger _ hactive hold)
    hgoto hnew rfl rfl (pcOk_goto hacc ⟨hok.1, rfl, hsource⟩) ?_
  intro k hk
  have hk' := hacc.wait k hk
  rw [hold, sentBy_cons] at hk'
  rw [sentBy_cons, waitCount_goto, waitCount_record, System.setCell, waitCount_setLocal_same hwait]
  exact hk'

/-- The target has taken the request; the call fails and waits for it. -/
theorem Accounted.fail (hacc : Accounted n s) {call : Call} {target : Nat}
    (hpc : s.pc h = .cancel call target) :
    Accounted n (s.goto h (.wait { call with result := .failed })) := by
  have hok := hacc.pcOk h
  rw [hpc] at hok
  have hactive : s.active h = some call.toLedger := by rw [System.active, hpc]; rfl
  exact hacc.advance (.fail (s.ledger n) h call.toLedger hactive) (active_goto s h _)
    (inFlight_goto_same (by rw [hpc]; rfl)) rfl rfl
    (pcOk_goto hacc ⟨hok.1, fun hresult => by cases hresult⟩) hacc.wait

/-- A caller that has nothing to wait for has no request in flight. -/
theorem Accounted.settled_of_isSync (hacc : Accounted n s) {call : Call} (hpc : s.pc h = .wait call)
    (hsync : (s.hartLocal h).rfence.isSync = true) :
    ∀ request ∈ s.inFlight n, request.1.source ≠ h := by
  have hok := hacc.pcOk h
  rw [hpc] at hok
  have hzero : sentBy h (s.inFlight n) = 0 := by
    rw [← hacc.wait h hok.1.1, System.waitCount, eq_of_beq hsync]
    rfl
  intro request hmem
  exact Multiset.countP_eq_zero.mp hzero request hmem

/-- A call returns. -/
theorem Accounted.ret (hacc : Accounted n s) {call : Call} (hpc : s.pc h = .wait call)
    (hsync : (s.hartLocal h).rfence.isSync = true) :
    Accounted n ((s.record (.returned call.id (call.result = .success 0))).goto h .idle) := by
  have hok := hacc.pcOk h
  rw [hpc] at hok
  have hactive : s.active h = some call.toLedger := by rw [System.active, hpc]; rfl
  have hsettled := hacc.settled_of_isSync hpc hsync
  exact hacc.advance (.ret (s.ledger n) h call.toLedger hactive hsettled
    (fun hsuccess => hok.2 (of_decide_eq_true hsuccess))) (active_goto _ h _)
    (inFlight_goto_same (s := s.record _) (by
      change _ = (s.pc h).inFlight h
      rw [hpc]
      rfl)) rfl rfl (pcOk_goto hacc trivial) hacc.wait

end Steps

section Run

variable {platform : Platform} {h : Nat} {s s' : System}

theorem Accounted.handle (hacc : Accounted platform.harts.numHartMax s)
    (hlt : h < platform.harts.numHartMax) {handler : Handler} (hhandler : s.handler h = handler)
    (hstep : s.handle platform h handler = some s') : Accounted platform.harts.numHartMax s' := by
  cases handler with
  | none => cases hstep
  | poll =>
    simp only [System.handle] at hstep
    split at hstep
    · cases hstep
      exact hacc.setHandler (by rw [hhandler]; rfl)
    · cases hstep
      exact hacc.setHandler (by rw [hhandler]; rfl)
  | get =>
    simp only [System.handle] at hstep
    split at hstep
    · rename_i entry cell hget
      cases hstep
      exact hacc.pop hlt hhandler hget
    · cases hstep
      refine (hacc.setHandler (by rw [hhandler]; rfl)).goto ?_ ?_ ?_
      · change _ = (s.pc h).call?
        split
        · rename_i hdrain
          rw [hdrain]
          rfl
        · rfl
      · change _ = (s.pc h).inFlight h
        split
        · rename_i hdrain
          rw [hdrain]
          rfl
        · rfl
      · split
        · trivial
        · exact hacc.pcOk h
  | execute entry =>
    cases hstep
    exact (hacc.issue platform h entry.ctx).execute hlt hhandler
  | acknowledge entry =>
    cases hstep
    exact hacc.acknowledge hlt hhandler

theorem Accounted.proceed (hacc : Accounted platform.harts.numHartMax s)
    (hlt : h < platform.harts.numHartMax) (hhandler : s.handler h = .none)
    {choice : Choice platform.xlen} (hstep : s.proceed platform h (s.pc h) choice = some s') :
    Accounted platform.harts.numHartMax s' := by
  have hok := hacc.pcOk h
  generalize hpc : s.pc h = pc at hstep hok
  have hpoll : Accounted platform.harts.numHartMax (s.setHandler h .poll) :=
    hacc.setHandler (by rw [hhandler]; rfl)
  revert hstep
  fun_cases System.proceed platform s h pc choice
  case case1 | case21 =>
    rintro ⟨⟩
  case case2 =>
    rintro ⟨⟩
    exact hacc
  case case3 hartMask ctx receives ids htargets =>
    rintro ⟨⟩
    rcases targets_spec platform.harts receives hartMask with ⟨ret, heq⟩ | ⟨own, heq, hsorted, hids⟩
    · rw [heq] at htargets
      cases htargets
    · rw [heq] at htargets
      cases htargets
      exact hacc.begin hlt hpc ctx (hsorted.imp Nat.ne_of_lt) fun t ht => lt_of_available (hids t ht)
  case case4 =>
    rintro ⟨⟩
    have hlocal := fun ipiType supervisorSoft =>
      hacc.setLocal h { s.hartLocal h with ipiType, supervisorSoft } rfl
    refine (hlocal 0#8 _).goto ?_ ?_ ?_
    · change _ = (s.pc h).call?
      rw [hpc]
      split <;> rfl
    · change _ = (s.pc h).inFlight h
      rw [hpc]
      split <;> rfl
    · split <;> trivial
  case case5 target =>
    rintro ⟨⟩
    exact hacc.setIpiType target ipiTypeSsoft
  case case6 =>
    rintro ⟨⟩
    exact hacc.setHandler (by rw [hhandler]; rfl)
  case case7 call hrest =>
    rintro ⟨⟩
    exact hacc.goto (by rw [hpc]; rfl) (by rw [hpc]; rfl) ⟨hok.1, fun _ => hrest⟩
  case case8 call rest hrest visit ticket =>
    rintro ⟨⟩
    exact (hacc.issue platform h call.ctx).executeOwn hpc hrest
  case case9 call target rest hrest visit ticket hne =>
    rintro ⟨⟩
    exact hacc.request platform.harts.numHartMax_lt hpc hrest
  case case10 call target cell hpush =>
    rintro ⟨⟩
    exact hacc.push hlt hpc hpush
  case case11 | case12 | case20 =>
    rintro ⟨⟩
    exact hpoll
  case case13 call target =>
    rintro ⟨⟩
    have hcall : (Pc.send call target).call? = (s.pc h).call? := by rw [hpc]; rfl
    have hflight : (Pc.send call target).inFlight h = (s.pc h).inFlight h := by rw [hpc]; rfl
    exact (hacc.setIpiType target ipiTypeFence).goto hcall hflight hok
  case case14 call target =>
    rintro ⟨⟩
    exact hacc.goto (by rw [hpc]; rfl) (by rw [hpc]; rfl) ⟨hok.1, hok.2.1⟩
  case case15 call target =>
    rintro ⟨⟩
    exact hacc.goto (by rw [hpc]; rfl) (by rw [hpc]; rfl) hok
  case case16 call target entry cell hcancel =>
    rintro ⟨⟩
    exact hacc.cancel hlt hpc hcancel
  case case17 call target hcancel =>
    rintro ⟨⟩
    exact hacc.fail hpc
  case case18 call entry target =>
    rintro ⟨⟩
    exact hacc.uncount hlt hpc
  case case19 call hsync =>
    rintro ⟨⟩
    exact hacc.ret hpc hsync

/-- Every step of the machine keeps the accounts. -/
theorem Accounted.step (hacc : Accounted platform.harts.numHartMax s)
    {label : Nat × Choice platform.xlen} (hstep : s.Step platform label s') :
    Accounted platform.harts.numHartMax s' := by
  have hlt := hstep.1
  rcases step_cases hstep with ⟨hhandler, hproceed⟩ | hhandle
  · exact hacc.proceed hlt hhandler hproceed
  · exact hacc.handle hlt rfl hhandle

theorem accounted_of_reachable (hreach : Reachable (· = System.init) (System.Step platform) s) :
    Accounted platform.harts.numHartMax s :=
  hreach.invariant (fun _ hinit => hinit ▸ accounted_init _)
    (fun _ _ _ hacc hstep => hacc.step hstep)

/-! ## Issued fences -/

/-- The fences that the executions of a log issue at a hart. -/
def fencesOf (platform : Platform) (h : Nat) : List (Event Nat RFenceContext) → List FenceOp
  | [] => []
  | .executed ticket :: log =>
    fencesOf platform h log ++
      if ticket.target = h then rfenceLocalHandler platform ticket.data else []
  | _ :: log => fencesOf platform h log

/-- A hart has issued the fences of the executions in the log and no others. -/
def Issued (platform : Platform) (s : System) : Prop :=
  ∀ h, (s.hartLocal h).issued = fencesOf platform h s.log

theorem Issued.setLocal (hissued : Issued platform s) (h : Nat) (hartLocal : HartLocal)
    (hsame : hartLocal.issued = (s.hartLocal h).issued) :
    Issued platform (s.setLocal h hartLocal) := by
  intro k
  by_cases hk : k = h
  · subst hk
    simpa [System.setLocal, hsame] using hissued k
  · simpa [System.setLocal, hk] using hissued k

theorem Issued.execute (hissued : Issued platform s) (ticket : Ticket Nat RFenceContext) :
    Issued platform ((s.issue platform ticket.target ticket.data).record (.executed ticket)) := by
  intro k
  by_cases hk : k = ticket.target
  · subst hk
    simp [System.issue, System.setLocal, System.record, fencesOf, hissued ticket.target]
  · simp [System.issue, System.setLocal, System.record, fencesOf, hk, Ne.symm hk, hissued k]

theorem Issued.proceed (hissued : Issued platform s) {pc : Pc} {choice : Choice platform.xlen}
    (hstep : s.proceed platform h pc choice = some s') : Issued platform s' := by
  revert hstep
  fun_cases System.proceed platform s h pc choice
  case case1 | case21 => rintro ⟨⟩
  case case4 | case5 | case10 | case13 | case18 =>
    rintro ⟨⟩
    exact hissued.setLocal _ _ rfl
  case case8 call rest hrest visit ticket =>
    rintro ⟨⟩
    exact Issued.execute (s := s.record (.requested ticket)) hissued ticket
  case case9 call target rest hrest visit ticket hne =>
    rintro ⟨⟩
    exact Issued.setLocal (s := s.record (.requested ticket)) hissued h _ rfl
  case case16 call target entry cell hcancel =>
    rintro ⟨⟩
    exact Issued.setLocal (s := s.record (.cancelled (entry.ticket target))) hissued target _ rfl
  all_goals
    rintro ⟨⟩
    exact hissued

theorem Issued.handle (hissued : Issued platform s) {handler : Handler}
    (hstep : s.handle platform h handler = some s') : Issued platform s' := by
  revert hstep
  fun_cases System.handle platform s h handler
  case case1 => rintro ⟨⟩
  case case4 entry cell hget =>
    rintro ⟨⟩
    exact hissued.setLocal h _ rfl
  case case6 entry =>
    rintro ⟨⟩
    exact hissued.execute (entry.ticket h)
  case case7 entry =>
    rintro ⟨⟩
    exact hissued.setLocal entry.source _ rfl
  all_goals
    rintro ⟨⟩
    exact hissued

theorem Issued.step (hissued : Issued platform s) {label : Nat × Choice platform.xlen}
    (hstep : s.Step platform label s') : Issued platform s' := by
  rcases step_cases hstep with ⟨-, hproceed⟩ | hhandle
  · exact hissued.proceed hproceed
  · exact hissued.handle hhandle

theorem issued_of_reachable (hreach : Reachable (· = System.init) (System.Step platform) s) :
    Issued platform s :=
  hreach.invariant (fun _ hinit => hinit ▸ fun _ => rfl) (fun _ _ _ hissued hstep => hissued.step hstep)

/-! ## The places of the requests -/

/-- The caller has counted a request and not pushed it. -/
def Pc.unpushed : Pc → Nat
  | push _ _ => 1
  | _ => 0

/-- The caller has removed its request from the queue and not discounted it. -/
def Pc.removed : Pc → Nat
  | uncount _ _ _ => 1
  | _ => 0

/-- The handler has popped a request of `h` and not acknowledged it. -/
def Handler.holds (h : Nat) : Handler → Nat
  | execute entry => if entry.source = h then 1 else 0
  | acknowledge entry => if entry.source = h then 1 else 0
  | _ => 0

/-- The requests of `h` in the queues of all harts. -/
def System.queued (n : Nat) (s : System) (h : Nat) : Nat :=
  ∑ t ∈ Finset.range n, (s.hartLocal t).rfence.queue.countP fun entry => entry.source = h

/-- The requests of `h` that were taken from a queue, by a handler or by the
cancellation of `h`, and not yet acknowledged. -/
def System.unacknowledged (n : Nat) (s : System) (h : Nat) : Nat :=
  (∑ t ∈ Finset.range n, (s.handler t).holds h) + (s.pc h).removed

theorem sentBy_add (h : Nat) (l r : Multiset Request) : sentBy h (l + r) = sentBy h l + sentBy h r :=
  Multiset.countP_add _ _ _

theorem sentBy_overHarts {α : Type} (h n : Nat) (f : Nat → α → Multiset Request) (g : Nat → α) :
    sentBy h (overHarts n f g) = ∑ k ∈ Finset.range n, sentBy h (f k (g k)) := by
  unfold overHarts
  induction n with
  | zero => rfl
  | succ n ih => rw [Finset.sum_range_succ, Finset.sum_range_succ, sentBy_add, ih]

theorem sentBy_singleton (h : Nat) (request : Request) :
    sentBy h {request} = if request.1.source = h then 1 else 0 := by
  rw [← Multiset.cons_zero, sentBy_cons]
  exact Nat.zero_add _

theorem Pc.Ok.sentBy_inFlight {n k : Nat} {pc : Pc} (hok : pc.Ok n k) (h : Nat) :
    sentBy h (pc.inFlight k) = if k = h then pc.unpushed + pc.removed else 0 := by
  cases pc with
  | push call target => exact sentBy_singleton h _
  | uncount call entry target =>
    rw [Pc.inFlight, sentBy_singleton]
    change (if entry.source = h then 1 else 0) = _
    rw [hok.2.2]
    rfl
  | _ => simp [Pc.inFlight, Pc.unpushed, Pc.removed, sentBy]

theorem RFenceCell.sentBy_inFlight (cell : RFenceCell) (h k : Nat) :
    sentBy h (cell.inFlight k) = cell.queue.countP fun entry => entry.source = h := by
  rw [RFenceCell.inFlight, sentBy, Multiset.coe_countP, List.countP_map]
  rfl

theorem Handler.sentBy_inFlight (handler : Handler) (h k : Nat) :
    sentBy h (handler.inFlight k) = handler.holds h := by
  cases handler with
  | execute entry => exact sentBy_singleton h _
  | acknowledge entry => exact sentBy_singleton h _
  | _ => rfl

/-- The requests of a hart in flight, by place. -/
theorem Accounted.sentBy_eq {n : Nat} (hacc : Accounted n s) (hlt : h < n) :
    sentBy h (s.inFlight n) =
      (s.pc h).unpushed + s.queued n h + s.unacknowledged n h := by
  have hpc : ∑ k ∈ Finset.range n, sentBy h ((s.pc k).inFlight k) =
      (s.pc h).unpushed + (s.pc h).removed := by
    rw [Finset.sum_eq_single_of_mem h (Finset.mem_range.mpr hlt),
      (hacc.pcOk h).sentBy_inFlight, if_pos rfl]
    intro k _ hk
    rw [(hacc.pcOk k).sentBy_inFlight, if_neg hk]
  rw [System.inFlight, sentBy_add, sentBy_add, sentBy_overHarts, sentBy_overHarts,
    sentBy_overHarts, hpc]
  simp only [RFenceCell.sentBy_inFlight, Handler.sentBy_inFlight, System.queued,
    System.unacknowledged]
  omega

/-! ## Cancellation -/

theorem inFlight_queue_le {n target : Nat} (htarget : target < n) (s : System) :
    (s.hartLocal target).rfence.inFlight target ≤ s.inFlight n := by
  have hle : (s.hartLocal target).rfence.inFlight target ≤
      overHarts n (fun h hartLocal => hartLocal.rfence.inFlight h) s.hartLocal :=
    Finset.single_le_sum_of_canonicallyOrdered
      (f := fun k => (s.hartLocal k).rfence.inFlight k) (Finset.mem_range.mpr htarget)
  exact hle.trans ((Multiset.le_add_left _ _).trans (Multiset.le_add_right _ _))

/-- A request of a caller in a queue is the one of its present call. -/
theorem Accounted.entry_eq {n target : Nat} (hacc : Accounted n s) (htarget : target < n)
    {call : Call} (hcall : (s.pc h).call? = some call) {entry : Entry}
    (hmem : entry ∈ (s.hartLocal target).rfence.queue) (hsource : entry.source = h) :
    entry = call.entry h := by
  have hflight : (entry.ticket target, false) ∈ s.inFlight n := by
    apply Multiset.mem_of_le (inFlight_queue_le htarget s)
    exact Multiset.mem_coe.mpr (List.mem_map_of_mem hmem)
  obtain ⟨own, hown, heq, -⟩ := hacc.inv.live _ hflight
  have hactive : s.active h = some call.toLedger := by rw [System.active, hcall]; rfl
  change s.active entry.source = some own at hown
  rw [hsource, hactive, Option.some.injEq] at hown
  subst hown
  cases entry
  simp_all [Entry.ticket, Ledger.Call.ticket, Call.toLedger, Call.entry]

/-- A cancellation takes the request of the present call and no other entry. -/
theorem Accounted.cancel_exact {n : Nat} (hacc : Accounted n s) {call : Call} {target : Nat}
    (hpc : s.pc h = .cancel call target) {entry : Entry} {cell : RFenceCell}
    (hcancel : (s.hartLocal target).rfence.cancel h = some (entry, cell)) :
    entry = call.entry h ∧ (∀ other ∈ cell.queue, other.source ≠ h) ∧
      ∃ before after, (s.hartLocal target).rfence.queue = before ++ entry :: after ∧
        cell.queue = before ++ after := by
  have hok := hacc.pcOk h
  rw [hpc] at hok
  have hcall : (s.pc h).call? = some call := by rw [hpc]; rfl
  obtain ⟨before, after, hqueue, hqueue', hsource, -⟩ := cancel_spec hcancel
  have hentry := hacc.entry_eq hok.2.2 hcall (by rw [hqueue]; simp) hsource
  refine ⟨hentry, ?_, before, after, hqueue, hqueue'⟩
  intro other hother hsource'
  rw [hqueue'] at hother
  have hmem : other ∈ (s.hartLocal target).rfence.queue := by
    rw [hqueue]
    exact List.perm_middle.mem_iff.mpr (List.mem_cons_of_mem entry hother)
  have hsame : other = entry := (hacc.entry_eq hok.2.2 hcall hmem hsource').trans hentry.symm
  have hnodup : (((s.hartLocal target).rfence.inFlight target).map Prod.fst).Nodup :=
    Multiset.nodup_of_le (Multiset.map_le_map (inFlight_queue_le hok.2.2 s)) hacc.inv.nodup_inFlight
  rw [RFenceCell.inFlight, Multiset.map_coe, Multiset.coe_nodup, List.map_map, hqueue] at hnodup
  have hnodup := hnodup.of_map
  rw [List.nodup_middle, List.nodup_cons] at hnodup
  exact hnodup.1 (hsame ▸ hother)

/-! ## Guarantees -/

/-- What remote fences guarantee in a state. -/
structure Guarantees (platform : Platform) (s : System) : Prop where
  /-- Every target of a call that returned success executed the fence of the
  call after the call began. -/
  completed : ∀ newer older call, s.log = newer ++ .returned call true :: older →
    ∃ h ctx targets since before, older = since ++ .began call h ctx targets :: before ∧
      ∀ t ∈ targets, .executed ⟨call, h, t, ctx⟩ ∈ since
  /-- Executing a fence is issuing its instructions. -/
  issued : ∀ h, (s.hartLocal h).issued = fencesOf platform h s.log
  /-- The wait count is the number of requests that are counted and not
  pushed, queued, or taken from a queue and not acknowledged. -/
  waits : ∀ h < platform.harts.numHartMax, s.waitCount h = (s.pc h).unpushed +
    s.queued platform.harts.numHartMax h + s.unacknowledged platform.harts.numHartMax h
  /-- No acknowledgement finds the wait count at zero, -/
  acknowledged : ∀ h < platform.harts.numHartMax, ∀ entry, s.handler h = .acknowledge entry →
    0 < s.waitCount entry.source
  /-- and neither does the decrement after a cancellation. -/
  uncounted : ∀ h call entry target, s.pc h = .uncount call entry target → 0 < s.waitCount h
  /-- A request is made once, and it is executed, cancelled or still to be
  executed, but only one of these. -/
  once : ∀ ticket, s.log.count (.executed ticket) + s.log.count (.cancelled ticket) +
    (s.inFlight platform.harts.numHartMax).count (ticket, false) =
      s.log.count (.requested ticket) ∧ s.log.count (.requested ticket) ≤ 1
  /-- When its call has returned, it is executed or cancelled. -/
  settled : ∀ ticket ok, .returned ticket.call ok ∈ s.log → .requested ticket ∈ s.log →
    s.log.count (.executed ticket) + s.log.count (.cancelled ticket) = 1
  /-- A cancellation removes the request of the failed send and no other. -/
  cancelled : ∀ h call target entry cell, s.pc h = .cancel call target →
    (s.hartLocal target).rfence.cancel h = some (entry, cell) →
      entry = call.entry h ∧ (∀ other ∈ cell.queue, other.source ≠ h) ∧
        ∃ before after, (s.hartLocal target).rfence.queue = before ++ entry :: after ∧
          cell.queue = before ++ after

/-- Remote fences keep their guarantees in every interleaving of any number of
callers and targets, with any interrupts failing and any queues full or locked. -/
theorem remote_fence_guarantees
    (hreach : Reachable (· = System.init) (System.Step platform) s) : Guarantees platform s := by
  have hacc := accounted_of_reachable hreach
  have hpos : ∀ {request : Request}, request ∈ s.inFlight platform.harts.numHartMax →
      0 < s.waitCount request.1.source := by
    intro request hmem
    rw [hacc.wait _ (hacc.source_lt hmem)]
    exact Multiset.countP_pos.mpr ⟨request, hmem, rfl⟩
  refine ⟨hacc.inv.complete, issued_of_reachable hreach, ?_, ?_, ?_, ?_, ?_, ?_⟩
  · intro h hlt
    rw [hacc.wait h hlt, hacc.sentBy_eq hlt]
  · intro h hlt entry hhandler
    have hflight : s.inFlight platform.harts.numHartMax = (entry.ticket h, true) ::ₘ _ :=
      inFlight_eq_cons_of_handler hlt (by rw [hhandler]; rfl)
    exact hpos (hflight ▸ Multiset.mem_cons_self _ _)
  · intro h call entry target hpc
    have hok := hacc.pcOk h
    rw [hpc] at hok
    rw [hacc.wait h hok.1.1, hacc.sentBy_eq hok.1.1, System.unacknowledged, hpc]
    exact Nat.succ_pos _
  · intro ticket
    exact ⟨hacc.inv.balance ticket, hacc.inv.requested_le ticket⟩
  · intro ticket ok hreturned hrequested
    have hbalance := hacc.inv.balance ticket
    have hle : s.log.count (.requested ticket) ≤ 1 := hacc.inv.requested_le ticket
    have hflight : (s.ledger platform.harts.numHartMax).inFlight.count (ticket, false) = 0 := by
      apply Multiset.count_eq_zero_of_notMem
      intro hmem
      exact hacc.inv.settled_of_returned hreturned _ hmem rfl
    have hone : 0 < s.log.count (.requested ticket) := List.count_pos_iff.mpr hrequested
    rw [hflight, add_zero] at hbalance
    change s.log.count (.executed ticket) + s.log.count (.cancelled ticket) = _ at hbalance
    change _ = s.log.count (.requested ticket) at hbalance
    omega
  · intro h call target entry cell hpc hcancel
    exact hacc.cancel_exact hpc hcancel

end Run

/-- Two harts on RV32 with pages of 4 KiB. -/
def twoHarts : Platform := ⟨.rv32, ⟨2, [true, true], by decide⟩, 4096, 16384⟩

/-- Hart 0 fences itself and hart 1, and then fails to interrupt hart 1. -/
def fenceThenFail : List (Nat × Choice twoHarts.xlen) :=
  [(0, .fence ⟨3#32, 0⟩ ⟨0, 0, 0, 0, .fenceI⟩ fun _ => true), (0, .proceed), (0, .proceed),
    (0, .proceed), (0, .proceed), (0, .proceed), (1, .deliver), (1, .proceed), (1, .proceed),
    (1, .proceed), (1, .proceed), (0, .proceed), (0, .proceed),
    (0, .fence ⟨2#32, 0⟩ ⟨4096, 8192, 0, 0, .sfenceVma⟩ fun _ => true), (0, .proceed),
    (0, .proceed), (0, .proceed), (0, .fail), (0, .proceed), (0, .proceed), (0, .proceed)]

set_option maxRecDepth 8000 in
/-- The guarantees at the end of a run with a completed and a cancelled fence. -/
theorem remote_fence_two_harts : ∃ s, System.init.exec twoHarts fenceThenFail = some s ∧
    s.log.filter (fun event => event matches .returned _ _) =
      [.returned 1 false, .returned 0 true] ∧ Guarantees twoHarts s := by
  obtain ⟨s, hrun, hlog⟩ : ∃ s, System.init.exec twoHarts fenceThenFail = some s ∧
      s.log.filter (fun event => event matches .returned _ _) =
        [.returned 1 false, .returned 0 true] := ⟨_, rfl, rfl⟩
  exact ⟨s, hrun, hlog, remote_fence_guarantees ⟨_, _, rfl, run_of_exec hrun⟩⟩

end RustSbi.Rfence
