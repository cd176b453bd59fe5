import RustSbi.Lib.Transition
import RustSbi.Sbi.PmuSafety

/-!
What the firmware counters of the PMU count. A tally kept beside a run records what
its calls asked of one counter; where every configuration stores the event under the
encoding that the firmware looks for, a read of the counter returns the tally.
-/

namespace RustSbi.Pmu

open Bits Checked

variable {xlen : Xlen} {features : HartFeatures} {sbiPmu : SbiPmu} {hart : Hart xlen}

/-! ## The cells of the firmware counters -/

/-- What the PMU state keeps of one firmware counter. -/
@[ext] structure Cell where
  event : Option Nat
  started : Bool
  value : Option (BitVec 64)
  deriving DecidableEq

/-- The cell of firmware counter `k`, whose counter index follows the hardware counters. -/
def PmuState.cell (pmu : PmuState xlen) (k : Nat) : Cell :=
  ⟨pmu.activeEvent[pmu.hwCountersNum + k]?, pmu.fwCounterState.getLsbD k, pmu.fwCounter[k]?⟩

/-- The cells agree, except for counter `j`, which becomes `c`. -/
def SetsCell (pmu pmu' : PmuState xlen) (j : Nat) (c : Cell) : Prop :=
  ∀ k < firmwareCounterMax, pmu'.cell k = if k = j then c else pmu.cell k

/-- The cells agree. -/
def SameCells (pmu pmu' : PmuState xlen) : Prop :=
  ∀ k < firmwareCounterMax, pmu'.cell k = pmu.cell k

theorem SameCells.of_eq {pmu pmu' : PmuState xlen} (h : pmu' = pmu) : SameCells pmu pmu' := by
  intro k _
  rw [h]

theorem SameCells.trans {pmu pmu₁ pmu' : PmuState xlen} (h : SameCells pmu pmu₁)
    (h' : SameCells pmu₁ pmu') : SameCells pmu pmu' :=
  fun k hk => (h' k hk).trans (h k hk)

/-- The started flag of a cell under a test of the bitmap. -/
theorem started_iff {pmu : PmuState xlen} {k : Nat} (hk : k < firmwareCounterMax) :
    pmu.fwCounterState &&& 1#(xlen.bits) <<< k ≠ 0#(xlen.bits) ↔ (pmu.cell k).started = true := by
  have hbits := bits_ge xlen
  have hmax : firmwareCounterMax = 16 := rfl
  exact and_oneShift_ne_zero_iff (by omega)

/-- A state whose arrays and bitmap differ at counter `j` alone. -/
theorem SetsCell.of_fields {pmu pmu' : PmuState xlen} {j : Nat} {c : Cell}
    (hevent : ∀ k, pmu'.activeEvent[pmu'.hwCountersNum + k]? =
      if k = j then c.event else pmu.activeEvent[pmu.hwCountersNum + k]?)
    (hstarted : ∀ k < firmwareCounterMax, pmu'.fwCounterState.getLsbD k =
      if k = j then c.started else pmu.fwCounterState.getLsbD k)
    (hvalue : ∀ k, pmu'.fwCounter[k]? = if k = j then c.value else pmu.fwCounter[k]?) :
    SetsCell pmu pmu' j c := by
  intro k hk
  simp only [PmuState.cell, hevent, hstarted k hk, hvalue]
  by_cases hkj : k = j <;> simp [hkj]

section Fields

variable {α : Type} {n : Nat}

theorem getElem?_set_if {xs : Vector α n} {i : Nat} {a : α} (h : i < n) (k : Nat) :
    (xs.set i a h)[k]? = if k = i then some a else xs[k]? := by
  rw [Vector.getElem?_set]
  by_cases hki : k = i
  · simp [hki]
  · rw [if_neg (Ne.symm hki), if_neg hki]

theorem getElem?_set_add_if {xs : Vector α n} {m j : Nat} {a : α} (h : m + j < n) (k : Nat) :
    (xs.set (m + j) a h)[m + k]? = if k = j then some a else xs[m + k]? := by
  rw [getElem?_set_if]
  simp only [Nat.add_left_cancel_iff]

theorem self_eq_if {f : Nat → α} {j : Nat} (k : Nat) : f k = if k = j then f j else f k := by
  by_cases hkj : k = j <;> simp [hkj]

theorem getLsbD_or_if {state : BitVec xlen.bits} {j k : Nat} (hk : k < firmwareCounterMax) :
    (state ||| 1#(xlen.bits) <<< j).getLsbD k = if k = j then true else state.getLsbD k := by
  have hbits := bits_ge xlen
  have hmax : firmwareCounterMax = 16 := rfl
  rw [getLsbD_setBit state (by omega)]
  by_cases hkj : k = j <;> simp [hkj]

theorem getLsbD_clear_if {state : BitVec xlen.bits} {j : Nat} (k : Nat) :
    (state &&& ~~~(1#(xlen.bits) <<< j)).getLsbD k = if k = j then false else state.getLsbD k := by
  rw [getLsbD_clearBit]
  by_cases hkj : k = j <;> simp [hkj]

end Fields

/-! ## Starting and stopping one counter -/

/-- The cell after a start, with a new value if there is one. -/
def Cell.start (c : Cell) (isUpdate : Bool) (value : BitVec 64) : Cell :=
  { c with started := true, value := if isUpdate then some value else c.value }

/-- The cell after a stop, without its event if it is reset. -/
def Cell.stop (c : Cell) (xlen : Xlen) (isReset : Bool) : Cell :=
  { c with started := false, event := if isReset then some (eventIdxInvalid xlen) else c.event }

/-- A call on one counter fails and changes nothing, or takes the cell of a firmware
counter from `before` to `after`. -/
def ChangesCell {ε : Type} (features : HartFeatures) (pmu : PmuState xlen) (counterIdx : Nat)
    (before : Cell → Prop) (after : Cell → Cell) (result : Except ε PUnit.{1}) (hart' : Hart xlen) :
    Prop :=
  WellNumbered features hart'.pmu ∧
    (((∃ e, result = .error e) ∧ hart'.pmu = pmu) ∨
      (result = .ok ⟨⟩ ∧ ∃ j < firmwareCounterMax, counterIdx = pmu.hwCountersNum + j ∧
        before (pmu.cell j) ∧ SetsCell pmu hart'.pmu j (after (pmu.cell j))))

theorem ensures_startFwCounter (hpmu : WellNumbered features hart.pmu) (counterIdx : Nat)
    (value : BitVec 64) (isUpdate : Bool) :
    Ensures (startFwCounter counterIdx value isUpdate) hart
      (ChangesCell features hart.pmu counterIdx (·.started = false) (·.start isUpdate value)) := by
  have htotal := hpmu.total
  simp only [startFwCounter, setPmu, ensures_ite, ensures_bind, ensures_pure, ensures_get,
    ensures_checkedSub, ensures_shiftLeft, ensures_writeAt, ensures_modify]
  split
  · exact ⟨hpmu, Or.inl ⟨⟨_, rfl⟩, rfl⟩⟩
  next hrange =>
    intro hle hshift
    obtain ⟨j, rfl⟩ := Nat.exists_eq_add_of_le hle
    rw [Nat.add_sub_cancel_left] at hshift ⊢
    have hj : j < firmwareCounterMax := by omega
    split
    · exact ⟨hpmu, Or.inl ⟨⟨_, rfl⟩, rfl⟩⟩
    next hstopped =>
      rw [started_iff hj, Bool.not_eq_true] at hstopped
      cases isUpdate with
      | true =>
        intro hwrite
        refine ⟨⟨hpmu.hardware, hpmu.total⟩, Or.inr ⟨rfl, j, hj, rfl, hstopped, ?_⟩⟩
        exact .of_fields self_eq_if (fun k hk => getLsbD_or_if hk) (getElem?_set_if hwrite)
      | false =>
        refine ⟨⟨hpmu.hardware, hpmu.total⟩, Or.inr ⟨rfl, j, hj, rfl, hstopped, ?_⟩⟩
        exact .of_fields self_eq_if (fun k hk => getLsbD_or_if hk) self_eq_if

theorem ensures_stopFwCounter (hpmu : WellNumbered features hart.pmu) (counterIdx : Nat)
    (isReset : Bool) :
    Ensures (stopFwCounter counterIdx isReset) hart
      (ChangesCell features hart.pmu counterIdx (·.started = true) (·.stop xlen isReset)) := by
  have htotal := hpmu.total
  simp only [stopFwCounter, setPmu, ensures_ite, ensures_bind, ensures_pure, ensures_get,
    ensures_checkedSub, ensures_shiftLeft, ensures_writeAt, ensures_modify]
  split
  · exact ⟨hpmu, Or.inl ⟨⟨_, rfl⟩, rfl⟩⟩
  next hrange =>
    intro hle hshift
    obtain ⟨j, rfl⟩ := Nat.exists_eq_add_of_le hle
    rw [Nat.add_sub_cancel_left] at hshift ⊢
    have hj : j < firmwareCounterMax := by omega
    split
    · exact ⟨hpmu, Or.inl ⟨⟨_, rfl⟩, rfl⟩⟩
    next hstarted =>
      rw [← ne_eq, started_iff hj] at hstarted
      cases isReset with
      | true =>
        intro hwrite
        refine ⟨⟨hpmu.hardware, hpmu.total⟩, Or.inr ⟨rfl, j, hj, rfl, hstarted, ?_⟩⟩
        exact .of_fields (getElem?_set_add_if hwrite) (fun k _ => getLsbD_clear_if k) self_eq_if
      | false =>
        refine ⟨⟨hpmu.hardware, hpmu.total⟩, Or.inr ⟨rfl, j, hj, rfl, hstarted, ?_⟩⟩
        exact .of_fields self_eq_if (fun k _ => getLsbD_clear_if k) self_eq_if

/-! ## Starting and stopping a set -/

/-- A call on a set of counters takes the cells of the firmware counters that it
reaches from `before` to `after`; one that succeeds has reached the whole set. -/
def ChangesCells (features : HartFeatures) (pmu : PmuState xlen) (counters : List Nat)
    (before : Cell → Prop) (after : Cell → Cell) (ret : SbiRet) (hart' : Hart xlen) : Prop :=
  WellNumbered features hart'.pmu ∧ ∀ k < firmwareCounterMax,
    (hart'.pmu.cell k = pmu.cell k ∧ (ret = .success 0 → pmu.hwCountersNum + k ∉ counters)) ∨
      (pmu.hwCountersNum + k ∈ counters ∧ before (pmu.cell k) ∧
        hart'.pmu.cell k = after (pmu.cell k))

section Sets

variable {pmu : PmuState xlen} {counterIdx : Nat} {rest : List Nat} {before : Cell → Prop}
  {after : Cell → Cell} {hart₁ hart' : Hart xlen} {ret : SbiRet}

/-- A call that changes no cell and does not succeed. -/
theorem ChangesCells.of_failed (hnumbered : WellNumbered features hart'.pmu)
    (hsame : SameCells pmu hart'.pmu) (hret : ret ≠ .success 0) (counters : List Nat) :
    ChangesCells features pmu counters before after ret hart' :=
  ⟨hnumbered, fun k hk => Or.inl ⟨hsame k hk, fun h => absurd h hret⟩⟩

theorem ChangesCells.cons_hardware (heq : SameCells pmu hart₁.pmu)
    (hhw : hart₁.pmu.hwCountersNum = pmu.hwCountersNum) (hlt : counterIdx < pmu.hwCountersNum)
    (h : ChangesCells features hart₁.pmu rest before after ret hart') :
    ChangesCells features pmu (counterIdx :: rest) before after ret hart' := by
  refine ⟨h.1, fun k hk => ?_⟩
  have hne : pmu.hwCountersNum + k ≠ counterIdx := by omega
  have hcell := heq k hk
  rcases h.2 k hk with ⟨hsame, hmissed⟩ | ⟨hmem, hbefore, hafter⟩
  · refine Or.inl ⟨hsame.trans hcell, fun hret hmem => ?_⟩
    rcases List.mem_cons.mp hmem with heq | hmem
    · exact hne heq
    · exact hmissed hret (hhw ▸ hmem)
  · rw [hcell] at hbefore hafter
    exact Or.inr ⟨List.mem_cons_of_mem _ (hhw ▸ hmem), hbefore, hafter⟩

theorem ChangesCells.cons_firmware
    (hpmu : WellNumbered features pmu) (honce : ∀ c, ¬ before (after c)) {j : Nat}
    (hnumbered : WellNumbered features hart₁.pmu) (hidx : counterIdx = pmu.hwCountersNum + j)
    (hbefore : before (pmu.cell j)) (hsets : SetsCell pmu hart₁.pmu j (after (pmu.cell j)))
    (h : ChangesCells features hart₁.pmu rest before after ret hart') :
    ChangesCells features pmu (counterIdx :: rest) before after ret hart' := by
  have hhw : hart₁.pmu.hwCountersNum = pmu.hwCountersNum :=
    hnumbered.hardware.trans hpmu.hardware.symm
  subst hidx
  refine ⟨h.1, fun k hk => ?_⟩
  have hcell := hsets k hk
  by_cases hkj : k = j
  · subst hkj
    rw [if_pos rfl] at hcell
    rcases h.2 k hk with ⟨hsame, -⟩ | ⟨-, hagain, -⟩
    · exact Or.inr ⟨List.mem_cons_self, hbefore, hsame.trans hcell⟩
    · rw [hcell] at hagain
      exact absurd hagain (honce _)
  · rw [if_neg hkj] at hcell
    rcases h.2 k hk with ⟨hsame, hmissed⟩ | ⟨hmem, hbefore, hafter⟩
    · refine Or.inl ⟨hsame.trans hcell, fun hret hmem => ?_⟩
      rcases List.mem_cons.mp hmem with heq | hmem
      · exact hkj (Nat.add_left_cancel heq)
      · exact hmissed hret (hhw ▸ hmem)
    · rw [hcell] at hbefore hafter
      exact Or.inr ⟨List.mem_cons_of_mem _ (hhw ▸ hmem), hbefore, hafter⟩

end Sets

theorem ensures_counterStartLoop (hpmu : WellNumbered features hart.pmu) (value : BitVec 64)
    (isUpdate : Bool) (counters : List Nat) :
    Ensures (counterStartLoop features value isUpdate counters) hart
      (ChangesCells features hart.pmu counters (·.started = false) (·.start isUpdate value)) := by
  induction counters generalizing hart with
  | nil =>
    rw [counterStartLoop, ensures_pure]
    exact ⟨hpmu, fun k _ => Or.inl ⟨rfl, fun _ => List.not_mem_nil⟩⟩
  | cons counterIdx rest ih =>
    simp only [counterStartLoop, ensures_bind, ensures_get, ensures_ite, ensures_pure,
      ensures_unwrap]
    split
    · exact .of_failed hpmu (.of_eq rfl) (by simp) _
    next hrange =>
      split
      next hfw =>
        refine (ensures_startFwCounter hpmu counterIdx value isUpdate).mono ?_
        rintro result hart₁ ⟨hnumbered, ⟨⟨e, rfl⟩, heq⟩ | ⟨rfl, j, -, hidx, hbefore, hsets⟩⟩
        · cases e <;> exact ensures_pure.mpr (.of_failed (hpmu.of_eq heq) (.of_eq heq) (by simp) _)
        · refine (ih hnumbered).mono fun ret hart' h => ?_
          exact .cons_firmware hpmu (fun _ => by simp [Cell.start]) hnumbered hidx
            hbefore hsets h
      next hhw =>
        intro offset _
        refine (returns_startHardwareCounter offset value isUpdate).ensures.mono ?_
        intro result hart₁ heq
        have hnumbered := hpmu.of_eq heq
        rcases result with e | _
        · cases e <;> exact ensures_pure.mpr (.of_failed (hpmu.of_eq heq) (.of_eq heq) (by simp) _)
        · refine (ih hnumbered).mono fun ret hart' h => ?_
          exact .cons_hardware (.of_eq heq) (by rw [heq]) (not_le.mp hhw) h

/-- The state with an event on one counter. -/
def PmuState.setEvent (pmu : PmuState xlen) (counterIdx event : Nat)
    (h : counterIdx < hardwareCounterMax + firmwareCounterMax) : PmuState xlen :=
  { pmu with activeEvent := pmu.activeEvent.set counterIdx event h }

theorem WellNumbered.setEvent {pmu : PmuState xlen} (hpmu : WellNumbered features pmu)
    {counterIdx : Nat} (h : counterIdx < hardwareCounterMax + firmwareCounterMax) (event : Nat)
    (csrs : Csrs xlen) :
    WellNumbered features (Hart.mk (pmu.setEvent counterIdx event h) csrs).pmu :=
  ⟨hpmu.hardware, hpmu.total⟩

/-- The event of a hardware counter is in no cell. -/
theorem sameCells_setHardware {pmu : PmuState xlen} {counterIdx event : Nat}
    (h : counterIdx < hardwareCounterMax + firmwareCounterMax)
    (hlt : counterIdx < pmu.hwCountersNum) :
    SameCells pmu (pmu.setEvent counterIdx event h) := by
  intro k _
  have hne : pmu.hwCountersNum + k ≠ counterIdx := by omega
  simp only [PmuState.cell, PmuState.setEvent, getElem?_set_if, if_neg hne]

theorem ensures_counterStopLoop (hpmu : WellNumbered features hart.pmu) (isReset : Bool)
    (counters : List Nat) (result : SbiRet) :
    Ensures (counterStopLoop features isReset counters result) hart
      (ChangesCells features hart.pmu counters (·.started = true) (·.stop xlen isReset)) := by
  induction counters generalizing hart result with
  | nil =>
    rw [counterStopLoop, ensures_pure]
    exact ⟨hpmu, fun k _ => Or.inl ⟨rfl, fun _ => List.not_mem_nil⟩⟩
  | cons counterIdx rest ih =>
    simp only [counterStopLoop, ensures_bind, ensures_get, ensures_ite, ensures_pure,
      ensures_unwrap, setPmu, ensures_writeAt, ensures_modify]
    split
    · exact .of_failed hpmu (.of_eq rfl) (by simp) _
    next hrange =>
      split
      next hfw =>
        refine (ensures_stopFwCounter hpmu counterIdx isReset).mono ?_
        rintro result hart₁ ⟨hnumbered, ⟨⟨e, rfl⟩, heq⟩ | ⟨rfl, j, -, hidx, hbefore, hsets⟩⟩
        · cases e <;> exact ensures_pure.mpr (.of_failed (hpmu.of_eq heq) (.of_eq heq) (by simp) _)
        · refine (ih hnumbered _).mono fun ret hart' h => ?_
          exact .cons_firmware hpmu (fun _ => by simp [Cell.stop]) hnumbered hidx hbefore hsets h
      next hhw =>
        intro offset _
        split
        · exact (ih hpmu _).mono fun ret hart' h =>
            .cons_hardware (.of_eq rfl) rfl (not_le.mp hhw) h
        · -- A reset clears the event before the register is stopped.
          split
          case' isTrue =>
            intro hwrite
            have hsame := @sameCells_setHardware _ _ _ (eventIdxInvalid xlen) hwrite (not_le.mp hhw)
            have hnumbered : WellNumbered features
                (hart.pmu.setEvent counterIdx (eventIdxInvalid xlen) hwrite) :=
              ⟨hpmu.hardware, hpmu.total⟩
          case' isFalse =>
            have hsame : SameCells hart.pmu hart.pmu := .of_eq rfl
            have hnumbered := hpmu
          all_goals
            refine (returns_stopHardwareCounter offset isReset).ensures.mono ?_
            intro result hart₂ heq
            have hnumbered' := hnumbered.of_eq heq
            have hsame' := hsame.trans (.of_eq heq)
            rcases result with e | _
            · cases e <;> exact ensures_pure.mpr (.of_failed hnumbered' hsame' (by simp) _)
            · refine (ih hnumbered' _).mono fun ret hart' h => ?_
              exact .cons_hardware hsame' (hnumbered'.hardware.trans hpmu.hardware.symm)
                (not_le.mp hhw) h

theorem ensures_counterStart (hpmu : WellNumbered features hart.pmu) (base : Nat)
    (mask : BitVec xlen.bits) (startFlags : Nat) (value : BitVec 64) :
    Ensures (counterStart features base mask startFlags value) hart
      (ChangesCells features hart.pmu (CounterMask.toList ⟨base, mask⟩) (·.started = false)
        (·.start (startFlags.testBit 0) value)) := by
  have hfailed : ∀ ret : SbiRet, ret ≠ .success 0 →
      ChangesCells features hart.pmu (CounterMask.toList ⟨base, mask⟩) (·.started = false)
        (·.start (startFlags.testBit 0) value) ret hart :=
    fun ret hret => .of_failed hpmu (.of_eq rfl) hret _
  unfold counterStart
  by_cases hflags : startFlags < 2 ^ 2
  · simp only [StartFlags.fromBits, if_pos hflags, ensures_bind, ensures_get]
    by_cases hset : CounterSetValid hart.pmu base mask
    · rw [counterSetInvalid_of_valid hpmu hset]
      simp only [ensures_pure, Bool.false_eq_true, if_false, ensures_ite]
      split
      · exact hfailed _ (by simp)
      · exact ensures_counterStartLoop hpmu _ _ _
    · rw [counterSetInvalid_of_not_valid hpmu hset]
      simp only [ensures_pure, if_true]
      exact hfailed _ (by simp)
  · simp only [StartFlags.fromBits, if_neg hflags, ensures_pure]
    exact hfailed _ (by simp)

theorem ensures_counterStop (hpmu : WellNumbered features hart.pmu) (base : Nat)
    (mask : BitVec xlen.bits) (stopFlags : Nat) :
    Ensures (counterStop features base mask stopFlags) hart
      (ChangesCells features hart.pmu (CounterMask.toList ⟨base, mask⟩) (·.started = true)
        (·.stop xlen (stopFlags.testBit 0))) := by
  have hfailed : ∀ ret : SbiRet, ret ≠ .success 0 →
      ChangesCells features hart.pmu (CounterMask.toList ⟨base, mask⟩) (·.started = true)
        (·.stop xlen (stopFlags.testBit 0)) ret hart :=
    fun ret hret => .of_failed hpmu (.of_eq rfl) hret _
  unfold counterStop
  by_cases hflags : stopFlags < 2 ^ 2
  · simp only [StopFlags.fromBits, if_pos hflags, ensures_bind, ensures_get]
    by_cases hset : CounterSetValid hart.pmu base mask
    · rw [counterSetInvalid_of_valid hpmu hset]
      simp only [ensures_pure, Bool.false_eq_true, if_false, ensures_ite]
      split
      · exact hfailed _ (by simp)
      · exact ensures_counterStopLoop hpmu _ _ _
    · rw [counterSetInvalid_of_not_valid hpmu hset]
      simp only [ensures_pure, if_true]
      exact hfailed _ (by simp)
  · simp only [StopFlags.fromBits, if_neg hflags, ensures_pure]
    exact hfailed _ (by simp)

/-! ## Firmware events -/

/-- The cell counts the event: it is started and its event has the encoding that the
firmware looks for. -/
def Cell.Counts (c : Cell) (firmwareEvent : Nat) : Prop :=
  c.started = true ∧ c.event = some (EventIdx.fromFirmwareEvent firmwareEvent).inner

instance (c : Cell) (firmwareEvent : Nat) : Decidable (c.Counts firmwareEvent) :=
  inferInstanceAs (Decidable (_ ∧ _))

/-- The cell after the event. -/
def Cell.count (c : Cell) (firmwareEvent : Nat) : Cell :=
  if c.Counts firmwareEvent then { c with value := c.value.map (· + 1) } else c

theorem ensures_isFirmwareEventStart {pmu : PmuState xlen} (hpmu : WellNumbered features pmu)
    {k : Nat} (hk : k < firmwareCounterMax) :
    Ensures (isFirmwareEventStart pmu (pmu.hwCountersNum + k)) hart fun started hart' =>
      started = (pmu.cell k).started ∧ hart' = hart := by
  have htotal := hpmu.total
  have hrange : ¬ (pmu.hwCountersNum + k < pmu.hwCountersNum ∨
      pmu.totalCountersNum ≤ pmu.hwCountersNum + k) := by omega
  simp only [isFirmwareEventStart, if_neg hrange, ensures_bind, ensures_checkedSub,
    ensures_shiftLeft, ensures_pure, Nat.add_sub_cancel_left]
  intro _ _
  refine ⟨?_, trivial⟩
  rw [Bool.eq_iff_iff, decide_eq_true_iff, started_iff hk]

theorem ensures_firmwareCounterIncrementLoop (hpmu : WellNumbered features hart.pmu)
    (firmwareEvent : Nat) {ks : List Nat} (hnodup : ks.Nodup)
    (hks : ∀ k ∈ ks, k < firmwareCounterMax) :
    Ensures (firmwareCounterIncrementLoop firmwareEvent hart.pmu.hwCountersNum
        (ks.map (hart.pmu.hwCountersNum + ·))) hart fun _ hart' =>
      WellNumbered features hart'.pmu ∧ ∀ k < firmwareCounterMax, hart'.pmu.cell k =
        if k ∈ ks then (hart.pmu.cell k).count firmwareEvent else hart.pmu.cell k := by
  induction ks generalizing hart with
  | nil => simpa [firmwareCounterIncrementLoop] using hpmu
  | cons j ks ih =>
    obtain ⟨hfresh, hnodup⟩ := List.nodup_cons.mp hnodup
    have hj : j < firmwareCounterMax := hks j List.mem_cons_self
    have hks' : ∀ k ∈ ks, k < firmwareCounterMax := fun k hk => hks k (List.mem_cons_of_mem j hk)
    have htotal := hpmu.total
    -- What the rest of the loop does once counter `j` is as it should be.
    have hrest : ∀ hart₁ : Hart xlen, WellNumbered features hart₁.pmu →
        SetsCell hart.pmu hart₁.pmu j ((hart.pmu.cell j).count firmwareEvent) →
        Ensures (firmwareCounterIncrementLoop firmwareEvent hart.pmu.hwCountersNum
          (ks.map (hart.pmu.hwCountersNum + ·))) hart₁ fun _ hart' =>
          WellNumbered features hart'.pmu ∧ ∀ k < firmwareCounterMax, hart'.pmu.cell k =
            if k ∈ j :: ks then (hart.pmu.cell k).count firmwareEvent else hart.pmu.cell k := by
      intro hart₁ hnumbered hsets
      have hhw : hart₁.pmu.hwCountersNum = hart.pmu.hwCountersNum :=
        hnumbered.hardware.trans hpmu.hardware.symm
      have hloop := ih hnumbered hnodup hks'
      rw [hhw] at hloop
      refine hloop.mono fun _ hart' h => ⟨h.1, fun k hk => ?_⟩
      rw [h.2 k hk, hsets k hk]
      by_cases hkj : k = j
      · subst hkj
        simp [hfresh]
      · simp [hkj]
    rw [List.map_cons, firmwareCounterIncrementLoop]
    simp only [ensures_bind, ensures_get, ensures_checkedSub, ensures_readAt, ensures_ite,
      ensures_pure, setPmu, ensures_writeAt, ensures_modify, Nat.add_sub_cancel_left]
    intro _ hread
    have hevent : (hart.pmu.cell j).event = some hart.pmu.activeEvent[hart.pmu.hwCountersNum + j] :=
      Vector.getElem?_eq_getElem hread
    split
    next hmatch =>
      refine (ensures_isFirmwareEventStart hpmu hj).mono ?_
      rintro started hart₁ ⟨rfl, heq⟩
      obtain rfl := heq.symm
      split
      next hstarted =>
        intro hvalue _
        apply hrest
        · exact ⟨hpmu.hardware, hpmu.total⟩
        · have hcounts : (hart.pmu.cell j).Counts firmwareEvent := ⟨hstarted, by rw [hevent, hmatch]⟩
          rw [Cell.count, if_pos hcounts]
          refine .of_fields self_eq_if (fun k _ => self_eq_if k) fun k => ?_
          rw [getElem?_set_if]
          simp [PmuState.cell, hvalue]
      next hstopped =>
        have hcounts : ¬ (hart.pmu.cell j).Counts firmwareEvent := fun h => hstopped h.1
        apply hrest hart hpmu
        rw [Cell.count, if_neg hcounts]
        exact fun k _ => self_eq_if k
    next hmatch =>
      have hcounts : ¬ (hart.pmu.cell j).Counts firmwareEvent := by
        rintro ⟨-, hcell⟩
        rw [hevent, Option.some.injEq] at hcell
        exact hmatch hcell
      simp only [Bool.false_eq_true, if_false]
      apply hrest hart hpmu
      rw [Cell.count, if_neg hcounts]
      exact fun k _ => self_eq_if k

theorem ensures_pmuFirmwareCounterIncrement (hpmu : WellNumbered features hart.pmu)
    (firmwareEvent : Nat) :
    Ensures (pmuFirmwareCounterIncrement firmwareEvent) hart fun _ hart' =>
      WellNumbered features hart'.pmu ∧ ∀ k < firmwareCounterMax,
        hart'.pmu.cell k = (hart.pmu.cell k).count firmwareEvent := by
  simp only [pmuFirmwareCounterIncrement, ensures_bind, ensures_get, ensures_ite, ensures_pure]
  split
  next hnone =>
    refine ⟨hpmu, fun k _ => ?_⟩
    have hstopped : ¬ (hart.pmu.cell k).Counts firmwareEvent := by
      rintro ⟨hstarted, -⟩
      simp [PmuState.cell, hnone] at hstarted
    rw [Cell.count, if_neg hstopped]
  next hsome =>
    refine (ensures_firmwareCounterIncrementLoop hpmu firmwareEvent List.nodup_range ?_).mono ?_
    · exact fun k hk => List.mem_range.mp hk
    · intro _ hart' h
      refine ⟨h.1, fun k hk => ?_⟩
      rw [h.2 k hk, if_pos (List.mem_range.mpr hk)]

/-! ## Configuring -/

/-- The cell after a configuration. -/
def Cell.configure (c : Cell) (flags : ConfigFlags) (eventIdx : Nat) : Cell where
  event := if flags.skipMatch then c.event else some eventIdx
  started := c.started || flags.autoStart
  value := if flags.clearValue then some 0 else c.value

/-- The search for a firmware counter finds a selected one without an event. -/
def FindsFree (pmu : PmuState xlen) (counters : List Nat) : Except SbiRet Nat → Prop
  | .error e => e = .notSupported
  | .ok counterIdx => counterIdx ∈ counters ∧ ∃ j < firmwareCounterMax,
      counterIdx = pmu.hwCountersNum + j ∧ (pmu.cell j).event = some (eventIdxInvalid xlen)

theorem FindsFree.cons {pmu : PmuState xlen} {counterIdx : Nat} {rest : List Nat}
    {result : Except SbiRet Nat} (h : FindsFree pmu rest result) :
    FindsFree pmu (counterIdx :: rest) result := by
  cases result with
  | error e => exact h
  | ok found => exact ⟨List.mem_cons_of_mem _ h.1, h.2⟩

theorem ensures_findFirmwareCounterLoop {pmu : PmuState xlen} (hpmu : WellNumbered features pmu)
    (counters : List Nat) :
    Ensures (findFirmwareCounterLoop pmu counters) hart fun result hart' =>
      hart' = hart ∧ FindsFree pmu counters result := by
  have htotal := hpmu.total
  induction counters with
  | nil =>
    rw [findFirmwareCounterLoop, ensures_pure]
    exact ⟨rfl, rfl⟩
  | cons counterIdx rest ih =>
    have hskip := ih.mono fun result hart' h => show hart' = hart ∧
        FindsFree pmu (counterIdx :: rest) result from ⟨h.1, h.2.cons⟩
    simp only [findFirmwareCounterLoop, ensures_ite, ensures_bind, ensures_readAt, ensures_pure]
    split
    · exact hskip
    next hrange =>
      intro hread
      split
      · exact hskip
      next hfree =>
        obtain ⟨j, rfl⟩ := Nat.exists_eq_add_of_le (by omega : pmu.hwCountersNum ≤ counterIdx)
        refine ⟨trivial, List.mem_cons_self, j, by omega, rfl, ?_⟩
        exact (Vector.getElem?_eq_getElem hread).trans (congrArg some (not_not.mp hfree))

/-- What `configure_counter` does to the cells: it sets that of the counter for a
firmware event, or leaves all of them alone. -/
def Configures (features : HartFeatures) (pmu : PmuState xlen) (counterIdx : Nat)
    (event : EventIdx) (flags : ConfigFlags) (result : Except SbiRet PUnit.{1}) (hart' : Hart xlen) :
    Prop :=
  WellNumbered features hart'.pmu ∧
    ((event.isFirmwareEvent = true ∧ result = .ok ⟨⟩ ∧ ∃ j < firmwareCounterMax,
        counterIdx = pmu.hwCountersNum + j ∧ SetsCell pmu hart'.pmu j
          ((pmu.cell j).configure { flags with skipMatch := true } event.inner)) ∨
      (SameCells pmu hart'.pmu ∧ (event.isFirmwareEvent = true →
        result = .error .invalidParam ∧ ∀ j < firmwareCounterMax, counterIdx ≠ pmu.hwCountersNum + j)))

theorem ensures_configureCounter (hpmu : WellNumbered features hart.pmu) {counterIdx : Nat}
    {event : EventIdx} (flags : ConfigFlags) :
    Ensures (configureCounter features counterIdx event flags) hart
      (Configures features hart.pmu counterIdx event flags) := by
  cases hevent : event.isFirmwareEvent with
  | true =>
    simp only [configureCounter, hevent, if_true, setPmu, ensures_ite, ensures_bind, ensures_pure,
      ensures_get, ensures_checkedSub, ensures_shiftLeft, ensures_writeAt, ensures_modify,
      ensures_map]
    intro hle
    obtain ⟨j, rfl⟩ := Nat.exists_eq_add_of_le hle
    rw [Nat.add_sub_cancel_left]
    have hnumbered : ∀ {csrs : Csrs xlen} {activeEvent fwCounterState fwCounter},
        WellNumbered features (⟨⟨activeEvent, fwCounterState, fwCounter, hart.pmu.hwCountersNum,
          hart.pmu.totalCountersNum⟩, csrs⟩ : Hart xlen).pmu := ⟨hpmu.hardware, hpmu.total⟩
    split
    · exact ⟨hpmu, Or.inr ⟨.of_eq rfl, fun _ => ⟨rfl, fun _ _ => by omega⟩⟩⟩
    next hj =>
      have hj : j < firmwareCounterMax := not_le.mp hj
      have hstarted : ((hart.pmu.cell j).configure { flags with skipMatch := true }
          event.inner).started = (hart.pmu.fwCounterState.getLsbD j || flags.autoStart) := rfl
      have hvalue : ((hart.pmu.cell j).configure { flags with skipMatch := true }
          event.inner).value = if flags.clearValue then some 0 else hart.pmu.fwCounter[j]? := rfl
      cases hclear : flags.clearValue <;> cases hauto : flags.autoStart
      · refine ⟨hnumbered, Or.inl ⟨hevent, rfl, j, hj, rfl, ?_⟩⟩
        refine .of_fields self_eq_if (fun k _ => ?_) fun k => ?_
        · rw [hstarted, hauto, Bool.or_false]
          exact self_eq_if k
        · rw [hvalue, hclear]
          exact self_eq_if k
      · intro _
        refine ⟨hnumbered, Or.inl ⟨hevent, rfl, j, hj, rfl, ?_⟩⟩
        refine .of_fields self_eq_if (fun k hk => ?_) fun k => ?_
        · rw [hstarted, hauto, Bool.or_true]
          exact getLsbD_or_if hk
        · rw [hvalue, hclear]
          exact self_eq_if k
      · intro hwrite
        refine ⟨hnumbered, Or.inl ⟨hevent, rfl, j, hj, rfl, ?_⟩⟩
        refine .of_fields self_eq_if (fun k _ => ?_) fun k => ?_
        · rw [hstarted, hauto, Bool.or_false]
          exact self_eq_if k
        · rw [hvalue, hclear]
          exact getElem?_set_if hwrite k
      · intro hwrite _
        refine ⟨hnumbered, Or.inl ⟨hevent, rfl, j, hj, rfl, ?_⟩⟩
        refine .of_fields self_eq_if (fun k hk => ?_) fun k => ?_
        · rw [hstarted, hauto, Bool.or_true]
          exact getLsbD_or_if hk
        · rw [hvalue, hclear]
          exact getElem?_set_if hwrite k
  | false =>
    simp only [configureCounter, hevent, Bool.false_eq_true, if_false, ensures_bind,
      ensures_unwrap]
    intro offset _
    have hsame : ∀ {result : Except SbiRet PUnit.{1}} {hart' : Hart xlen}, hart'.pmu = hart.pmu →
        Configures features hart.pmu counterIdx event flags result hart' := fun heq =>
      ⟨hpmu.of_eq heq, Or.inr ⟨.of_eq heq, fun h => by rw [hevent] at h; cases h⟩⟩
    refine Ensures.mono (Q := fun _ hart₁ => hart₁.pmu = hart.pmu) ?_ ?_
    · rw [ensures_ite]
      split
      · exact (returns_writeMhpmcounter offset 0 fun _ h => h).ensures
      · exact ensures_pure.mpr rfl
    · intro _ hart₁ h
      rw [ensures_ite]
      split
      · rw [ensures_bind]
        refine (returns_startHardwareCounter offset 0 false).ensures.mono fun result hart₂ h₂ => ?_
        cases result <;> exact ensures_pure.mpr (hsame (h₂.trans h))
      · exact ensures_pure.mpr (hsame h)

/-- The counter that a configuration takes: under `SKIP_MATCH` the first selected one,
if it has an event, and otherwise a selected one without. -/
def Takes (pmu : PmuState xlen) (base : Nat) (mask : BitVec xlen.bits) (skipMatch : Bool) (j : Nat) :
    Prop :=
  if skipMatch then
    pmu.hwCountersNum + j = mask.ctz.toNat + base ∧
      (pmu.cell j).event ≠ some (eventIdxInvalid xlen)
  else
    pmu.hwCountersNum + j ∈ CounterMask.toList ⟨base, mask⟩ ∧
      (pmu.cell j).event = some (eventIdxInvalid xlen)

/-- What a configuration does to the cells: it configures that of the counter it returns
for a firmware event, or leaves all of them alone. -/
def Configured (features : HartFeatures) (pmu : PmuState xlen) (base : Nat)
    (mask : BitVec xlen.bits) (flags : ConfigFlags) (eventIdx : Nat) (ret : SbiRet)
    (hart' : Hart xlen) : Prop :=
  WellNumbered features hart'.pmu ∧
    ((EventIdx.isFirmwareEvent ⟨eventIdx⟩ = true ∧ ∃ j < firmwareCounterMax,
        ret = .success (pmu.hwCountersNum + j) ∧ Takes pmu base mask flags.skipMatch j ∧
          SetsCell pmu hart'.pmu j ((pmu.cell j).configure flags eventIdx)) ∨
      (SameCells pmu hart'.pmu ∧
        (EventIdx.isFirmwareEvent ⟨eventIdx⟩ = true → ∀ value, ret ≠ .success value)))

/-- The answer of a configuration once its counter is known. -/
def configReply (counterIdx : Nat) : Except SbiRet PUnit.{1} → SbiRet
  | .error e => e
  | .ok _ => .success counterIdx

section Matching

variable {base : Nat} {mask : BitVec xlen.bits} {flags : ConfigFlags} {eventIdx : Nat}

/-- The end of a configuration that has found its counter without an effect on the cells. -/
theorem Configured.of_configures {counterIdx : Nat} {hart₁ hart' : Hart xlen}
    {result : Except SbiRet PUnit.{1}} (hsame : SameCells hart.pmu hart₁.pmu)
    (h : Configures features hart₁.pmu counterIdx ⟨eventIdx⟩ flags result hart')
    (hevent : EventIdx.isFirmwareEvent ⟨eventIdx⟩ = false) (ret : SbiRet) :
    Configured features hart.pmu base mask flags eventIdx ret hart' := by
  refine ⟨h.1, Or.inr ⟨?_, fun hfw => by rw [hevent] at hfw; cases hfw⟩⟩
  rcases h.2 with ⟨hfw, -⟩ | ⟨hsame', -⟩
  · rw [hevent] at hfw
    cases hfw
  · exact hsame.trans hsame'

theorem Configured.of_error (hpmu : WellNumbered features hart.pmu) {e : SbiRet}
    (he : ∀ value, e ≠ .success value) :
    Configured features hart.pmu base mask flags eventIdx e hart :=
  ⟨hpmu, Or.inr ⟨.of_eq rfl, fun _ => he⟩⟩

/-- Under `SKIP_MATCH` the first selected counter keeps its event. -/
theorem Configured.of_skip {hart' : Hart xlen} {result : Except SbiRet PUnit.{1}}
    (hskip : flags.skipMatch = true)
    (hactive : hart.pmu.activeEvent[mask.ctz.toNat + base]? ≠ some (eventIdxInvalid xlen))
    (h : Configures features hart.pmu (mask.ctz.toNat + base) ⟨eventIdx⟩ flags result hart') :
    Configured features hart.pmu base mask flags eventIdx
      (configReply (mask.ctz.toNat + base) result) hart' := by
  obtain ⟨hnumbered, ⟨hfw, rfl, j, hj, hidx, hsets⟩ | ⟨hsame, hfailed⟩⟩ := h
  · refine ⟨hnumbered, Or.inl ⟨hfw, j, hj, by rw [hidx]; rfl, ?_, ?_⟩⟩
    · rw [Takes, if_pos hskip]
      exact ⟨hidx.symm, by rw [hidx] at hactive; exact hactive⟩
    · have hflags : { flags with skipMatch := true } = flags := by rw [← hskip]
      rw [hflags] at hsets
      exact hsets
  · refine ⟨hnumbered, Or.inr ⟨hsame, fun hfw value => ?_⟩⟩
    rw [(hfailed hfw).1]
    simp [configReply]

/-- A free firmware counter takes the event. -/
theorem Configured.of_match {hart₁ hart' : Hart xlen} {result : Except SbiRet PUnit.{1}} {j : Nat}
    (hpmu : WellNumbered features hart.pmu) (hnumbered₁ : WellNumbered features hart₁.pmu)
    (hskip : flags.skipMatch = false) (hevent : EventIdx.isFirmwareEvent ⟨eventIdx⟩ = true)
    (hj : j < firmwareCounterMax) (htakes : Takes hart.pmu base mask false j)
    (hsets : SetsCell hart.pmu hart₁.pmu j { hart.pmu.cell j with event := some eventIdx })
    (h : Configures features hart₁.pmu (hart.pmu.hwCountersNum + j) ⟨eventIdx⟩ flags result
      hart') :
    Configured features hart.pmu base mask flags eventIdx
      (configReply (hart.pmu.hwCountersNum + j) result) hart' := by
  have hhw : hart₁.pmu.hwCountersNum = hart.pmu.hwCountersNum :=
    hnumbered₁.hardware.trans hpmu.hardware.symm
  obtain ⟨hnumbered, ⟨-, rfl, j', -, hidx, hsets'⟩ | ⟨-, hfailed⟩⟩ := h
  · obtain rfl : j = j' := Nat.add_left_cancel (hidx.trans (by rw [hhw]))
    refine ⟨hnumbered, Or.inl ⟨hevent, j, hj, rfl, hskip ▸ htakes, fun k hk => ?_⟩⟩
    rw [hsets' k hk, hsets k hk, hsets j hj, if_pos rfl]
    by_cases hkj : k = j
    · rw [if_pos hkj, if_pos hkj]
      simp [Cell.configure, hskip]
    · rw [if_neg hkj, if_neg hkj, if_neg hkj]
  · exact absurd (by rw [hhw]) ((hfailed hevent).2 j hj)

/-- The matching and the configuration of the counter that it finds. -/
theorem ensures_matchCounter (hpmu : WellNumbered features hart.pmu)
    (hset : CounterSetValid hart.pmu base mask) (eventData : BitVec 64) :
    Ensures (matchCounter features sbiPmu ⟨base, mask⟩ flags.skipMatch eventIdx eventData) hart
      fun result hart₁ => match result with
        | .error e => Configured features hart.pmu base mask flags eventIdx e hart₁
        | .ok counterIdx => Ensures (configureCounter features counterIdx ⟨eventIdx⟩ flags) hart₁
          fun done => Configured features hart.pmu base mask flags eventIdx
            (configReply counterIdx done) := by
  cases hskip : flags.skipMatch with
  | true =>
    obtain ⟨rest, hnext⟩ := @next_eq_some xlen base mask hset.2.1
    simp only [matchCounter, ensures_bind, ensures_get, if_true, hnext, ensures_readAt, ensures_ite,
      ensures_pure]
    intro hread
    split
    · exact .of_error hpmu (by simp)
    next hactive =>
      have hactive' : hart.pmu.activeEvent[mask.ctz.toNat + base]? ≠ some (eventIdxInvalid xlen) := by
        rw [Vector.getElem?_eq_getElem hread]
        exact fun h => hactive (Option.some.inj h)
      exact (ensures_configureCounter hpmu flags).mono fun result hart' h =>
        .of_skip hskip hactive' h
  | false =>
    cases hevent : EventIdx.isFirmwareEvent ⟨eventIdx⟩ with
    | true =>
      simp only [matchCounter, ensures_bind, ensures_get, Bool.false_eq_true, if_false, hevent,
        if_true, findFirmwareCounter, ensures_ite, ensures_pure]
      split
      · exact .of_error hpmu (by simp)
      · refine (ensures_findFirmwareCounterLoop hpmu _).mono ?_
        rintro result hart₁ ⟨heq, hfound⟩
        obtain rfl := heq.symm
        cases result with
        | error e =>
          rw [ensures_pure]
          exact .of_error hpmu (by rw [hfound]; simp)
        | ok counterIdx =>
          obtain ⟨hmem, j, hj, rfl, hfree⟩ := hfound
          simp only [setPmu, ensures_bind, ensures_writeAt, ensures_modify, ensures_pure]
          intro hwrite
          have hnumbered := hpmu.setEvent hwrite eventIdx hart.csrs
          refine (ensures_configureCounter hnumbered flags).mono fun result hart' h => ?_
          refine .of_match hpmu hnumbered hskip hevent hj ?_ ?_ h
          · rw [Takes]
            exact ⟨hmem, hfree⟩
          · exact .of_fields (getElem?_set_add_if hwrite) (fun k _ => self_eq_if k) self_eq_if
    | false =>
      simp only [matchCounter, ensures_bind, ensures_get, Bool.false_eq_true, if_false, hevent]
      refine (returns_findHardwareCounter hpmu ⟨base, mask⟩ eventIdx eventData).ensures.mono ?_
      rintro result hart₁ ⟨heq, hfound⟩
      cases result with
      | error e =>
        rw [ensures_pure]
        exact ⟨hpmu.of_eq heq, Or.inr ⟨.of_eq heq, fun hfw => by rw [hevent] at hfw; cases hfw⟩⟩
      | ok counterIdx =>
        have hlt := hfound counterIdx rfl
        simp only [setPmu, ensures_bind, ensures_writeAt, ensures_modify, ensures_pure]
        intro hwrite
        have hnumbered := hpmu.setEvent hwrite eventIdx hart₁.csrs
        refine (ensures_configureCounter hnumbered flags).mono fun result hart' h => ?_
        exact .of_configures (sameCells_setHardware hwrite hlt) h hevent _

end Matching

/-- `ConfigFlags::from_bits` on defined bits. -/
def configFlagsOf (bits : Nat) : ConfigFlags := ⟨bits.testBit 0, bits.testBit 1, bits.testBit 2⟩

/-- The arguments of a configuration that passes its checks. -/
def Accepted (pmu : PmuState xlen) (base : Nat) (mask : BitVec xlen.bits)
    (configFlags eventIdx : Nat) : Prop :=
  configFlags < 2 ^ 8 ∧ CounterSetValid pmu base mask ∧
    EventIdx.checkEventType ⟨eventIdx⟩ = true ∧
    (EventIdx.isFirmwareEvent ⟨eventIdx⟩ = true → EventIdx.firmwareEventValid ⟨eventIdx⟩ = true)

theorem ensures_counterConfigMatching (hpmu : WellNumbered features hart.pmu) (base : Nat)
    (mask : BitVec xlen.bits) (configFlags eventIdx : Nat) (eventData : BitVec 64) :
    Ensures (counterConfigMatching features sbiPmu base mask configFlags eventIdx eventData) hart
      fun ret hart' =>
        Configured features hart.pmu base mask (configFlagsOf configFlags) eventIdx ret hart' ∧
          ((∃ value, ret = .success value) → Accepted hart.pmu base mask configFlags eventIdx) := by
  have hrejected : ∀ e : SbiRet, (∀ value, e ≠ .success value) →
      Configured features hart.pmu base mask (configFlagsOf configFlags) eventIdx e hart ∧
        ((∃ value, e = .success value) → Accepted hart.pmu base mask configFlags eventIdx) :=
    fun e he => ⟨.of_error hpmu he, fun ⟨value, hvalue⟩ => absurd hvalue (he value)⟩
  unfold counterConfigMatching
  by_cases hflags : configFlags < 2 ^ 8
  · have hof : ConfigFlags.fromBits configFlags = some (configFlagsOf configFlags) := if_pos hflags
    rw [hof]
    generalize configFlagsOf configFlags = flags at hrejected ⊢
    simp only [ensures_bind, ensures_get]
    by_cases hset : CounterSetValid hart.pmu base mask
    · rw [counterSetInvalid_of_valid hpmu hset]
      simp only [ensures_pure, Bool.false_eq_true, if_false, ensures_ite, ensures_bind]
      split
      · exact hrejected _ (by simp)
      next hcheck =>
        have haccepted : Accepted hart.pmu base mask configFlags eventIdx := by
          refine ⟨hflags, hset, ?_, fun hfw => ?_⟩
          · by_contra h
            exact hcheck (Or.inl (Bool.not_eq_true _ ▸ h))
          · by_contra h
            exact hcheck (Or.inr ⟨hfw, Bool.not_eq_true _ ▸ h⟩)
        refine (ensures_matchCounter hpmu hset eventData).mono fun result hart₁ h => ?_
        cases result with
        | error e => exact ensures_pure.mpr ⟨h, fun _ => haccepted⟩
        | ok counterIdx =>
          rw [ensures_bind]
          refine h.mono fun done hart' hconfigured => ?_
          cases done <;> exact ensures_pure.mpr ⟨hconfigured, fun _ => haccepted⟩
    · rw [counterSetInvalid_of_not_valid hpmu hset]
      simp only [ensures_pure, if_true]
      exact hrejected _ (by simp)
  · have hof : ConfigFlags.fromBits configFlags = none := if_neg hflags
    rw [hof, ensures_pure]
    exact hrejected _ (by simp)

/-! ## Reading -/

/-- The value of a firmware counter as a supervisor reads it: the word of
`counter_fw_read`, with that of `counter_fw_read_hi` above it. -/
def readFirmwareCounter (counterIdx : Nat) : PmuM xlen (Option Nat) := do
  match ← counterFwRead counterIdx, ← counterFwReadHi counterIdx with
  | .success low, .success high => return some (high * xlen.words + low)
  | _, _ => return none

section Reading

variable {k event : Nat} {value : BitVec 64}

theorem returns_counterFwRead_cell (hpmu : WellNumbered features hart.pmu)
    (hk : k < firmwareCounterMax) (hevent : (hart.pmu.cell k).event = some event)
    (hvalid : EventIdx.firmwareEventValid ⟨event⟩ = true)
    (hvalue : (hart.pmu.cell k).value = some value) :
    Returns (counterFwRead (hart.pmu.hwCountersNum + k)) hart fun ret hart' =>
      ret = .success (value.setWidth xlen.bits).toNat ∧ hart' = hart := by
  have htotal := hpmu.total
  have hle := hpmu.total_le
  have hnotTotal : ¬ hart.pmu.totalCountersNum ≤ hart.pmu.hwCountersNum + k := by omega
  have hnotHw : ¬ hart.pmu.hwCountersNum + k < hart.pmu.hwCountersNum := by omega
  have hread : hart.pmu.activeEvent[hart.pmu.hwCountersNum + k]? = some event := hevent
  rw [Vector.getElem?_eq_some_iff] at hread
  obtain ⟨hread, hevent⟩ := hread
  have hcode : EventIdx.eventCode ⟨event⟩ ≠ 65535 := by
    intro hcode
    simp [EventIdx.firmwareEventValid, hcode] at hvalid
  obtain ⟨hslot, hvalue⟩ := Vector.getElem?_eq_some_iff.mp hvalue
  simp only [counterFwRead, getEventIdx, getFwCounter, returns_bind, returns_get, if_neg hnotTotal,
    hnotHw, and_false, false_or, if_false, returns_pure, returns_readAt, hevent, hvalid, if_true,
    hcode, returns_checkedSub, Nat.add_sub_cancel_left, hvalue]
  exact ⟨hread, by omega, hslot, trivial, trivial⟩

theorem returns_getFwCounter_cell (hpmu : WellNumbered features hart.pmu)
    (hk : k < firmwareCounterMax) (hvalue : (hart.pmu.cell k).value = some value) :
    Returns (getFwCounter hart.pmu (hart.pmu.hwCountersNum + k)) hart fun found hart' =>
      found = some value ∧ hart' = hart := by
  have htotal := hpmu.total
  have hrange : ¬ (hart.pmu.hwCountersNum + k < hart.pmu.hwCountersNum ∨
      hart.pmu.totalCountersNum ≤ hart.pmu.hwCountersNum + k) := by omega
  obtain ⟨hslot, hvalue⟩ := Vector.getElem?_eq_some_iff.mp hvalue
  simp only [getFwCounter, if_neg hrange, returns_bind, returns_checkedSub, returns_readAt,
    returns_pure, Nat.add_sub_cancel_left, hvalue]
  exact ⟨by omega, hslot, trivial, trivial⟩

theorem returns_readFirmwareCounter (hpmu : WellNumbered features hart.pmu)
    (hk : k < firmwareCounterMax) (hevent : (hart.pmu.cell k).event = some event)
    (hvalid : EventIdx.firmwareEventValid ⟨event⟩ = true)
    (hvalue : (hart.pmu.cell k).value = some value) :
    Returns (readFirmwareCounter (hart.pmu.hwCountersNum + k)) hart fun found hart' =>
      found = some value.toNat ∧ hart' = hart := by
  have hlow := returns_counterFwRead_cell hpmu hk hevent hvalid hvalue
  rw [readFirmwareCounter, returns_bind]
  refine hlow.mono ?_
  rintro ret hart' ⟨rfl, heq⟩
  obtain rfl := heq.symm
  rw [returns_bind]
  cases xlen with
  | rv64 =>
    simp only [counterFwReadHi, returns_pure]
    refine ⟨?_, trivial⟩
    rw [Nat.zero_mul, Nat.zero_add]
    exact congrArg (some ∘ BitVec.toNat) (BitVec.setWidth_eq value)
  | rv32 =>
    rw [counterFwReadHi, returns_bind]
    refine hlow.mono ?_
    rintro ret hart' ⟨rfl, heq⟩
    obtain rfl := heq.symm
    simp only [returns_bind, returns_get]
    refine (returns_getFwCounter_cell hpmu hk hvalue).mono ?_
    rintro found hart' ⟨rfl, heq⟩
    obtain rfl := heq.symm
    simp only [returns_pure]
    refine ⟨?_, trivial⟩
    have hjoin : (value >>> 32).toNat * 2 ^ 32 + (value.setWidth 32).toNat = value.toNat := by
      rw [BitVec.toNat_ushiftRight, BitVec.toNat_setWidth, Nat.shiftRight_eq_div_pow]
      omega
    exact congrArg some hjoin

end Reading

/-! ## The tally of one counter -/

/-- What the calls of a run have asked of one firmware counter: the code of the event
it is configured for, whether it is started, the value it was last set to and the
events of that code since, while it was started. -/
structure Tally where
  code : Option Nat
  started : Bool
  base : BitVec 64
  count : Nat
  deriving DecidableEq

namespace Tally

/-- A counter that nothing has been asked of. -/
def new : Tally := ⟨none, false, 0, 0⟩

def value (t : Tally) : BitVec 64 := t.base + BitVec.ofNat 64 t.count

/-- Sets the counter to a new value, or keeps the one it has. -/
def set (t : Tally) (value : Option (BitVec 64)) : Tally :=
  { t with base := value.getD t.value, count := 0 }

/-- Whether a call on a set has taken effect on the counter: one that succeeds has on
the whole set, and one that fails on the way only where the started flag changed. -/
def reached (hw k : Nat) (counters : CounterMask xlen) (before after : Bool) (ret : SbiRet) :
    Bool :=
  if ret = .success 0 then decide (hw + k ∈ counters.toList) else before != after

/-- The tally of firmware counter `k` after a step. -/
def after (t : Tally) (k : Nat) (hart : Hart xlen) (step : Step xlen) (ret : Option SbiRet)
    (hart' : Hart xlen) : Tally :=
  match step, ret with
  | .call (.counterConfigMatching _ _ flags eventIdx _), some (.success counterIdx) =>
    if EventIdx.isFirmwareEvent ⟨eventIdx.toNat⟩ = true ∧
        counterIdx = hart.pmu.hwCountersNum + k then
      { t.set (if (configFlagsOf flags.toNat).clearValue then some 0 else none) with
        code := some (EventIdx.eventCode ⟨eventIdx.toNat⟩)
        started := t.started || (configFlagsOf flags.toNat).autoStart }
    else t
  | .call (.counterStart base mask flags value), some ret =>
    if reached hart.pmu.hwCountersNum k ⟨base.toNat, mask⟩ t.started
        (hart'.pmu.cell k).started ret then
      { t.set (if flags.toNat.testBit 0 then some value else none) with started := true }
    else t
  | .call (.counterStop base mask flags), some ret =>
    if reached hart.pmu.hwCountersNum k ⟨base.toNat, mask⟩ t.started
        (hart'.pmu.cell k).started ret then
      { t with started := false, code := if flags.toNat.testBit 0 then none else t.code }
    else t
  | .event firmwareEvent, _ =>
    if t.started = true ∧ t.code = some firmwareEvent then { t with count := t.count + 1 } else t
  | _, _ => t

/-- The event of a cell is the one of the tally, under the encoding that the firmware
looks for; without one the cell counts nothing. -/
def Names (code event : Option Nat) : Prop :=
  match code with
  | some c => c ≤ 21 ∧ event = some (EventIdx.fromFirmwareEvent c).inner
  | none => ∀ c < 2 ^ 16, event ≠ some (EventIdx.fromFirmwareEvent c).inner

/-- The cell agrees with the tally. -/
structure Agrees (t : Tally) (c : Cell) : Prop where
  started : c.started = t.started
  value : c.value = some t.value
  names : Names t.code c.event

theorem set_value (t : Tally) (value : Option (BitVec 64)) :
    (t.set value).value = value.getD t.value := by
  simp [set, Tally.value]

end Tally

section Encoding

theorem fromFirmwareEvent_inner {c : Nat} (hc : c < 2 ^ 16) :
    (EventIdx.fromFirmwareEvent c).inner = 15 * 2 ^ 16 + c := by
  have hor : 0xf <<< 16 + c = 0xf <<< 16 ||| c := Nat.shiftLeft_add_eq_or_of_lt hc 0xf
  exact hor.symm

theorem fromFirmwareEvent_inj {c d : Nat} (hc : c < 2 ^ 16) (hd : d < 2 ^ 16)
    (h : (EventIdx.fromFirmwareEvent c).inner = (EventIdx.fromFirmwareEvent d).inner) : c = d := by
  rw [fromFirmwareEvent_inner hc, fromFirmwareEvent_inner hd] at h
  omega

theorem firmwareEventValid_fromFirmwareEvent {c : Nat} (hc : c ≤ 21) :
    EventIdx.firmwareEventValid (EventIdx.fromFirmwareEvent c) = true := by
  have hlt : c < 2 ^ 16 := by omega
  have hinner := fromFirmwareEvent_inner hlt
  have htype : (EventIdx.fromFirmwareEvent c).eventType = 15 := by
    simp only [EventIdx.eventType, hinner, Nat.shiftRight_eq_div_pow]
    rw [show (0xF : Nat) = 2 ^ 4 - 1 from rfl, Nat.and_two_pow_sub_one_eq_mod]
    omega
  have hcode : (EventIdx.fromFirmwareEvent c).eventCode = c := by
    simp only [EventIdx.eventCode, hinner]
    rw [show (0xFFFF : Nat) = 2 ^ 16 - 1 from rfl, Nat.and_two_pow_sub_one_eq_mod]
    omega
  simp only [EventIdx.firmwareEventValid, htype, hcode]
  rw [if_neg (by decide), if_neg (by omega)]

theorem eventCode_le_of_valid {event : EventIdx} (h : event.firmwareEventValid = true) :
    event.eventCode ≤ 21 := by
  simp only [EventIdx.firmwareEventValid] at h
  split_ifs at h with htype hcode
  omega

/-- The value that marks a counter without an event is no firmware event. -/
theorem eventIdxInvalid_ne {c : Nat} (hc : c < 2 ^ 16) :
    eventIdxInvalid xlen ≠ (EventIdx.fromFirmwareEvent c).inner := by
  rw [fromFirmwareEvent_inner hc]
  cases xlen <;> simp only [eventIdxInvalid, Xlen.usizeMax, Xlen.words, Xlen.bits] <;> omega

end Encoding

/-! ## A step keeps the agreement -/

/-- What a step has to meet for the counters to count what they are configured for. An
accepted configuration for a firmware event leaves the counter that it takes with the
index `0xf0000 | code`; the firmware delivers events under the 16-bit codes of
`firmware_event`. -/
def NamesEvent (pmu : PmuState xlen) : Step xlen → Prop
  | .call (.counterConfigMatching base mask flags eventIdx _) =>
    Accepted pmu base.toNat mask flags.toNat eventIdx.toNat →
      EventIdx.isFirmwareEvent ⟨eventIdx.toNat⟩ = true →
      ∀ j < firmwareCounterMax, Takes pmu base.toNat mask (flags.toNat.testBit 0) j →
        (if flags.toNat.testBit 0 then (pmu.cell j).event else some eventIdx.toNat) =
          some (EventIdx.fromFirmwareEvent (EventIdx.eventCode ⟨eventIdx.toNat⟩)).inner
  | .event firmwareEvent => firmwareEvent < 2 ^ 16
  | _ => True

namespace Tally

variable {k : Nat} {t : Tally} {hart' : Hart xlen}

theorem names_invalid : Names none (some (eventIdxInvalid xlen)) := by
  intro c hc h
  exact eventIdxInvalid_ne hc (Option.some.inj h)

/-- A cell counts an event exactly when the tally does. -/
theorem Agrees.counts_iff {c : Cell} (h : t.Agrees c) {firmwareEvent : Nat}
    (hevent : firmwareEvent < 2 ^ 16) :
    c.Counts firmwareEvent ↔ t.started = true ∧ t.code = some firmwareEvent := by
  rw [Cell.Counts, h.started, and_congr_right_iff]
  intro _
  have hnames := h.names
  cases hcode : t.code with
  | none =>
    rw [hcode] at hnames
    exact iff_of_false (hnames firmwareEvent hevent) (by simp)
  | some d =>
    rw [hcode] at hnames
    obtain ⟨hd, hcell⟩ := hnames
    rw [hcell, Option.some.injEq, Option.some.injEq]
    constructor
    · exact fun heq => fromFirmwareEvent_inj (by omega) hevent heq
    · exact fun heq => by rw [heq]

theorem Agrees.count {c : Cell} (h : t.Agrees c) {firmwareEvent : Nat}
    (hevent : firmwareEvent < 2 ^ 16) :
    (if t.started = true ∧ t.code = some firmwareEvent then { t with count := t.count + 1 }
      else t).Agrees (c.count firmwareEvent) := by
  have hiff := h.counts_iff hevent
  rw [Cell.count]
  by_cases hcounts : c.Counts firmwareEvent
  · rw [if_pos hcounts, if_pos (hiff.mp hcounts)]
    refine ⟨h.started, ?_, h.names⟩
    have hvalue : t.base + BitVec.ofNat 64 (t.count + 1) = t.value + 1 := by
      rw [Tally.value, BitVec.ofNat_add, BitVec.add_assoc]
      rfl
    rw [h.value]
    exact congrArg some hvalue.symm
  · rw [if_neg hcounts, if_neg (hcounts ∘ hiff.mpr)]
    exact h

theorem Agrees.start {c : Cell} (h : t.Agrees c) (isUpdate : Bool) (value : BitVec 64) :
    Agrees { t.set (if isUpdate then some value else none) with started := true }
      (c.start isUpdate value) := by
  refine ⟨rfl, ?_, h.names⟩
  have hvalue := t.set_value (if isUpdate then some value else none)
  cases isUpdate with
  | true => exact congrArg some hvalue.symm
  | false => exact h.value.trans (congrArg some hvalue.symm)

theorem Agrees.stop {c : Cell} (h : t.Agrees c) (isReset : Bool) :
    Agrees { t with started := false, code := if isReset then none else t.code }
      (c.stop xlen isReset) := by
  refine ⟨rfl, h.value, ?_⟩
  cases isReset with
  | true => exact names_invalid
  | false => exact h.names

theorem Agrees.configure {c : Cell} (h : t.Agrees c) (flags : ConfigFlags) {eventIdx : Nat}
    (hvalid : EventIdx.firmwareEventValid ⟨eventIdx⟩ = true)
    (hnames : (if flags.skipMatch then c.event else some eventIdx) =
      some (EventIdx.fromFirmwareEvent (EventIdx.eventCode ⟨eventIdx⟩)).inner) :
    Agrees { t.set (if flags.clearValue then some 0 else none) with
        code := some (EventIdx.eventCode ⟨eventIdx⟩)
        started := t.started || flags.autoStart } (c.configure flags eventIdx) := by
  refine ⟨?_, ?_, eventCode_le_of_valid hvalid, hnames⟩
  · rw [Cell.configure, h.started]
  · have hvalue := t.set_value (if flags.clearValue then some 0 else none)
    rw [Cell.configure]
    cases hclear : flags.clearValue with
    | true =>
      rw [hclear] at hvalue
      exact congrArg some hvalue.symm
    | false =>
      rw [hclear] at hvalue
      exact h.value.trans (congrArg some hvalue.symm)

/-- A call on a set changes the tally where it changes the cell. -/
theorem Agrees.changes {base : Nat} {mask : BitVec xlen.bits} {before : Cell → Prop}
    {after : Cell → Cell} {ret : SbiRet} {t' : Tally} (hk : k < firmwareCounterMax)
    (h : t.Agrees (hart.pmu.cell k))
    (hchanges : ChangesCells features hart.pmu (CounterMask.toList ⟨base, mask⟩) before after ret
      hart')
    (hflips : ∀ c, before c → (after c).started ≠ c.started)
    (hafter : t'.Agrees (after (hart.pmu.cell k))) :
    (if reached hart.pmu.hwCountersNum k ⟨base, mask⟩ t.started (hart'.pmu.cell k).started ret
      then t' else t).Agrees (hart'.pmu.cell k) := by
  rcases hchanges.2 k hk with ⟨hsame, hmissed⟩ | ⟨hmem, hbefore, hcell⟩
  · have hnot : reached hart.pmu.hwCountersNum k ⟨base, mask⟩ t.started
        (hart'.pmu.cell k).started ret = false := by
      rw [reached]
      split
      next hret => exact decide_eq_false (hmissed hret)
      next => rw [hsame, h.started, bne_self_eq_false]
    rw [hnot, if_neg Bool.false_ne_true, hsame]
    exact h
  · have hreached : reached hart.pmu.hwCountersNum k ⟨base, mask⟩ t.started
        (hart'.pmu.cell k).started ret = true := by
      rw [reached]
      split
      next => exact decide_eq_true hmem
      next =>
        rw [hcell, bne_iff_ne, ← h.started]
        exact (hflips _ hbefore).symm
    rw [hreached, if_pos rfl, hcell]
    exact hafter

/-- What a step does to the agreement of a tally with firmware counter `k`. -/
theorem Agrees.after_call (hpmu : WellNumbered features hart.pmu) (hk : k < firmwareCounterMax)
    (h : t.Agrees (hart.pmu.cell k)) {call : Call xlen} (hnames : NamesEvent hart.pmu (.call call)) :
    Ensures (call.handle features sbiPmu) hart fun ret hart' =>
      (t.after k hart (.call call) (some ret) hart').Agrees (hart'.pmu.cell k) := by
  have hread : ∀ {p : PmuM xlen SbiRet}, (Returns p hart fun _ hart' => hart' = hart) →
      Ensures p hart fun _ hart' => t.Agrees (hart'.pmu.cell k) := fun hp =>
    hp.ensures.mono fun _ _ heq => heq ▸ h
  cases call with
  | counterConfigMatching base mask flags eventIdx eventData =>
    refine (ensures_counterConfigMatching hpmu _ _ _ _ _).mono ?_
    rintro ret hart' ⟨⟨-, ⟨hfw, j, hj, rfl, htakes, hsets⟩ | ⟨hsame, hfailed⟩⟩, haccepted⟩
    · have haccepted := haccepted ⟨_, rfl⟩
      have hcell := hsets k hk
      simp only [after, hfw, true_and, Nat.add_left_cancel_iff]
      by_cases hjk : j = k
      · subst hjk
        rw [if_pos rfl] at hcell
        rw [if_pos rfl, hcell]
        exact h.configure _ (haccepted.2.2.2 hfw) (hnames haccepted hfw j hj htakes)
      · rw [if_neg (Ne.symm hjk)] at hcell
        rw [if_neg hjk, hcell]
        exact h
    · have hunchanged : t.after k hart
          (.call (.counterConfigMatching base mask flags eventIdx eventData)) (some ret) hart' = t := by
        cases ret with
        | success counterIdx =>
          exact if_neg fun hboth => hfailed hboth.1 counterIdx rfl
        | _ => rfl
      rw [hunchanged, hsame k hk]
      exact h
  | counterStart base mask flags value =>
    refine (ensures_counterStart hpmu _ _ _ _).mono fun ret hart' hchanges => ?_
    refine h.changes hk hchanges ?_ (h.start _ value)
    intro c hbefore
    simp [Cell.start, hbefore]
  | counterStop base mask flags =>
    refine (ensures_counterStop hpmu _ _ _).mono fun ret hart' hchanges => ?_
    refine h.changes hk hchanges ?_ (h.stop _)
    intro c hbefore
    simp [Cell.stop, hbefore]
  | numCounters => exact hread (by simp [Call.handle, Pmu.numCounters])
  | counterGetInfo counterIdx => exact hread (returns_counterGetInfo _)
  | counterFwRead counterIdx => exact hread (returns_counterFwRead hpmu _)
  | counterFwReadHi counterIdx => exact hread (returns_counterFwReadHi hpmu _)
  | snapshotSetShmem lo hi flags => exact hread (returns_pure.mpr rfl)

theorem Agrees.after_step (hpmu : WellNumbered features hart.pmu) (hk : k < firmwareCounterMax)
    (h : t.Agrees (hart.pmu.cell k)) {step : Step xlen} (hnames : NamesEvent hart.pmu step) :
    Ensures (step.run features sbiPmu) hart fun ret hart' =>
      (t.after k hart step ret hart').Agrees (hart'.pmu.cell k) := by
  cases step with
  | call call =>
    rw [Step.run, ensures_map]
    exact h.after_call hpmu hk hnames
  | event firmwareEvent =>
    simp only [Step.run, ensures_bind, ensures_pure]
    refine (ensures_pmuFirmwareCounterIncrement hpmu firmwareEvent).mono ?_
    rintro _ hart' ⟨-, hcells⟩
    rw [hcells k hk]
    exact h.count hnames
  | hardware csrs =>
    simp only [Step.run, ensures_bind, ensures_modify, ensures_pure]
    exact h

/-- No counter has a firmware event at boot. -/
theorem new_agrees (features : HartFeatures) (csrs : Csrs xlen) (hk : k < firmwareCounterMax) :
    new.Agrees ((boot features csrs).pmu.cell k) := by
  refine ⟨by simp [boot, PmuState.new, PmuState.cell, new], ?_, fun c hc h => ?_⟩
  · have hslot : (Vector.replicate firmwareCounterMax (0 : BitVec 64))[k]? = some 0 := by
      rw [Vector.getElem?_replicate, if_pos hk]
    exact hslot
  · -- The fixed counters have the cycle and the instruction event.
    obtain ⟨hidx, hevent⟩ := Vector.getElem?_eq_some_iff.mp h
    simp only [boot, PmuState.new, Vector.getElem_set, Vector.getElem_replicate,
      fromFirmwareEvent_inner hc] at hevent
    split_ifs at hevent
    · omega
    · omega
    · exact eventIdxInvalid_ne hc (hevent.trans (fromFirmwareEvent_inner hc).symm)

end Tally

/-! ## Runs -/

/-- A step of a hart together with the tally of its firmware counter `k`. -/
def CountStep (features : HartFeatures) (sbiPmu : SbiPmu) (k : Nat) (s : Hart xlen × Tally)
    (step : Step xlen) (s' : Hart xlen × Tally) : Prop :=
  ∃ ret, step.run features sbiPmu s.1 = .ok (ret, s'.1) ∧ s'.2 = s.2.after k s.1 step ret s'.1

/-- Executes a step together with the tally of counter `k`. -/
def countStep (features : HartFeatures) (sbiPmu : SbiPmu) (k : Nat) (s : Hart xlen × Tally)
    (step : Step xlen) : Option (Hart xlen × Tally) :=
  match step.run features sbiPmu s.1 with
  | .error _ => none
  | .ok (ret, hart') => some (hart', s.2.after k s.1 step ret hart')

theorem countStep_sound {k : Nat} {s s' : Hart xlen × Tally} {step : Step xlen}
    (h : countStep features sbiPmu k s step = some s') : CountStep features sbiPmu k s step s' := by
  rw [countStep] at h
  split at h
  next => cases h
  next ret hart' hrun =>
    cases h
    exact ⟨ret, hrun, rfl⟩

/-- In every run from boot whose configurations leave each counter with the index that
the firmware looks for, a counter that is configured for a firmware event reads as
the value it was last set to plus the events of its code while it was started. -/
theorem firmware_counters_count_exactly (xlen : Xlen) (features : HartFeatures) (sbiPmu : SbiPmu)
    (csrs : Csrs xlen) (k : Nat) (hk : k < firmwareCounterMax) (steps : List (Step xlen))
    (hart : Hart xlen) (tally : Tally)
    (hrun : Transition.Run (fun s step s' => CountStep features sbiPmu k s step s' ∧
      NamesEvent s.1.pmu step) (boot features csrs, Tally.new) steps (hart, tally))
    (hconfigured : tally.code.isSome) :
    readFirmwareCounter (hart.pmu.hwCountersNum + k) hart =
      .ok (some (tally.base + BitVec.ofNat 64 tally.count).toNat, hart) := by
  have hinv : WellNumbered features hart.pmu ∧ tally.Agrees (hart.pmu.cell k) := by
    refine hrun.invariant (P := fun s => WellNumbered features s.1.pmu ∧
      s.2.Agrees (s.1.pmu.cell k)) ?_ ⟨.new xlen features, Tally.new_agrees features csrs hk⟩
    rintro ⟨hart, tally⟩ step ⟨hart', tally'⟩ ⟨hpmu, h⟩ ⟨⟨ret, hstep, htally⟩, hnames⟩
    refine ⟨step_wellNumbered hpmu hstep, ?_⟩
    rw [htally]
    exact h.after_step hpmu hk hnames ret hart' hstep
  obtain ⟨hpmu, hstarted, hvalue, hnames⟩ := hinv
  obtain ⟨c, hcode⟩ := Option.isSome_iff_exists.mp hconfigured
  rw [hcode] at hnames
  obtain ⟨_, _, hread, rfl, rfl⟩ := returns_readFirmwareCounter hpmu hk hnames.2
    (firmwareEventValid_fromFirmwareEvent hnames.1) hvalue
  exact hread

/-- A counter is started at `0xffffffff` on RV32, so that the next event carries into the
high word. -/
theorem firmware_counters_count_exactly_carry :
    let features : HartFeatures := ⟨.version1_12, 7⟩
    let sbiPmu : SbiPmu := ⟨none, none, none⟩
    let csrs : Csrs .rv32 := ⟨0, fun _ => 0, fun _ => 0⟩
    let steps : List (Step .rv32) :=
      [.call (.counterConfigMatching 3 1 4 0xf0005 0), .event 5, .event 6,
        .call (.counterStop 3 1 0), .event 5, .call (.counterStart 3 1 1 0xffffffff), .event 5]
    ∃ hart, Transition.Run (fun s step s' => CountStep features sbiPmu 0 s step s' ∧
        NamesEvent s.1.pmu step) (boot features csrs, Tally.new) steps
        (hart, ⟨some 5, true, 0xffffffff, 1⟩) ∧
      readFirmwareCounter (hart.pmu.hwCountersNum + 0) hart = .ok (some 0x100000000, hart) := by
  intro features sbiPmu csrs steps
  have hend : (steps.foldlM (countStep features sbiPmu 0) (boot features csrs, Tally.new)).map
      (·.2) = some ⟨some 5, true, 0xffffffff, 1⟩ := by decide +kernel
  obtain ⟨⟨hart, tally⟩, hsteps, rfl⟩ := Option.map_eq_some_iff.mp hend
  have hrun := Transition.Run.of_foldlM (fun _ _ _ => countStep_sound) hsteps
  have hnames : ∀ step ∈ steps, ∀ s : Hart .rv32 × Tally, NamesEvent s.1.pmu step := by
    intro step hmem s
    simp only [steps, List.mem_cons, List.not_mem_nil, or_false] at hmem
    rcases hmem with rfl | rfl | rfl | rfl | rfl | rfl | rfl
    · exact fun _ _ _ _ _ => rfl
    all_goals first | exact trivial | exact (by decide : (5 : Nat) < 2 ^ 16) |
      exact (by decide : (6 : Nat) < 2 ^ 16)
  have hrun := hrun.and_label hnames
  exact ⟨hart, hrun, firmware_counters_count_exactly .rv32 features sbiPmu csrs 0 (by decide) steps
    hart _ hrun rfl⟩

/-- A counter whose accepted index has a bit above the event type counts nothing, and one
that is reused for another code under `SKIP_MATCH` still counts the old one. -/
theorem firmware_counters_miss_events :
    let features : HartFeatures := ⟨.version1_12, 7⟩
    let sbiPmu : SbiPmu := ⟨none, none, none⟩
    let csrs : Csrs .rv64 := ⟨0, fun _ => 0, fun _ => 0⟩
    (∃ hart, Transition.Run (CountStep features sbiPmu 0) (boot features csrs, Tally.new)
        [.call (.counterConfigMatching 3 1 4 0x1f0005 0), .event 5]
        (hart, ⟨some 5, true, 0, 1⟩) ∧
      (readFirmwareCounter (hart.pmu.hwCountersNum + 0) hart).toOption.map (·.1) = some (some 0)) ∧
    (∃ hart, Transition.Run (CountStep features sbiPmu 0) (boot features csrs, Tally.new)
        [.call (.counterConfigMatching 3 1 0 0xf0005 0),
          .call (.counterConfigMatching 3 1 5 0xf0006 0), .event 6]
        (hart, ⟨some 6, true, 0, 1⟩) ∧
      (readFirmwareCounter (hart.pmu.hwCountersNum + 0) hart).toOption.map (·.1) = some (some 0)) := by
  intro features sbiPmu csrs
  have hmiss : ∀ (steps : List (Step .rv64)) (tally : Tally),
      (steps.foldlM (countStep features sbiPmu 0) (boot features csrs, Tally.new)).map
          (fun s => (s.2, (readFirmwareCounter (s.1.pmu.hwCountersNum + 0) s.1).toOption.map (·.1)))
        = some (tally, some (some 0)) →
      ∃ hart, Transition.Run (CountStep features sbiPmu 0) (boot features csrs, Tally.new) steps
          (hart, tally) ∧
        (readFirmwareCounter (hart.pmu.hwCountersNum + 0) hart).toOption.map (·.1) = some (some 0) := by
    intro steps tally hend
    obtain ⟨⟨hart, tally'⟩, hsteps, heq⟩ := Option.map_eq_some_iff.mp hend
    obtain ⟨rfl, hread⟩ := Prod.mk.inj heq
    exact ⟨hart, Transition.Run.of_foldlM (fun _ _ _ => countStep_sound) hsteps, hread⟩
  constructor
  · exact hmiss _ _ (by decide +kernel)
  · exact hmiss _ _ (by decide +kernel)

end RustSbi.Pmu
