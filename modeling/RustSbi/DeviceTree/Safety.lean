import RustSbi.DeviceTree.Header
import RustSbi.DeviceTree.Tokens

/-!
No input makes the parser panic. Every access that the source does not check is in
bounds for a reason that the code around it gives: a terminator that was found, a
token that was read, a depth that was tested.
-/

namespace RustSbi.DeviceTree

open Bytes

/-! ## Calls that do not panic -/

section Safe

variable {α β : Type}

/-- The call returns, or ends with an error of its own. -/
def Safe (p : Fallible α) : Prop := ∀ panic, p ≠ .error (.panic panic)

@[simp] theorem safe_ok {a : α} : Safe (.ok a : Fallible α) := nofun

@[simp] theorem safe_pure {a : α} : Safe (pure a : Fallible α) := nofun

@[simp] theorem safe_fail {e : Error} : Safe (fail e : Fallible α) := nofun

@[simp] theorem safe_orFail {o : Option α} {e : Error} : Safe (orFail o e) := by
  cases o <;> simp [orFail]

@[simp] theorem safe_reject {c : Bool} {e : Error} : Safe (reject c e) := by
  cases c <;> simp [reject]

theorem safe_bind_iff {p : Fallible α} {f : α → Fallible β} :
    Safe (p >>= f) ↔ Safe p ∧ ∀ a, p = .ok a → Safe (f a) := by
  cases p with
  | error stop =>
    simp only [reduceCtorEq, false_implies, implies_true, and_true]
    constructor
    · rintro h panic ⟨⟩
      exact h panic rfl
    · rintro h panic ⟨⟩
      exact h panic rfl
  | ok a => simp

@[simp] theorem safe_map_iff {p : Fallible α} {f : α → β} : Safe (f <$> p) ↔ Safe p := by
  rw [map_eq_pure_bind, safe_bind_iff]
  simp

theorem Safe.bind {p : Fallible α} {f : α → Fallible β} (hp : Safe p)
    (hf : ∀ a, p = .ok a → Safe (f a)) : Safe (p >>= f) :=
  safe_bind_iff.mpr ⟨hp, hf⟩

/-- A call that does not panic and does not return ends with an error. -/
theorem Safe.exists_error {p : Fallible α} (h : Safe p) (hno : ∀ a, p ≠ .ok a) :
    ∃ e, p = fail e := by
  cases p with
  | ok a => exact (hno a rfl).elim
  | error stop =>
    cases stop with
    | error e => exact ⟨e, rfl⟩
    | panic panic => exact (h panic rfl).elim

theorem safe_indexTo {bytes : ByteString} {stop : Nat} (h : stop ≤ bytes.length) :
    Safe (indexTo bytes stop) := by
  rw [indexTo, if_pos h]
  exact safe_ok

theorem safe_indexFrom {bytes : ByteString} {start : Nat} (h : start ≤ bytes.length) :
    Safe (indexFrom bytes start) := by
  rw [indexFrom, if_pos h]
  exact safe_ok

end Safe

/-! ## Reads -/

section Reads

variable {xlen : Xlen}

@[simp] theorem safe_addUsize {a b : Nat} : Safe (addUsize xlen a b) := safe_orFail

@[simp] theorem safe_readU32 {bytes : ByteString} {offset : Nat} :
    Safe (readU32 xlen bytes offset) := by
  simp [readU32, safe_bind_iff]

@[simp] theorem safe_readUsize {bytes : ByteString} {offset : Nat} :
    Safe (readUsize xlen bytes offset) := by
  refine safe_readU32.bind fun value _ => ?_
  split
  · exact safe_pure
  · exact safe_fail

@[simp] theorem safe_alignUp {value alignment : Nat} : Safe (alignUp xlen value alignment) := by
  simp [alignUp]

@[simp] theorem safe_checkedSlice {source : ByteString} {offset length totalSize : Nat} :
    Safe (checkedSlice xlen source offset length totalSize) := by
  simp [checkedSlice, safe_bind_iff]

@[simp] theorem safe_takeU32 {bytes : ByteString} {offset : Nat} :
    Safe (takeU32 xlen bytes offset) := by
  simp [takeU32, safe_bind_iff]

/-- A terminator that was found stands inside the tail. -/
theorem le_length_of_findIdx {tail : ByteString} {length : Nat}
    (h : tail.findIdx? (· == 0) = some length) : length ≤ tail.length :=
  (List.findIdx?_eq_some_iff_getElem.mp h).1.le

@[simp] theorem safe_takeCString {bytes : ByteString} {offset : Nat} :
    Safe (takeCString xlen bytes offset) := by
  refine safe_orFail.bind fun tail _ => safe_orFail.bind fun length hlength => ?_
  have hle := le_length_of_findIdx (orFail_eq_ok_iff.mp hlength)
  exact (safe_indexTo hle).bind fun name _ => by simp [safe_bind_iff]

@[simp] theorem safe_takeAligned {bytes : ByteString} {offset length : Nat} :
    Safe (takeAligned xlen bytes offset length) := by
  simp [takeAligned, safe_bind_iff]

@[simp] theorem safe_stringAt {strings : ByteString} {offset : Nat} :
    Safe (stringAt strings offset) := by
  refine safe_orFail.bind fun tail _ => safe_orFail.bind fun length hlength => ?_
  have hle := le_length_of_findIdx (orFail_eq_ok_iff.mp hlength)
  exact (safe_indexTo hle).bind fun name _ => by simp

@[simp] theorem safe_takeProperty {structureBlock strings : ByteString} {offset : Nat} :
    Safe (takeProperty xlen structureBlock strings offset) := by
  simp [takeProperty, safe_bind_iff]

@[simp] theorem safe_singleCell {value : ByteString} : Safe (singleCell xlen value) := by
  simp [singleCell, safe_bind_iff]

@[simp] theorem safe_validateRegLength {value : ByteString} {cells : CellCounts} :
    Safe (validateRegLength xlen value cells) := by
  simp [validateRegLength, safe_bind_iff]

/-! ## The header -/

theorem safe_reservationRun (source : ByteString) (totalSize offset : Nat) :
    Safe (reservationRun xlen source totalSize offset) := by
  refine Loop.induction (motive := fun offset => Safe (reservationRun xlen source totalSize offset))
    (reservationStep_decreases xlen source totalSize) (fun offset ih => ?_) offset
  have hentry : Safe (reservationEntry xlen source totalSize offset) := by
    simp [reservationEntry, safe_bind_iff]
  cases hstep : reservationStep xlen source totalSize offset with
  | inl next =>
    rw [reservationRun, Loop.run_of_inl hstep]
    exact ih next hstep
  | inr result =>
    rw [reservationRun, Loop.run_of_inr hstep]
    unfold reservationStep at hstep
    split at hstep
    · next stop hstop =>
      cases hstep
      rintro panic ⟨⟩
      exact hentry panic hstop
    · split at hstep
      · cases hstep
        exact safe_ok
      · cases hstep

theorem safe_reservationMapEnd (source : ByteString) (start totalSize : Nat) :
    Safe (reservationMapEnd xlen source start totalSize) :=
  safe_reject.bind fun _ _ => safe_reservationRun source totalSize start

/-- The reservation map that was found is a part of the source. -/
theorem safe_indexReservations {source : ByteString} {start totalSize stop : Nat}
    (htotal : totalSize ≤ source.length)
    (h : reservationMapEnd xlen source start totalSize = .ok stop) :
    Safe (indexRange source start stop) := by
  simp only [reservationMapEnd, bind_eq_ok_iff] at h
  obtain ⟨-, -, hrun⟩ := h
  have hrun : reservationRun xlen source totalSize start = .ok stop := hrun
  obtain ⟨map, -, -, rfl, hstop, -⟩ := map_of_reservationRun hrun
  obtain ⟨part, hpart⟩ := exists_slice (Nat.le_add_right start map.length) (hstop.trans htotal)
  rw [indexRange, hpart]
  exact safe_ok

theorem safe_parse (source : ByteString) : Safe (Layout.parse xlen source) := by
  refine safe_reject.bind fun _ _ => safe_readU32.bind fun _ _ => safe_reject.bind fun _ _ =>
    safe_readUsize.bind fun totalSize _ => safe_reject.bind fun _ htotal =>
    safe_readU32.bind fun _ _ => safe_readU32.bind fun _ _ => safe_reject.bind fun _ _ => ?_
  have hle : totalSize ≤ source.length := by
    simp only [reject_eq_ok_iff, Bool.not_eq_eq_eq_not, Bool.not_false, Bool.and_eq_true,
      decide_eq_true_eq] at htotal
    exact htotal.2
  refine safe_readUsize.bind fun _ _ => safe_readUsize.bind fun _ _ =>
    safe_readUsize.bind fun reservationsOffset _ => safe_readUsize.bind fun _ _ =>
    safe_readUsize.bind fun _ _ => safe_reject.bind fun _ _ => safe_checkedSlice.bind fun _ _ =>
    safe_checkedSlice.bind fun _ _ => (safe_reservationMapEnd _ _ _).bind fun stop hstop => ?_
  refine safe_addUsize.bind fun _ _ => safe_addUsize.bind fun _ _ => safe_reject.bind fun _ _ => ?_
  exact (safe_indexReservations hle hstop).bind fun _ _ => safe_pure

end Reads

/-! ## Walks -/

section Walks

variable {xlen : Xlen} {σ ρ : Type} {structureBlock strings : ByteString}

/-- The arms of a walk do not panic on states with the invariant, and keep it. -/
structure Visitor.SafeOn (visitor : Visitor σ ρ) (structureBlock : ByteString) (Inv : σ → Prop) :
    Prop where
  beginNode : ∀ offset name s, Inv s → Safe (visitor.beginNode offset name s) ∧
    ∀ s', visitor.beginNode offset name s = .ok s' → Inv s'
  checkProperty : ∀ s, Inv s → Safe (visitor.checkProperty s)
  property : ∀ name value s, Inv s → visitor.checkProperty s = .ok () →
    Safe (visitor.property name value s) ∧
      ∀ s', visitor.property name value s = .ok s' → Inv s'
  endNode : ∀ offset stop s, Inv s → Safe (visitor.endNode offset stop s) ∧
    ∀ s', visitor.endNode offset stop s = .ok s' → Inv s'
  finish : ∀ offset s, offset ≤ structureBlock.length → Inv s → Safe (visitor.finish offset s)

namespace Visitor

variable {visitor : Visitor σ ρ} {Inv : σ → Prop}

theorem SafeOn.round (h : visitor.SafeOn structureBlock Inv) (offset : Nat) {s : σ} (hs : Inv s) :
    Safe (visitor.round xlen structureBlock strings offset s) ∧
      ∀ next s', visitor.round xlen structureBlock strings offset s = .ok (.inr (next, s')) →
        Inv s' := by
  refine ⟨safe_takeU32.bind fun p hp => ?_, fun next s' hround => ?_⟩
  · obtain ⟨token, after⟩ := p
    obtain ⟨-, hword, rfl, -⟩ := takeU32_eq_ok_iff.mp hp
    have hle := hword.le_length
    rw [length_beBytes] at hle
    dsimp only
    split
    · exact safe_takeCString.bind fun p _ => (h.beginNode offset p.1 s hs).1.bind fun _ _ => safe_pure
    split
    · exact (h.checkProperty s hs).bind fun _ hcheck => safe_takeProperty.bind fun p _ =>
        (h.property p.1 p.2.1 s hs hcheck).1.bind fun _ _ => safe_pure
    split
    · exact (h.endNode offset _ s hs).1.bind fun _ _ => safe_pure
    split
    · exact safe_pure
    split
    · exact (h.finish _ s hle hs).bind fun _ _ => safe_pure
    · exact safe_fail
  · obtain ⟨raw, token, -, -, -, hvisit⟩ := visitor.round_token hround
    cases token with
    | beginNode name => exact (h.beginNode offset name s hs).2 s' hvisit
    | property name value =>
      obtain ⟨_, hcheck, hproperty⟩ := bind_eq_ok_iff.mp hvisit
      exact (h.property name value s hs hcheck).2 s' hproperty
    | endNode => exact (h.endNode offset next s hs).2 s' hvisit
    | nop =>
      cases hvisit
      exact hs

/-- A walk does not panic. -/
theorem SafeOn.walk (h : visitor.SafeOn structureBlock Inv) (offset : Nat) {s : σ} (hs : Inv s) :
    Safe (visitor.walk xlen structureBlock strings offset s) := by
  induction hn : structureBlock.length - offset using Nat.strong_induction_on
    generalizing offset s with
  | _ n ih =>
    obtain ⟨hround, hkeep⟩ : Safe (visitor.round xlen structureBlock strings offset s) ∧ _ :=
      h.round offset hs
    by_cases hlt : offset < structureBlock.length
    · rw [Visitor.walk_unfold hlt]
      refine hround.bind fun next hnext => ?_
      cases next with
      | inl result => exact safe_ok
      | inr p =>
        have hadvances := visitor.round_advances xlen structureBlock strings offset s p.1 p.2 hnext
        exact ih _ (by omega) p.1 (hkeep p.1 p.2 hnext) rfl
    · have hstep : walkStep structureBlock (visitor.round xlen structureBlock strings) (offset, s) =
          .inr (fail .invalidArgs) := by
        rw [walkStep, if_neg hlt]
      rw [Visitor.walk, Loop.run_of_inr hstep]
      exact safe_fail

end Visitor

theorem safe_checkTrailing {offset : Nat} (h : offset ≤ structureBlock.length) :
    Safe (checkTrailing structureBlock offset) :=
  (safe_indexFrom h).bind fun _ _ => safe_reject

/-! ## Validation -/

namespace ValidationState

/-- The depth is one of the array. -/
def Bounded (s : ValidationState) : Prop := s.depth ≤ maxFdtDepth

theorem safe_indexBack {s : ValidationState} {back : Nat} (h : back ≤ s.depth) :
    Safe (s.indexBack back) := by
  rw [indexBack, if_pos h]
  exact safe_ok

theorem safe_nodeAt {s : ValidationState} {i : Nat} (h : i < maxFdtDepth) : Safe (s.nodeAt i) := by
  rw [nodeAt, dif_pos h]
  exact safe_ok

theorem safe_setNode {s : ValidationState} {i : Nat} (h : i < maxFdtDepth) (node : ValidationNode) :
    Safe (s.setNode i node) := by
  rw [setNode, dif_pos h]
  exact safe_ok

theorem depth_of_setNode {s s' : ValidationState} {i : Nat} {node : ValidationNode}
    (h : s.setNode i node = .ok s') : s'.depth = s.depth := by
  unfold setNode at h
  split at h
  · cases h
    rfl
  · cases h

/-- The index of the innermost open node. -/
theorem lt_of_indexBack {s : ValidationState} (hs : s.Bounded) {back i : Nat} (hback : 0 < back)
    (h : s.indexBack back = .ok i) : i < maxFdtDepth := by
  unfold indexBack at h
  unfold Bounded at hs
  split at h
  · cases h
    have hpos : 0 < maxFdtDepth := by decide
    omega
  · cases h

theorem safe_enter {s : ValidationState} (hs : s.Bounded) (name : ByteString) :
    Safe (s.enter name) := by
  unfold enter
  split
  · exact safe_reject.bind fun _ _ => safe_pure
  · refine (safe_indexBack (by omega)).bind fun i hi => ?_
    have hlt := lt_of_indexBack hs Nat.one_pos hi
    exact (safe_nodeAt hlt).bind fun _ _ => safe_setNode hlt _

theorem safe_property {xlen : Xlen} {s : ValidationState} (hs : s.Bounded) (hopen : 1 ≤ s.depth)
    (name value : ByteString) : Safe (s.property xlen name value) := by
  have hparent : Safe s.parentCells := by
    unfold parentCells
    split
    · exact safe_pure
    · refine (safe_indexBack (by omega)).bind fun i hi => ?_
      exact (safe_nodeAt (lt_of_indexBack hs Nat.two_pos hi)).bind fun _ _ => safe_pure
  refine hparent.bind fun cells _ => (safe_indexBack hopen).bind fun i hi => ?_
  have hlt := lt_of_indexBack hs Nat.one_pos hi
  refine (safe_nodeAt hlt).bind fun node _ => Safe.bind ?_ fun _ _ => safe_setNode hlt _
  unfold ValidationNode.record
  split
  · exact safe_singleCell.bind fun _ _ => safe_reject.bind fun _ _ => safe_pure
  split
  · exact safe_singleCell.bind fun _ _ => safe_reject.bind fun _ _ => safe_pure
  split
  · exact safe_validateRegLength.bind fun _ _ => safe_pure
  · exact safe_pure

end ValidationState

/-- The arms of `validate_structure` stay inside the array of nodes. -/
theorem validator_safeOn (xlen : Xlen) (structureBlock : ByteString) :
    (validator xlen structureBlock).SafeOn structureBlock ValidationState.Bounded where
  beginNode offset name s hs := by
    refine ⟨(ValidationState.safe_enter hs name).bind fun s₁ hs₁ => safe_reject.bind fun _ hroom => ?_,
      fun s' h => ?_⟩
    · have hlt : s₁.depth < maxFdtDepth := by simpa using hroom
      exact (ValidationState.safe_setNode hlt _).bind fun _ _ => safe_pure
    · have h : s.beginNode name = .ok s' := h
      simp only [ValidationState.beginNode, bind_eq_ok_iff, pure_eq_ok_iff] at h
      obtain ⟨s₁, -, u, hroom, s₂, hset, rfl⟩ := h
      have hlt : s₁.depth < maxFdtDepth := by simpa using hroom
      show s₂.depth + 1 ≤ maxFdtDepth
      rw [ValidationState.depth_of_setNode hset]
      exact hlt
  checkProperty s hs := by
    refine safe_reject.bind fun _ hdepth => ?_
    have hopen : s.depth ≠ 0 := by simpa using hdepth
    refine (ValidationState.safe_indexBack (by omega)).bind fun i hi => ?_
    exact (ValidationState.safe_nodeAt (ValidationState.lt_of_indexBack hs Nat.one_pos hi)).bind
      fun _ _ => safe_reject
  property name value s hs hcheck := by
    have hcheck : s.checkProperty = .ok () := hcheck
    simp only [ValidationState.checkProperty, bind_eq_ok_iff, reject_eq_ok_iff,
      beq_eq_false_iff_ne] at hcheck
    obtain ⟨-, hopen, -⟩ := hcheck
    refine ⟨ValidationState.safe_property hs (by omega) name value, fun s' h => ?_⟩
    have h : s.property xlen name value = .ok s' := h
    simp only [ValidationState.property, bind_eq_ok_iff] at h
    obtain ⟨_, -, _, -, _, -, _, -, hset⟩ := h
    show s'.depth ≤ maxFdtDepth
    rw [ValidationState.depth_of_setNode hset]
    exact hs
  endNode offset stop s hs := by
    show Safe s.endNode ∧ ∀ s', s.endNode = .ok s' → s'.Bounded
    unfold ValidationState.endNode
    split
    · exact ⟨safe_fail, by rintro _ ⟨⟩⟩
    · refine ⟨safe_pure, ?_⟩
      rintro s' ⟨⟩
      exact (Nat.sub_le _ _).trans hs
  finish offset s hle hs :=
    safe_reject.bind fun _ _ => safe_checkTrailing hle

theorem safe_validateStructure (xlen : Xlen) (structureBlock strings : ByteString) :
    Safe (validateStructure xlen structureBlock strings) :=
  (validator_safeOn xlen structureBlock).walk 0 (Nat.zero_le _)

/-! ## Planning -/

theorem safe_recordProperty {xlen : Xlen} {node : OpenNode} {name value : ByteString} :
    Safe (node.recordProperty xlen name value) := by
  unfold OpenNode.recordProperty
  split
  · exact safe_singleCell.bind fun _ _ => safe_pure
  split
  · exact safe_singleCell.bind fun _ _ => safe_pure
  split
  · exact safe_pure
  split
  · exact safe_pure
  · exact safe_pure

/-- The arms of `plan_edits` take the innermost node from its stack. -/
theorem planner_safeOn (xlen : Xlen) (structureBlock : ByteString) (hidden : List ByteString)
    (reservationName : Option ByteString) :
    (planner xlen structureBlock hidden reservationName).SafeOn structureBlock fun _ => True where
  beginNode offset name s _ := by
    refine ⟨?_, fun _ _ => trivial⟩
    exact safe_reject.bind fun _ _ => safe_reject.bind fun _ _ => safe_pure
  checkProperty s _ := safe_ok
  property name value s _ _ := by
    refine ⟨?_, fun _ _ => trivial⟩
    show Safe (s.recordProperty xlen name value)
    unfold EditPlanner.recordProperty
    split
    · exact safe_fail
    · exact safe_recordProperty.bind fun _ _ => safe_pure
  endNode offset stop s _ := by
    refine ⟨?_, fun _ _ => trivial⟩
    show Safe (s.endNode offset stop)
    unfold EditPlanner.endNode
    split
    · exact safe_fail
    · exact safe_reject.bind fun _ _ => safe_reject.bind fun _ _ => safe_pure
  finish offset s hle _ :=
    (safe_checkTrailing hle).bind fun _ _ => safe_reject.bind fun _ _ =>
      safe_orFail.bind fun _ _ => safe_orFail.bind fun _ _ => safe_pure

theorem safe_planEdits (xlen : Xlen) (structureBlock strings : ByteString)
    (hidden : List ByteString) (reservationName : Option ByteString) :
    Safe (planEdits xlen structureBlock strings hidden reservationName) :=
  (planner_safeOn xlen structureBlock hidden reservationName).walk 0 trivial

/-- Each round of the walk that goes on moves the offset forward, inside the block. -/
def Visitor.Advances (xlen : Xlen) (structureBlock strings : ByteString) (visitor : Visitor σ ρ) :
    Prop :=
  ∀ offset s next s',
    visitor.round xlen structureBlock strings offset s = .ok (.inr (next, s')) →
      offset < next ∧ next ≤ structureBlock.length

theorem Visitor.advances (xlen : Xlen) (structureBlock strings : ByteString)
    (visitor : Visitor σ ρ) : visitor.Advances xlen structureBlock strings := by
  intro offset s next s' hround
  refine ⟨visitor.round_advances xlen structureBlock strings offset s next s' hround, ?_⟩
  obtain ⟨raw, token, -, hstands, rfl, -⟩ := visitor.round_token hround
  exact hstands.le_length

end Walks

/-- Each round of `reservation_map_end` that goes on moves the offset forward, inside
the blob. -/
theorem reservationStep_advances {xlen : Xlen} {source : ByteString} {totalSize offset next : Nat}
    (h : reservationStep xlen source totalSize offset = .inl next) :
    offset < next ∧ next ≤ totalSize := by
  unfold reservationStep at h
  split at h
  · cases h
  · next hentry =>
    obtain ⟨-, -, rfl, htotal, -⟩ := (reservationEntry_eq_ok_iff xlen).mp hentry
    split at h
    · cases h
    · cases h
      exact ⟨by omega, htotal⟩

/-- On any bytes, `Layout::parse`, `validate_structure` and `plan_edits` do not panic, and
every round of their loops advances. -/
theorem parsing_safe (xlen : Xlen) :
    (∀ source, Safe (Layout.parse xlen source)) ∧
    (∀ structureBlock strings, Safe (validateStructure xlen structureBlock strings)) ∧
    (∀ structureBlock strings hidden reservationName,
      Safe (planEdits xlen structureBlock strings hidden reservationName)) ∧
    (∀ source totalSize offset next,
      reservationStep xlen source totalSize offset = .inl next →
        offset < next ∧ next ≤ totalSize) ∧
    (∀ structureBlock strings,
      (validator xlen structureBlock).Advances xlen structureBlock strings) ∧
    ∀ structureBlock strings hidden reservationName,
      (planner xlen structureBlock hidden reservationName).Advances xlen structureBlock strings :=
  ⟨safe_parse, safe_validateStructure xlen, safe_planEdits xlen,
    fun _ _ _ _ => reservationStep_advances, fun _ _ => Visitor.advances _ _ _ _,
    fun _ _ _ _ => Visitor.advances _ _ _ _⟩

end RustSbi.DeviceTree
