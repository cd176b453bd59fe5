import RustSbi.DeviceTree.Format

/-!
The two walks over the structure block (`patch/plan.rs`): the validation that runs
before the tree is trusted, and the planning of the edits for the next stage. Both
read one token a round and stop at `END`.
-/

namespace RustSbi.DeviceTree

open Bytes

/-- `CellCounts`. -/
structure CellCounts where
  addressCells : Nat
  sizeCells : Nat
  deriving DecidableEq, Repr

/-- `MAX_FDT_DEPTH`. -/
def maxFdtDepth : Nat := 63

/-! ## Properties -/

section Properties

variable (xlen : Xlen)

/-- `single_cell`. -/
def singleCell (value : ByteString) : Fallible Nat := do
  reject (value.length != 4) .invalidArgs
  readU32 xlen value 0

/-- `validate_reg_length`. -/
def validateRegLength (value : ByteString) (cells : CellCounts) : Fallible Unit := do
  let tupleCells := cells.addressCells + cells.sizeCells
  reject (2 ^ 32 ≤ tupleCells) .overflow
  reject (xlen.words ≤ tupleCells) .overflow
  let tupleBytes := tupleCells * 4
  reject (xlen.words ≤ tupleBytes) .overflow
  reject (tupleBytes == 0 || value.length % tupleBytes != 0) .invalidArgs

/-- `validate_cell_widths`. -/
def validateCellWidths (cells : CellCounts) : Fallible Unit :=
  reject (!(1 ≤ cells.addressCells && cells.addressCells ≤ 2) ||
    !(1 ≤ cells.sizeCells && cells.sizeCells ≤ 2)) .invalidArgs

/-- The name and the value of a property, with the offset after it. -/
def takeProperty (structureBlock strings : ByteString) (offset : Nat) :
    Fallible (ByteString × ByteString × Nat) := do
  let (length, offset) ← takeU32 xlen structureBlock offset
  let (nameOffset, offset) ← takeU32 xlen structureBlock offset
  let (value, offset) ← takeAligned xlen structureBlock offset length
  let name ← stringAt strings nameOffset
  return (name, value, offset)

variable {xlen}

theorem takeU32_advances {bytes : ByteString} {offset value next : Nat}
    (h : takeU32 xlen bytes offset = .ok (value, next)) : offset < next := by
  obtain ⟨-, -, rfl, -⟩ := takeU32_eq_ok_iff.mp h
  omega

theorem takeCString_advances {bytes name : ByteString} {offset next : Nat}
    (h : takeCString xlen bytes offset = .ok (name, next)) : offset ≤ next := by
  obtain ⟨raw, -, -, -, rfl, -⟩ := takeCString_eq_ok_iff.mp h
  omega

theorem takeProperty_advances {structureBlock strings name value : ByteString} {offset next : Nat}
    (h : takeProperty xlen structureBlock strings offset = .ok (name, value, next)) :
    offset ≤ next := by
  simp only [takeProperty, bind_eq_ok_iff, Prod.exists, pure_eq_ok_iff, Prod.mk.injEq] at h
  obtain ⟨length, _, hlength, nameOffset, _, hname, _, _, hvalue, _, -, rfl, rfl, rfl⟩ := h
  obtain ⟨raw, -, -, -, rfl, -⟩ := takeAligned_eq_ok_iff.mp hvalue
  have hfirst := takeU32_advances hlength
  have hsecond := takeU32_advances hname
  omega

end Properties

/-! ## Walking the structure block -/

section Walk

variable {σ ρ : Type}

/-- The words are all `NOP`, with no remainder. -/
def onlyNops : ByteString → Bool
  | [] => true
  | a :: b :: c :: d :: rest => [a, b, c, d] == beBytes 4 nopWord && onlyNops rest
  | _ => false

/-- The check of what follows `END`. -/
def checkTrailing (structureBlock : ByteString) (offset : Nat) : Fallible Unit := do
  let trailing ← indexFrom structureBlock offset
  reject (!onlyNops trailing) .invalidArgs

/-- The loop `while offset < structure.len()`; a round ends the walk with a
result, or goes on from another offset. -/
def walkStep (structureBlock : ByteString) (round : Nat → σ → Fallible (ρ ⊕ (Nat × σ)))
    (p : Nat × σ) : (Nat × σ) ⊕ Fallible ρ :=
  if p.1 < structureBlock.length then
    match round p.1 p.2 with
    | .error stop => .inr (.error stop)
    | .ok (.inl result) => .inr (.ok result)
    | .ok (.inr next) => .inl next
  else .inr (fail .invalidArgs)

theorem walkStep_decreases {structureBlock : ByteString}
    {round : Nat → σ → Fallible (ρ ⊕ (Nat × σ))}
    (advances : ∀ offset s next s', round offset s = .ok (.inr (next, s')) → offset < next)
    (p p' : Nat × σ) (h : walkStep structureBlock round p = .inl p') :
    structureBlock.length - p'.1 < structureBlock.length - p.1 := by
  unfold walkStep at h
  split at h
  · next hlt =>
    split at h
    · cases h
    · cases h
    · next hround =>
      cases h
      have hnext := advances p.1 p.2 p'.1 p'.2 hround
      omega
  · cases h

/-- What a walk does at each token: the arms of its `match token`. Offsets are
those of the token and of what follows it. -/
structure Visitor (σ ρ : Type) where
  beginNode : Nat → ByteString → σ → Fallible σ
  checkProperty : σ → Fallible Unit
  property : ByteString → ByteString → σ → Fallible σ
  endNode : Nat → Nat → σ → Fallible σ
  finish : Nat → σ → Fallible ρ

/-- One round of a walk. -/
def Visitor.round (xlen : Xlen) (structureBlock strings : ByteString) (visitor : Visitor σ ρ)
    (tokenOffset : Nat) (s : σ) : Fallible (ρ ⊕ (Nat × σ)) := do
  let (token, offset) ← takeU32 xlen structureBlock tokenOffset
  if token = beginNodeWord then do
    let (name, offset) ← takeCString xlen structureBlock offset
    let s ← visitor.beginNode tokenOffset name s
    return .inr (offset, s)
  else if token = propertyWord then do
    visitor.checkProperty s
    let (name, value, offset) ← takeProperty xlen structureBlock strings offset
    let s ← visitor.property name value s
    return .inr (offset, s)
  else if token = endNodeWord then do
    let s ← visitor.endNode tokenOffset offset s
    return .inr (offset, s)
  else if token = nopWord then return .inr (offset, s)
  else if token = endWord then do
    let result ← visitor.finish offset s
    return .inl result
  else fail .invalidArgs

theorem Visitor.round_advances (xlen : Xlen) (structureBlock strings : ByteString)
    (visitor : Visitor σ ρ) (offset : Nat) (s : σ) (next : Nat) (s' : σ)
    (h : visitor.round xlen structureBlock strings offset s = .ok (.inr (next, s'))) :
    offset < next := by
  simp only [Visitor.round, bind_eq_ok_iff, Prod.exists] at h
  obtain ⟨token, offset', htoken, h⟩ := h
  have hoffset := takeU32_advances htoken
  split at h
  · simp only [bind_eq_ok_iff, Prod.exists, pure_eq_ok_iff, Sum.inr.injEq, Prod.mk.injEq] at h
    obtain ⟨name, _, hname, _, -, rfl, -⟩ := h
    exact hoffset.trans_le (takeCString_advances hname)
  split at h
  · simp only [bind_eq_ok_iff, Prod.exists, pure_eq_ok_iff, Sum.inr.injEq, Prod.mk.injEq] at h
    obtain ⟨_, -, name, value, _, hproperty, _, -, rfl, -⟩ := h
    exact hoffset.trans_le (takeProperty_advances hproperty)
  split at h
  · simp only [bind_eq_ok_iff, pure_eq_ok_iff, Sum.inr.injEq, Prod.mk.injEq] at h
    obtain ⟨_, -, rfl, -⟩ := h
    exact hoffset
  split at h
  · simp only [pure_eq_ok_iff, Sum.inr.injEq, Prod.mk.injEq] at h
    exact h.1 ▸ hoffset
  split at h
  · simp only [bind_eq_ok_iff, pure_eq_ok_iff, reduceCtorEq, and_false, exists_false] at h
  · simp at h

/-- The walk of a visitor from an offset and a state. -/
def Visitor.walk (xlen : Xlen) (structureBlock strings : ByteString) (visitor : Visitor σ ρ)
    (offset : Nat) (s : σ) : Fallible ρ :=
  Loop.run (walkStep structureBlock (visitor.round xlen structureBlock strings))
    (fun p => structureBlock.length - p.1)
    (walkStep_decreases (visitor.round_advances xlen structureBlock strings)) (offset, s)

end Walk

/-! ## Validation -/

/-- `ValidationNode`. -/
structure ValidationNode where
  addressCells : Option Nat
  sizeCells : Option Nat
  hasChild : Bool
  deriving DecidableEq, Repr

namespace ValidationNode

/-- `ValidationNode::new`. -/
def new : ValidationNode := ⟨none, none, false⟩

/-- `ValidationNode::cells`. -/
def cells (node : ValidationNode) : CellCounts :=
  ⟨node.addressCells.getD defaultAddressCells, node.sizeCells.getD defaultSizeCells⟩

/-- The `match name` of `validate_structure`. -/
def record (xlen : Xlen) (node : ValidationNode) (parentCells : CellCounts)
    (name value : ByteString) : Fallible ValidationNode :=
  if name = ascii "#address-cells" then do
    let cell ← singleCell xlen value
    reject node.addressCells.isSome .invalidArgs
    return { node with addressCells := some cell }
  else if name = ascii "#size-cells" then do
    let cell ← singleCell xlen value
    reject node.sizeCells.isSome .invalidArgs
    return { node with sizeCells := some cell }
  else if name = ascii "reg" then do
    validateRegLength xlen value parentCells
    return node
  else return node

end ValidationNode

/-- The variables of `validate_structure` besides the offset. -/
structure ValidationState where
  depth : Nat
  rootSeen : Bool
  nodes : Vector ValidationNode maxFdtDepth

namespace ValidationState

/-- The state before the first token. -/
def initial : ValidationState := ⟨0, false, Vector.replicate maxFdtDepth .new⟩

/-- `nodes[i]`. -/
def nodeAt (s : ValidationState) (i : Nat) : Fallible ValidationNode :=
  if h : i < maxFdtDepth then .ok (s.nodes.get ⟨i, h⟩) else .error (.panic .indexOutOfBounds)

/-- `nodes[i] = node`. -/
def setNode (s : ValidationState) (i : Nat) (node : ValidationNode) : Fallible ValidationState :=
  if h : i < maxFdtDepth then .ok { s with nodes := s.nodes.set i node h }
  else .error (.panic .indexOutOfBounds)

/-- `depth - back`, for an index of `nodes`. -/
def indexBack (s : ValidationState) (back : Nat) : Fallible Nat :=
  if back ≤ s.depth then .ok (s.depth - back) else .error (.panic .subtractUnderflow)

/-- The parent of a new node: none for the root. -/
def enter (s : ValidationState) (name : ByteString) : Fallible ValidationState :=
  if s.depth = 0 then do
    reject (s.rootSeen || !name.isEmpty) .invalidArgs
    return { s with rootSeen := true }
  else do
    let i ← s.indexBack 1
    let parent ← s.nodeAt i
    s.setNode i { parent with hasChild := true }

/-- `BEGIN_NODE`. -/
def beginNode (s : ValidationState) (name : ByteString) : Fallible ValidationState := do
  let s ← s.enter name
  reject (maxFdtDepth ≤ s.depth) .invalidArgs
  let s ← s.setNode s.depth .new
  return { s with depth := s.depth + 1 }

/-- What `PROPERTY` checks before it reads. -/
def checkProperty (s : ValidationState) : Fallible Unit := do
  reject (s.depth == 0) .invalidArgs
  let i ← s.indexBack 1
  let node ← s.nodeAt i
  reject node.hasChild .invalidArgs

/-- The cell counts that a `reg` of the current node uses. -/
def parentCells (s : ValidationState) : Fallible CellCounts :=
  if s.depth = 1 then return ⟨defaultAddressCells, defaultSizeCells⟩
  else do
    let i ← s.indexBack 2
    let parent ← s.nodeAt i
    return parent.cells

/-- `PROPERTY`, once it is read. -/
def property (xlen : Xlen) (s : ValidationState) (name value : ByteString) :
    Fallible ValidationState := do
  let parentCells ← s.parentCells
  let i ← s.indexBack 1
  let node ← s.nodeAt i
  let node ← node.record xlen parentCells name value
  s.setNode i node

/-- `END_NODE`. -/
def endNode (s : ValidationState) : Fallible ValidationState :=
  if s.depth = 0 then fail .invalidArgs else return { s with depth := s.depth - 1 }

end ValidationState

/-- What `END` checks of the walk, and of what follows it. -/
def ValidationState.finish (structureBlock : ByteString) (s : ValidationState) (offset : Nat) :
    Fallible Unit := do
  reject (!s.rootSeen || s.depth != 0) .invalidArgs
  checkTrailing structureBlock offset

/-- The arms of `validate_structure`. -/
def validator (xlen : Xlen) (structureBlock : ByteString) : Visitor ValidationState Unit where
  beginNode _ name s := s.beginNode name
  checkProperty s := s.checkProperty
  property name value s := s.property xlen name value
  endNode _ _ s := s.endNode
  finish offset s := s.finish structureBlock offset

/-- `validate_structure`. -/
def validateStructure (xlen : Xlen) (structureBlock strings : ByteString) : Fallible Unit :=
  (validator xlen structureBlock).walk xlen structureBlock strings 0 .initial

/-! ## Planning -/

/-- `ReservedMemory`. -/
structure ReservedMemory where
  stop : Nat
  cells : CellCounts
  acceptsFirmwareChild : Bool
  deriving DecidableEq, Repr

/-- `EditPlan`; a hidden node is the range of its offsets. -/
structure EditPlan where
  rootEnd : Nat
  rootCells : CellCounts
  reservedMemory : Option ReservedMemory
  reservationExists : Bool
  hiddenNodes : List (Nat × Nat)
  deriving DecidableEq, Repr

/-- `OpenNode`. -/
structure OpenNode where
  start : Nat
  previousPathLength : Nat
  hide : Bool
  isRoot : Bool
  isReservedMemory : Bool
  isReservation : Bool
  addressCells : Option Nat
  sizeCells : Option Nat
  enabled : Bool
  emptyRanges : Bool

namespace OpenNode

/-- `value.strip_suffix(&[0]).unwrap_or(value)`. -/
def stripZero (value : ByteString) : ByteString :=
  if value.getLast? = some 0 then value.dropLast else value

/-- `OpenNode::record_property`. -/
def recordProperty (xlen : Xlen) (node : OpenNode) (name value : ByteString) :
    Fallible OpenNode :=
  if name = ascii "#address-cells" then do
    let cell ← singleCell xlen value
    return { node with addressCells := some cell }
  else if name = ascii "#size-cells" then do
    let cell ← singleCell xlen value
    return { node with sizeCells := some cell }
  else if name = ascii "ranges" ∧ node.isReservedMemory then
    return { node with emptyRanges := value.isEmpty }
  else if name = ascii "status" ∧ node.isReservedMemory then
    let status := stripZero value
    return { node with enabled := status == ascii "ok" || status == ascii "okay" }
  else return node

/-- `OpenNode::cells`. -/
def cells (node : OpenNode) : CellCounts :=
  ⟨node.addressCells.getD defaultAddressCells, node.sizeCells.getD defaultSizeCells⟩

end OpenNode

/-- `EditPlanner`; the innermost open node is the first of the stack. -/
structure EditPlanner where
  stack : List OpenNode
  path : ByteString
  rootEnd : Option Nat
  rootCells : Option CellCounts
  reservedMemory : Option ReservedMemory
  reservationExists : Bool
  hiddenNodes : List (Nat × Nat)

namespace EditPlanner

/-- `EditPlanner::new`. -/
def new : EditPlanner := ⟨[], [], none, none, none, false, []⟩

/-- `name.split('@').next() == Some("reserved-memory")`. -/
def isReservedMemoryName (name : ByteString) : Bool :=
  name.takeWhile (· != 0x40) == ascii "reserved-memory"

/-- The path after a name is pushed: the root is `/`. -/
def pushName (path name : ByteString) (isRoot : Bool) : ByteString :=
  if isRoot then path ++ ascii "/"
  else (if 1 < path.length then path ++ ascii "/" else path) ++ name

/-- `EditPlanner::begin_node`. -/
def beginNode (planner : EditPlanner) (start : Nat) (name : ByteString)
    (hiddenNodePaths : List ByteString) (reservationName : Option ByteString) :
    Fallible EditPlanner := do
  reject planner.rootEnd.isSome .invalidArgs
  let isRoot := planner.stack.isEmpty
  reject (isRoot && !name.isEmpty) .invalidArgs
  let path := pushName planner.path name isRoot
  let parentIsReservedMemory := planner.stack.head?.any OpenNode.isReservedMemory
  let node : OpenNode :=
    { start
      previousPathLength := planner.path.length
      hide := path ∈ hiddenNodePaths
      isRoot
      isReservedMemory := planner.stack.length == 1 && isReservedMemoryName name
      isReservation := parentIsReservedMemory && reservationName == some name
      addressCells := none
      sizeCells := none
      enabled := true
      emptyRanges := false }
  return { planner with stack := node :: planner.stack, path }

/-- `EditPlanner::record_property`. -/
def recordProperty (xlen : Xlen) (planner : EditPlanner) (name value : ByteString) :
    Fallible EditPlanner :=
  match planner.stack with
  | [] => fail .invalidArgs
  | node :: rest => do
    let node ← node.recordProperty xlen name value
    return { planner with stack := node :: rest }

/-- The entry that `end_node` makes for the reserved-memory node. -/
def reservedMemoryOf (node : OpenNode) (tokenOffset : Nat) : ReservedMemory where
  stop := tokenOffset
  cells := node.cells
  acceptsFirmwareChild := node.enabled && node.addressCells.isSome && node.sizeCells.isSome &&
    node.emptyRanges

/-- `EditPlanner::end_node`. -/
def endNode (planner : EditPlanner) (tokenOffset stop : Nat) : Fallible EditPlanner :=
  match planner.stack with
  | [] => fail .invalidArgs
  | node :: rest => do
    reject (node.isReservedMemory && planner.reservedMemory.isSome) .invalidArgs
    let reservedMemory :=
      if node.isReservedMemory then some (reservedMemoryOf node tokenOffset)
      else planner.reservedMemory
    reject (node.isRoot && !rest.isEmpty) .invalidArgs
    return {
      stack := rest
      path := planner.path.take node.previousPathLength
      rootEnd := if node.isRoot then some tokenOffset else planner.rootEnd
      rootCells := if node.isRoot then some node.cells else planner.rootCells
      reservedMemory
      reservationExists := planner.reservationExists || node.isReservation
      hiddenNodes := if node.hide then planner.hiddenNodes ++ [(node.start, stop)]
        else planner.hiddenNodes }

/-- `EditPlanner::finish`. -/
def finish (planner : EditPlanner) : Fallible EditPlan := do
  reject (!planner.stack.isEmpty) .invalidArgs
  let rootEnd ← orFail planner.rootEnd .invalidArgs
  let rootCells ← orFail planner.rootCells .invalidArgs
  return ⟨rootEnd, rootCells, planner.reservedMemory, planner.reservationExists,
    planner.hiddenNodes⟩

end EditPlanner

/-- The arms of `plan_edits`. -/
def planner (xlen : Xlen) (structureBlock : ByteString) (hiddenNodePaths : List ByteString)
    (reservationName : Option ByteString) : Visitor EditPlanner EditPlan where
  beginNode tokenOffset name s := s.beginNode tokenOffset name hiddenNodePaths reservationName
  checkProperty _ := .ok ()
  property name value s := s.recordProperty xlen name value
  endNode tokenOffset offset s := s.endNode tokenOffset offset
  finish offset s := do
    checkTrailing structureBlock offset
    s.finish

/-- `plan_edits`. -/
def planEdits (xlen : Xlen) (structureBlock strings : ByteString)
    (hiddenNodePaths : List ByteString) (reservationName : Option ByteString) : Fallible EditPlan :=
  (planner xlen structureBlock hiddenNodePaths reservationName).walk xlen structureBlock strings 0
    .new

end RustSbi.DeviceTree
