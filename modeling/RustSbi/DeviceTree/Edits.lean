import RustSbi.DeviceTree.Nesting
import RustSbi.DeviceTree.Patch

/-!
What `plan_edits` finds in a structure block: the spans of the hidden nodes, the end
of the root, and the reserved-memory node. On content that validates, the planner
fails only at a second reserved-memory node, and everything it records is a function
of the content.
-/

namespace RustSbi.DeviceTree

open Bytes

/-! ## What the properties of a node declare -/

/-- What `OpenNode::record_property` keeps of the properties of a node. -/
structure Declared where
  addressCells : Option Nat
  sizeCells : Option Nat
  enabled : Bool
  emptyRanges : Bool
  deriving DecidableEq, Repr

namespace Declared

/-- Before the first property. -/
def fresh : Declared := ⟨none, none, true, false⟩

/-- After one more property, the value of a cell declaration being a cell. -/
def property (d : Declared) (isReservedMemory : Bool) (name value : ByteString) : Declared :=
  if name = ascii "#address-cells" then { d with addressCells := some (readBE value) }
  else if name = ascii "#size-cells" then { d with sizeCells := some (readBE value) }
  else if name = ascii "ranges" ∧ isReservedMemory then { d with emptyRanges := value.isEmpty }
  else if name = ascii "status" ∧ isReservedMemory then
    { d with enabled :=
      OpenNode.stripZero value == ascii "ok" || OpenNode.stripZero value == ascii "okay" }
  else d

/-- The cell counts for the children of the node. -/
def cells (d : Declared) : CellCounts :=
  ⟨d.addressCells.getD defaultAddressCells, d.sizeCells.getD defaultSizeCells⟩

/-- `accepts_firmware_child`. -/
def acceptsFirmwareChild (d : Declared) : Bool :=
  d.enabled && d.addressCells.isSome && d.sizeCells.isSome && d.emptyRanges

end Declared

/-- The open node with what its properties declare. -/
def OpenNode.declaring (node : OpenNode) (d : Declared) : OpenNode :=
  { node with
    addressCells := d.addressCells
    sizeCells := d.sizeCells
    enabled := d.enabled
    emptyRanges := d.emptyRanges }

/-- Every declaration of cells is one cell long, in the node and below. -/
def Content.Celled : Content → Prop
  | .nil => True
  | .nop rest => rest.Celled
  | .property _ name value rest =>
    (name = ascii "#address-cells" ∨ name = ascii "#size-cells" → value.length = 4) ∧ rest.Celled
  | .node _ _ inner rest => inner.Celled ∧ rest.Celled

/-- What the properties of a content declare, after others. -/
def Content.declared (isReservedMemory : Bool) : Declared → Content → Declared
  | d, .nil => d
  | d, .nop rest => rest.declared isReservedMemory d
  | d, .property _ name value rest =>
    rest.declared isReservedMemory (d.property isReservedMemory name value)
  | d, .node _ _ _ rest => rest.declared isReservedMemory d

theorem singleCell_eq_ok_iff {xlen : Xlen} {value : ByteString} {cell : Nat} :
    singleCell xlen value = .ok cell ↔ value.length = 4 ∧ cell = readBE value := by
  simp only [singleCell, bind_eq_ok_iff, reject_eq_ok_iff, bne_eq_false_iff_eq]
  constructor
  · rintro ⟨-, hlen, hread⟩
    obtain ⟨hcell, hstands, -⟩ := readU32_eq_ok_iff.mp hread
    obtain ⟨before, after, rfl, hbefore⟩ := hstands
    obtain rfl := List.length_eq_zero_iff.mp hbefore
    have hafter : after = [] := by simpa using hlen
    subst hafter
    refine ⟨hlen, ?_⟩
    rw [List.nil_append, List.append_nil]
    exact (readBE_beBytes hcell).symm
  · rintro ⟨hlen, rfl⟩
    have hlt := readBE_lt value
    have hbytes := beBytes_readBE value
    rw [hlen] at hlt hbytes
    have hroom : 0 + 4 < xlen.words := by
      have hwords := xlen.four_gigabytes_le_words
      omega
    refine ⟨(), hlen, readU32_eq_ok_iff.mpr ⟨hlt, ?_, hroom⟩⟩
    exact ⟨[], [], by simp [hbytes], rfl⟩

theorem OpenNode.recordProperty_declaring {xlen : Xlen} (node : OpenNode) (d : Declared)
    {name value : ByteString}
    (hcell : name = ascii "#address-cells" ∨ name = ascii "#size-cells" → value.length = 4) :
    (node.declaring d).recordProperty xlen name value =
      .ok (node.declaring (d.property node.isReservedMemory name value)) := by
  unfold recordProperty Declared.property
  split
  · next haddress =>
    have hread : singleCell xlen value = .ok (readBE value) :=
      singleCell_eq_ok_iff.mpr ⟨hcell (.inl haddress), rfl⟩
    rw [hread]
    rfl
  split
  · next hsize =>
    have hread : singleCell xlen value = .ok (readBE value) :=
      singleCell_eq_ok_iff.mpr ⟨hcell (.inr hsize), rfl⟩
    rw [hread]
    rfl
  split
  · next hranges =>
    have hranges' : name = ascii "ranges" ∧ node.isReservedMemory = true := hranges
    rw [if_pos hranges']
    rfl
  · next hranges =>
    have hranges' : ¬ (name = ascii "ranges" ∧ node.isReservedMemory = true) := hranges
    rw [if_neg hranges']
    split
    · next hstatus =>
      have hstatus' : name = ascii "status" ∧ node.isReservedMemory = true := hstatus
      rw [if_pos hstatus']
      rfl
    · next hstatus =>
      have hstatus' : ¬ (name = ascii "status" ∧ node.isReservedMemory = true) := hstatus
      rw [if_neg hstatus']
      rfl

/-! ## Planning on a content -/

/-- The spans of the hidden nodes of a content, in the order of their ends. -/
def Content.spans (hidden : List ByteString) :
    (path : ByteString) → (offset : Nat) → Content → List (Nat × Nat)
  | _, _, .nil => []
  | path, offset, .nop rest => rest.spans hidden path (offset + 4)
  | path, offset, .property raw _ _ rest => rest.spans hidden path (offset + raw.length)
  | path, offset, .node raw name inner rest =>
    let inside := EditPlanner.pushName path name false
    let stop := offset + raw.length + inner.bytes.length
    inner.spans hidden inside (offset + raw.length) ++
      (if inside ∈ hidden then [(offset, stop + 4)] else []) ++ rest.spans hidden path (stop + 4)

/-- A child of the name stands in the content. -/
def Content.hasChild (reservationName : Option ByteString) : Content → Bool
  | .nil => false
  | .nop rest => rest.hasChild reservationName
  | .property _ _ _ rest => rest.hasChild reservationName
  | .node _ name _ rest => reservationName == some name || rest.hasChild reservationName

theorem EditPlanner.take_pushName (path name : ByteString) :
    (pushName path name false).take path.length = path := by
  unfold pushName
  split
  · next h => cases h
  split
  · rw [List.append_assoc, List.take_left]
  · rw [List.take_left]

namespace EditPlanner

/-- The node that `begin_node` opens inside others. -/
def opened (start : Nat) (path name : ByteString) (hidden : List ByteString)
    (reservationName : Option ByteString) (stack : List OpenNode) : OpenNode where
  start
  previousPathLength := path.length
  hide := pushName path name stack.isEmpty ∈ hidden
  isRoot := stack.isEmpty
  isReservedMemory := stack.length == 1 && isReservedMemoryName name
  isReservation := stack.head?.any OpenNode.isReservedMemory && reservationName == some name
  addressCells := none
  sizeCells := none
  enabled := true
  emptyRanges := false

theorem beginNode_inside (start : Nat) (name : ByteString) (hidden : List ByteString)
    (reservationName : Option ByteString) (parent : OpenNode) (outer : List OpenNode)
    (path : ByteString) (rootCells : Option CellCounts) (reservedMemory : Option ReservedMemory)
    (found : Bool) (spans : List (Nat × Nat)) :
    beginNode ⟨parent :: outer, path, none, rootCells, reservedMemory, found, spans⟩ start name
        hidden reservationName =
      .ok ⟨(opened start path name hidden reservationName (parent :: outer)).declaring .fresh ::
          parent :: outer,
        pushName path name false, none, rootCells, reservedMemory, found, spans⟩ := rfl

theorem opened_isReservedMemory (start : Nat) (path name : ByteString) (hidden : List ByteString)
    (reservationName : Option ByteString) (parent : OpenNode) (outer : List OpenNode) :
    (opened start path name hidden reservationName (parent :: outer)).isReservedMemory =
      (outer.isEmpty && isReservedMemoryName name) := by
  cases outer <;> rfl

/-- `end_node` of a node inside others. -/
theorem endNode_opened (start tokenOffset stop : Nat) (path name : ByteString)
    (hidden : List ByteString) (reservationName : Option ByteString) (parent : OpenNode)
    (outer : List OpenNode) (d : Declared) (rootEnd : Option Nat) (rootCells : Option CellCounts)
    (reservedMemory : Option ReservedMemory) (found : Bool) (spans : List (Nat × Nat)) :
    endNode ⟨(opened start path name hidden reservationName (parent :: outer)).declaring d ::
        parent :: outer, pushName path name false, rootEnd, rootCells, reservedMemory, found, spans⟩
        tokenOffset stop =
      (do
        reject (outer.isEmpty && isReservedMemoryName name && reservedMemory.isSome) .invalidArgs
        return ⟨parent :: outer, path, rootEnd, rootCells,
          if outer.isEmpty && isReservedMemoryName name then
            some ⟨tokenOffset, d.cells, d.acceptsFirmwareChild⟩
          else reservedMemory,
          found || parent.isReservedMemory && reservationName == some name,
          spans ++ if pushName path name false ∈ hidden then [(start, stop)] else []⟩) := by
  have hreserved := opened_isReservedMemory start path name hidden reservationName parent outer
  have hpath : (pushName path name false).take path.length = path := take_pushName path name
  have hroot : (opened start path name hidden reservationName (parent :: outer)).isRoot = false := rfl
  have hspans : spans ++ (if pushName path name false ∈ hidden then [(start, stop)] else []) =
      if (opened start path name hidden reservationName (parent :: outer)).hide then
        spans ++ [(start, stop)]
      else spans := by
    by_cases hhide : pushName path name false ∈ hidden <;> simp [opened, hhide]
  simp only [endNode, OpenNode.declaring, hreserved, hroot, Bool.false_and, reject_false, ok_bind,
    Bool.false_eq_true, ↓reduceIte, hspans]
  simp only [opened, hpath]
  rfl

end EditPlanner

section Planner

variable {xlen : Xlen} {block : ByteString} {hidden : List ByteString}
  {reservationName : Option ByteString}

@[simp] theorem planner_beginNode (offset : Nat) (name : ByteString) (s : EditPlanner) :
    (planner xlen block hidden reservationName).beginNode offset name s =
      s.beginNode offset name hidden reservationName := rfl

@[simp] theorem planner_checkProperty (s : EditPlanner) :
    (planner xlen block hidden reservationName).checkProperty s = .ok () := rfl

@[simp] theorem planner_property (name value : ByteString) (s : EditPlanner) :
    (planner xlen block hidden reservationName).property name value s =
      s.recordProperty xlen name value := rfl

@[simp] theorem planner_endNode (offset stop : Nat) (s : EditPlanner) :
    (planner xlen block hidden reservationName).endNode offset stop s = s.endNode offset stop := rfl

/-- Below a child of the root, the planner collects spans and the name of a reservation. -/
theorem visitContent_planner_below {c : Content} (hc : c.Celled) (offset : Nat) (path : ByteString)
    (node parent : OpenNode) (outer : List OpenNode) (d : Declared) (rootCells : Option CellCounts)
    (reservedMemory : Option ReservedMemory) (found : Bool) (spans : List (Nat × Nat)) :
    (planner xlen block hidden reservationName).visitContent c offset
        ⟨node.declaring d :: parent :: outer, path, none, rootCells, reservedMemory, found, spans⟩ =
      .ok ⟨node.declaring (c.declared node.isReservedMemory d) :: parent :: outer, path, none,
        rootCells, reservedMemory,
        found || node.isReservedMemory && c.hasChild reservationName,
        spans ++ c.spans hidden path offset⟩ := by
  induction c generalizing offset path node parent outer d found spans with
  | nil => simp [Content.declared, Content.hasChild, Content.spans]
  | nop rest ih =>
    rw [Visitor.visitContent_nop]
    exact ih hc _ path node parent outer d found spans
  | property raw name value rest ih =>
    rw [Visitor.visitContent_property, planner_checkProperty, ok_bind, planner_property,
      EditPlanner.recordProperty]
    simp only [node.recordProperty_declaring d hc.1, ok_bind]
    exact ih hc.2 _ path node parent outer _ found spans
  | node raw name inner rest ihInner ihRest =>
    obtain ⟨hinner, hrest⟩ := hc
    rw [Visitor.visitContent_node, planner_beginNode, EditPlanner.beginNode_inside, ok_bind,
      ihInner hinner, ok_bind, planner_endNode, EditPlanner.endNode_opened,
      EditPlanner.opened_isReservedMemory]
    simp only [List.isEmpty_cons, Bool.false_and, reject_false, ok_bind, Bool.false_eq_true,
      ↓reduceIte, Bool.or_false, pure_bind, ihRest hrest]
    simp only [OpenNode.declaring, Content.declared, Content.hasChild, Content.spans,
      Bool.and_or_distrib_left, Bool.or_assoc, List.append_assoc]

/-- The reserved-memory nodes among the children of the root. -/
def Content.reserved : (offset : Nat) → Content → List ReservedMemory
  | _, .nil => []
  | offset, .nop rest => rest.reserved (offset + 4)
  | offset, .property raw _ _ rest => rest.reserved (offset + raw.length)
  | offset, .node raw name inner rest =>
    let stop := offset + raw.length + inner.bytes.length
    (if EditPlanner.isReservedMemoryName name then
      [⟨stop, (inner.declared true .fresh).cells, (inner.declared true .fresh).acceptsFirmwareChild⟩]
    else []) ++ rest.reserved (stop + 4)

/-- A reserved-memory node has a child of the name. -/
def Content.reservationExists (reservationName : Option ByteString) : Content → Bool
  | .nil => false
  | .nop rest => rest.reservationExists reservationName
  | .property _ _ _ rest => rest.reservationExists reservationName
  | .node _ name inner rest =>
    EditPlanner.isReservedMemoryName name && inner.hasChild reservationName ||
      rest.reservationExists reservationName

/-- In the root, the planner fails at a second reserved-memory node only. -/
theorem visitContent_planner_root {c : Content} (hc : c.Celled) (offset : Nat) (path : ByteString)
    {root : OpenNode} (hroot : root.isReservedMemory = false) (d : Declared)
    (rootCells : Option CellCounts) (reservedMemory : Option ReservedMemory) (found : Bool)
    (spans : List (Nat × Nat)) :
    (planner xlen block hidden reservationName).visitContent c offset
        ⟨[root.declaring d], path, none, rootCells, reservedMemory, found, spans⟩ =
      (do
        reject (1 < (reservedMemory.toList ++ c.reserved offset).length) .invalidArgs
        return ⟨[root.declaring (c.declared false d)], path, none, rootCells,
          (reservedMemory.toList ++ c.reserved offset).head?,
          found || c.reservationExists reservationName, spans ++ c.spans hidden path offset⟩) := by
  induction c generalizing offset d reservedMemory found spans with
  | nil =>
    cases reservedMemory <;>
      simp [Content.reserved, Content.declared, Content.reservationExists, Content.spans]
  | nop rest ih =>
    rw [Visitor.visitContent_nop]
    exact ih hc _ d reservedMemory found spans
  | property raw name value rest ih =>
    rw [Visitor.visitContent_property, planner_checkProperty, ok_bind, planner_property,
      EditPlanner.recordProperty]
    simp only [root.recordProperty_declaring d hc.1, ok_bind, hroot]
    exact ih hc.2 _ _ reservedMemory found spans
  | node raw name inner rest _ ihRest =>
    obtain ⟨hinner, hrest⟩ := hc
    rw [Visitor.visitContent_node, planner_beginNode, EditPlanner.beginNode_inside, ok_bind,
      visitContent_planner_below hinner, ok_bind, planner_endNode, EditPlanner.endNode_opened,
      EditPlanner.opened_isReservedMemory]
    have hparent : (root.declaring d).isReservedMemory = false := hroot
    cases hname : EditPlanner.isReservedMemoryName name with
    | false =>
      simp only [hname, hparent, Bool.and_false, Bool.false_and, reject_false, ok_bind,
        Bool.false_eq_true, ↓reduceIte, Bool.or_false, pure_bind, ihRest hrest, Content.reserved,
        Content.declared, Content.reservationExists, Content.spans, List.nil_append, Bool.false_or,
        List.append_assoc]
    | true =>
      cases reservedMemory with
      | some other =>
        have htwo : decide (1 < ((some other).toList ++
            (Content.node raw name inner rest).reserved offset).length) = true := by
          simp [Content.reserved, hname]
        rw [htwo]
        rfl
      | none =>
        simp only [hname, hparent, List.isEmpty_nil, Bool.true_and, Option.isSome_none, reject_false,
          ok_bind, ↓reduceIte, Bool.false_and, Bool.or_false, pure_bind, ihRest hrest,
          Content.reserved, Content.declared, Content.reservationExists, Content.spans,
          Option.toList_none, Option.toList_some, List.nil_append, Bool.or_assoc, List.append_assoc]
        rfl

end Planner

/-! ## Planning on a block -/

theorem Content.celled_of_check {xlen : Xlen} {c : Content} {depth : Nat} {parentCells : CellCounts}
    {known known' : ValidationNode} (h : c.check xlen depth parentCells known = .ok known') :
    c.Celled := by
  induction c generalizing depth parentCells known known' with
  | nil => trivial
  | nop rest ih => exact ih h
  | property raw name value rest ih =>
    simp only [check, bind_eq_ok_iff] at h
    obtain ⟨-, -, known₁, hrecord, hrest⟩ := h
    refine ⟨?_, ih hrest⟩
    rintro (haddress | hsize)
    · rw [ValidationNode.record, if_pos haddress, bind_eq_ok_iff] at hrecord
      obtain ⟨cell, hcell, -⟩ := hrecord
      exact (singleCell_eq_ok_iff.mp hcell).1
    · have hne : name ≠ ascii "#address-cells" := by
        rw [hsize]
        decide
      rw [ValidationNode.record, if_neg hne, if_pos hsize, bind_eq_ok_iff] at hrecord
      obtain ⟨cell, hcell, -⟩ := hrecord
      exact (singleCell_eq_ok_iff.mp hcell).1
  | node raw name inner rest ihInner ihRest =>
    simp only [check, bind_eq_ok_iff] at h
    obtain ⟨-, -, _, hinner, hrest⟩ := h
    exact ⟨ihInner hinner, ihRest hrest⟩

namespace Root

/-- The offset of the content of the root. -/
def innerOffset (root : Root) : Nat := 4 * root.lead + root.raw.length

/-- The plan for a block. -/
def plan (root : Root) (hidden : List ByteString) (reservationName : Option ByteString) :
    EditPlan where
  rootEnd := root.innerOffset + root.inner.bytes.length
  rootCells := (root.inner.declared false .fresh).cells
  reservedMemory := (root.inner.reserved root.innerOffset).head?
  reservationExists := root.inner.reservationExists reservationName
  hiddenNodes := root.inner.spans hidden (ascii "/") root.innerOffset

/-- Planning a block that validates fails at a second reserved-memory node only. -/
theorem planEdits_eq {xlen : Xlen} {strings : ByteString} {root : Root}
    (hvalid : root.Valid xlen strings) (hroom : root.block.length < xlen.words)
    {hidden : List ByteString} (hhidden : ascii "/" ∉ hidden)
    (reservationName : Option ByteString) :
    planEdits xlen root.block strings hidden reservationName = (do
      reject (1 < (root.inner.reserved root.innerOffset).length) .invalidArgs
      return root.plan hidden reservationName) := by
  obtain ⟨known, hcheck⟩ := hvalid.checked
  have hcelled := Content.celled_of_check hcheck
  rw [planEdits, Visitor.walk_block _ hroom hvalid.content_spelled, content,
    Visitor.visitContent_nops, Visitor.visitContent_node, planner_beginNode]
  have hbegin : EditPlanner.new.beginNode (0 + 4 * root.lead) [] hidden reservationName =
      .ok ⟨[(EditPlanner.opened (0 + 4 * root.lead) [] [] hidden reservationName []).declaring .fresh],
        ascii "/", none, none, none, false, []⟩ := rfl
  rw [hbegin, ok_bind, visitContent_planner_root hcelled _ _ rfl, bind_assoc, bind_assoc]
  have hoffset : 0 + 4 * root.lead + root.raw.length = root.innerOffset := by
    rw [innerOffset, Nat.zero_add]
  rw [hoffset, Option.toList_none, List.nil_append, List.nil_append]
  refine bind_congr fun _ => ?_
  rw [pure_bind, planner_endNode]
  have hend : EditPlanner.endNode
      ⟨[(EditPlanner.opened (0 + 4 * root.lead) [] [] hidden reservationName []).declaring
          (root.inner.declared false .fresh)], ascii "/", none, none,
        (root.inner.reserved root.innerOffset).head?,
        false || root.inner.reservationExists reservationName,
        root.inner.spans hidden (ascii "/") root.innerOffset⟩
      (root.innerOffset + root.inner.bytes.length) (root.innerOffset + root.inner.bytes.length + 4) =
      .ok ⟨[], [], some (root.innerOffset + root.inner.bytes.length),
        some (root.inner.declared false .fresh).cells, (root.inner.reserved root.innerOffset).head?,
        root.inner.reservationExists reservationName,
        root.inner.spans hidden (ascii "/") root.innerOffset⟩ := by
    have hhide : (EditPlanner.opened (0 + 4 * root.lead) [] [] hidden reservationName []).hide =
        false := decide_eq_false hhidden
    simp only [EditPlanner.endNode, OpenNode.declaring, hhide, Bool.false_or]
    simp only [EditPlanner.opened, List.head?_nil, Option.any_none, Bool.false_and, Bool.or_false]
    rfl
  rw [hend, ok_bind, Visitor.visitContent_nops, Visitor.visitContent_nil, ok_bind]
  have htrailing : checkTrailing root.block (root.content.bytes.length + 4) = .ok () := by
    rw [root.checkTrailing_block, hvalid.trailing]
    rfl
  have hfinish : ∀ s : EditPlanner,
      (planner xlen root.block hidden reservationName).finish (root.content.bytes.length + 4) s =
        s.finish := by
    intro s
    show (do checkTrailing root.block (root.content.bytes.length + 4); s.finish) = s.finish
    rw [htrailing]
    rfl
  rw [content] at hfinish
  rw [hfinish]
  rfl

end Root

end RustSbi.DeviceTree
