import RustSbi.DeviceTree.Discovery
import RustSbi.DeviceTree.Outcome
import RustSbi.Memory.Registry

/-!
The memory that a platform description states (`runtime/device_tree.rs`) and the
description that the next stage gets (`platform/handoff.rs`). The prepared blob, read
as the firmware reads one, states the same RAM and the same reservations and one more
for the firmware image, so what it leaves to the supervisor is what the firmware left.
-/

namespace RustSbi.DeviceTree

open Bytes Memory

variable {xlen : Xlen}

/-! ## The reading of memory -/

abbrev Properties := List (ByteString × ByteString)

/-- What the `fdt` crate reads of a decoded tree, and what its documentation says of it: the
value of a property, the regions of `reg` in the cells of the parent, the first child that a
name leads to with or without a unit address, and the memory reservations. -/
structure FdtCrate (xlen : Xlen) where
  property : Properties → ByteString → Option ByteString
  reg : Properties → Properties → Option (List (Nat × Option Nat))
  findNode : Node → ByteString → Option Node
  memoryReservations : ByteString → List (Nat × Nat)
  property_eq : ∀ properties name, (properties.map Prod.fst).Nodup →
    property properties name = (Node.mk [] properties []).lookup name
  reg_eq : ∀ parent properties cells address size, (parent.map Prod.fst).Nodup →
    (Node.mk [] parent []).cells = cells → cells.Narrow →
    property properties (ascii "reg") =
      some (beBytes (4 * cells.addressCells) address ++ beBytes (4 * cells.sizeCells) size) →
    address < 2 ^ (32 * cells.addressCells) → size < 2 ^ (32 * cells.sizeCells) →
    address < xlen.words → size < xlen.words → reg parent properties = some [(address, some size)]
  findNode_eq : ∀ root, findNode root (ascii "/reserved-memory") =
    root.children.find? Node.isReservedMemory

/-- One node of `all_nodes`, with the properties of its parent. -/
structure Entry where
  parent : Properties
  name : ByteString
  properties : Properties

mutual

/-- The nodes of a tree, each before its children. -/
def Node.entries (parent : Properties) : Node → List Entry
  | .mk name properties children => ⟨parent, name, properties⟩ :: entriesAll properties children

def entriesAll (parent : Properties) : List Node → List Entry
  | [] => []
  | node :: rest => node.entries parent ++ entriesAll parent rest

end

/-- The name of a memory node: `node.name.split('@').next() == Some("memory")`. -/
def isMemoryName (name : ByteString) : Bool := name.takeWhile (· != 0x40) == ascii "memory"

/-- `record_nonempty_range`. -/
def recordNonemptyRange (xlen : Xlen) (ranges : List (PhysAddrRange xlen)) (start : Nat)
    (size : Option Nat) : Result (List (PhysAddrRange xlen)) :=
  match size with
  | none => .error .invalidArgs
  | some size =>
    if size = 0 then .ok ranges
    else do
      let range ← PhysAddrRange.fromStartLen xlen start size
      return ranges ++ [range]

namespace FdtCrate

variable (crate : FdtCrate xlen)

/-- `node_is_enabled`. -/
def enabled (properties : Properties) : Bool :=
  statusIsEnabled (crate.property properties (ascii "status"))

/-- The regions of one node, recorded in their order. -/
def recordRegions (parent properties : Properties) (ranges : List (PhysAddrRange xlen)) :
    Result (List (PhysAddrRange xlen)) := do
  let regions ← okOr (crate.reg parent properties) .invalidArgs
  regions.foldlM (fun ranges region => recordNonemptyRange xlen ranges region.1 region.2) ranges

/-- The first loop of `memory_ranges`. -/
def ramRanges (root : Node) : Result (List (PhysAddrRange xlen)) :=
  ((root.entries []).filter fun entry => isMemoryName entry.name && crate.enabled entry.properties)
    |>.foldlM (fun ram entry => crate.recordRegions entry.parent entry.properties ram) []

/-- The body of the loop over the children of `/reserved-memory`. -/
def recordReserved (parent : Properties) (reserved : List (PhysAddrRange xlen))
    (properties : Properties) : Result (List (PhysAddrRange xlen)) :=
  if (crate.property properties (ascii "reg")).isNone then .ok reserved
  else crate.recordRegions parent properties reserved

/-- The loop over the children of `/reserved-memory`, if that node is there and enabled. -/
def recordReservedMemory (reservedMemory : Option Node) (reserved : List (PhysAddrRange xlen)) :
    Result (List (PhysAddrRange xlen)) :=
  match reservedMemory with
  | none => .ok reserved
  | some node =>
    if crate.enabled node.properties then
      ((node.children.map Node.properties).filter crate.enabled).foldlM
        (crate.recordReserved node.properties) reserved
    else .ok reserved

/-- The two sources of reservations in `memory_ranges`. -/
def reservedRanges (blob : Blob) : Result (List (PhysAddrRange xlen)) := do
  let reserved ← (crate.memoryReservations blob.reservations).foldlM
    (fun reserved reservation => recordNonemptyRange xlen reserved reservation.1 (some reservation.2))
    []
  crate.recordReservedMemory (crate.findNode blob.root (ascii "/reserved-memory")) reserved

/-- `memory_ranges`. -/
def memoryRanges (blob : Blob) :
    Result (List (PhysAddrRange xlen) × List (PhysAddrRange xlen)) := do
  let ram ← crate.ramRanges blob.root
  if ram.isEmpty then .error .notEnoughResources
  else do
    let reserved ← crate.reservedRanges blob
    return (ram, reserved)

end FdtCrate

/-- `PlatformDescription::prepare_next_stage`, on the bytes of the description. -/
def prepareNextStageDescription (source : ByteString)
    (firmwareReservation : Option (PhysAddrRange xlen)) (hiddenNodePaths : List ByteString) :
    Fallible ByteString :=
  if firmwareReservation.isNone && hiddenNodePaths.isEmpty then .ok source
  else do
    let reservation ← firmwareReservation.mapM fun range => orFail
      (Reservation.new (BitVec.ofNat 64 range.start) (BitVec.ofNat 64 range.size)) .invalidArgs
    prepareNextStage xlen source reservation hiddenNodePaths

/-- `prepare_device_tree`. -/
def prepareDeviceTree (memory : MemoryRegistry xlen) (hiddenNodePaths : List ByteString)
    (source : ByteString) : Fallible ByteString :=
  let firmwareReservation :=
    if memory.firmwareIsReserved then none else some memory.firmwareImageRange
  prepareNextStageDescription source firmwareReservation hiddenNodePaths

/-! ## Hidden devices -/

/-- The hidden nodes are devices: no memory node is at or below one, and neither the
reserved-memory node nor a child of it is hidden. -/
structure Node.HidesDevices (root : Node) (hidden : List ByteString) : Prop where
  memory : ∀ p ∈ root.descendants [], pathOf p.1 ∈ hidden →
    ∀ entry ∈ p.2.entries [], isMemoryName entry.name = false
  reserved : ∀ node ∈ root.children, node.isReservedMemory = true → pathOf [node.name] ∉ hidden ∧
    ∀ child ∈ node.children, pathOf [node.name, child.name] ∉ hidden

theorem Node.HidesDevices.keepsReserved {root : Node} {hidden : List ByteString}
    (h : root.HidesDevices hidden) : root.KeepsReserved hidden :=
  fun node hmem hnode => (h.reserved node hmem hnode).1

/-- The entries of memory nodes. -/
def memoryEntries (entries : List Entry) : List Entry :=
  entries.filter fun entry => isMemoryName entry.name

theorem memoryEntries_append (a b : List Entry) :
    memoryEntries (a ++ b) = memoryEntries a ++ memoryEntries b := List.filter_append ..

theorem memoryEntries_cons {entry : Entry} (h : isMemoryName entry.name = false)
    (entries : List Entry) : memoryEntries (entry :: entries) = memoryEntries entries :=
  List.filter_cons_of_neg (Bool.eq_false_iff.mp h)

/-- Whether memory stands below a node does not depend on its parent. -/
theorem memoryEntries_eq_nil {node : Node} (h : ∀ entry ∈ node.entries [], isMemoryName entry.name = false)
    (parent : Properties) : memoryEntries (node.entries parent) = [] := by
  obtain ⟨name, properties, children⟩ := node
  simp only [Node.entries, List.forall_mem_cons] at h ⊢
  refine List.filter_eq_nil_iff.mpr fun entry hentry => ?_
  rw [Bool.not_eq_true]
  obtain rfl | hentry := List.mem_cons.mp hentry
  · exact h.1
  · exact h.2 entry hentry

mutual

theorem Node.memoryEntries_prune (hidden : List ByteString) :
    ∀ (node : Node) (names : List ByteString) (parent : Properties),
      (∀ p ∈ node.descendants names, pathOf p.1 ∈ hidden →
        ∀ entry ∈ p.2.entries [], isMemoryName entry.name = false) →
      memoryEntries ((node.prune hidden names).entries parent) = memoryEntries (node.entries parent)
  | .mk name properties children, names, parent, h => by
    simp only [Node.prune, Node.entries, memoryEntries, List.filter_cons]
    have hrest := memoryEntries_pruneAll hidden children names properties h
    simp only [memoryEntries] at hrest
    rw [hrest]

theorem memoryEntries_pruneAll (hidden : List ByteString) :
    ∀ (children : List Node) (names : List ByteString) (parent : Properties),
      (∀ p ∈ descendantsAll names children, pathOf p.1 ∈ hidden →
        ∀ entry ∈ p.2.entries [], isMemoryName entry.name = false) →
      memoryEntries (entriesAll parent (pruneAll hidden names children)) =
        memoryEntries (entriesAll parent children)
  | [], _, _, _ => rfl
  | node :: rest, names, parent, h => by
    simp only [descendantsAll, List.forall_mem_cons, List.forall_mem_append] at h
    obtain ⟨hself, hbelow, hrest⟩ := h
    have hnext := memoryEntries_pruneAll hidden rest names parent hrest
    simp only [pruneAll, entriesAll, memoryEntries_append]
    split
    next hpath => rw [memoryEntries_eq_nil (hself hpath) parent, List.nil_append, hnext]
    next hpath =>
      rw [entriesAll, memoryEntries_append, hnext,
        node.memoryEntries_prune hidden (names ++ [node.name]) parent hbelow]

end

theorem properties_pruneAll (hidden : List ByteString) :
    ∀ (children : List Node) (names : List ByteString),
      (∀ node ∈ children, pathOf (names ++ [node.name]) ∉ hidden) →
      (pruneAll hidden names children).map Node.properties = children.map Node.properties
  | [], _, _ => rfl
  | .mk name properties children :: rest, names, h => by
    obtain ⟨hself, hrest⟩ := List.forall_mem_cons.mp h
    simp only [pruneAll, if_neg hself, Node.prune, List.map_cons, Node.properties_mk,
      properties_pruneAll hidden rest names hrest]

theorem find?_pruneAll (hidden : List ByteString) :
    ∀ children : List Node,
      (∀ node ∈ children, node.isReservedMemory = true → pathOf [node.name] ∉ hidden) →
      (pruneAll hidden [] children).find? Node.isReservedMemory =
        (children.find? Node.isReservedMemory).map fun node => node.prune hidden [node.name]
  | [], _ => rfl
  | .mk name properties children :: rest, h => by
    obtain ⟨hself, hrest⟩ := List.forall_mem_cons.mp h
    have hnext := find?_pruneAll hidden rest hrest
    by_cases hname : EditPlanner.isReservedMemoryName name = true
    · have hpath : pathOf [name] ∉ hidden := hself hname
      simp [pruneAll, Node.prune, hname, hpath]
    · by_cases hpath : pathOf [name] ∈ hidden <;>
        simp [pruneAll, Node.prune, hname, hpath, hnext]

namespace FdtCrate

variable (crate : FdtCrate xlen)

theorem ramRanges_congr {root root' : Node}
    (h : memoryEntries (root'.entries []) = memoryEntries (root.entries [])) :
    crate.ramRanges root' = crate.ramRanges root := by
  have hfilter : ∀ entries : List Entry,
      (entries.filter fun entry => isMemoryName entry.name && crate.enabled entry.properties) =
        (memoryEntries entries).filter fun entry => crate.enabled entry.properties := by
    intro entries
    rw [memoryEntries, List.filter_filter]
    simp only [Bool.and_comm]
  rw [ramRanges, ramRanges, hfilter, hfilter, h]

/-- Hiding devices does not change the memory that a description states. -/
theorem memoryRanges_prune {blob : Blob} {hidden : List ByteString}
    (h : blob.root.HidesDevices hidden) :
    crate.memoryRanges { blob with root := blob.root.prune hidden [] } = crate.memoryRanges blob := by
  have hram : crate.ramRanges (blob.root.prune hidden []) = crate.ramRanges blob.root :=
    crate.ramRanges_congr (blob.root.memoryEntries_prune hidden [] [] h.memory)
  have hreserved : crate.reservedRanges { blob with root := blob.root.prune hidden [] } =
      crate.reservedRanges blob := by
    have hfind := find?_pruneAll hidden blob.root.children fun node hmem hnode =>
      (h.reserved node hmem hnode).1
    have hchildren : (blob.root.prune hidden []).children = pruneAll hidden [] blob.root.children := by
      cases blob.root
      rfl
    simp only [reservedRanges, crate.findNode_eq, hchildren, hfind]
    cases hnode : blob.root.children.find? Node.isReservedMemory with
    | none => rfl
    | some node =>
      have hbelow := (h.reserved node (List.mem_of_find?_eq_some hnode)
        (List.find?_some hnode)).2
      obtain ⟨name, properties, children⟩ := node
      have hproperties := properties_pruneAll hidden children [name] hbelow
      simp only [Option.map_some, recordReservedMemory, Node.prune, Node.properties_mk,
        Node.children_mk, Node.name_mk, hproperties]
      rfl
  rw [memoryRanges, memoryRanges, hram, hreserved]

/-! ## One more reservation -/

/-- A reservation that stands for a range. -/
def Stands (reservation : Reservation) (range : PhysAddrRange xlen) : Prop :=
  reservation.address.toNat = range.start ∧ reservation.size.toNat = range.size

theorem recordNonemptyRange_range (ranges : List (PhysAddrRange xlen)) (range : PhysAddrRange xlen) :
    recordNonemptyRange xlen ranges range.start (some range.size) = .ok (ranges ++ [range]) := by
  have hlt := range.start_lt_stop
  have hwords := range.stop_lt_words
  have hsize : range.size ≠ 0 := by
    simp only [PhysAddrRange.size]
    omega
  have hstop : range.start + range.size = range.stop := by
    simp only [PhysAddrRange.size]
    omega
  have hrange : PhysAddrRange.fromStartLen xlen range.start range.size = .ok range := by
    simp only [PhysAddrRange.fromStartLen, if_neg hsize, hstop, dif_pos hwords, PhysAddrRange.new,
      dif_pos hlt]
  simp only [recordNonemptyRange, if_neg hsize, hrange]
  rfl

theorem reservation_distinct (reservation : Reservation) (cells : CellCounts) :
    ((reservation.node cells).properties.map Prod.fst).Nodup := by
  have hne : ascii "reg" ≠ ascii "no-map" := by decide +kernel
  simp [Reservation.node, hne]

theorem enabled_reservation (reservation : Reservation) (cells : CellCounts) :
    crate.enabled (reservation.node cells).properties = true := by
  have hreg : ascii "reg" ≠ ascii "status" := by decide +kernel
  have hnoMap : ascii "no-map" ≠ ascii "status" := by decide +kernel
  rw [enabled, crate.property_eq _ _ (reservation_distinct reservation cells)]
  simp [Reservation.node, Node.lookup, hreg, hnoMap, statusIsEnabled]

theorem property_reservation (reservation : Reservation) (cells : CellCounts) :
    crate.property (reservation.node cells).properties (ascii "reg") = some (reservation.reg cells) := by
  have hne : ascii "no-map" ≠ ascii "reg" := by decide +kernel
  rw [crate.property_eq _ _ (reservation_distinct reservation cells)]
  simp [Reservation.node, Node.lookup, hne]

/-- The reservation is read back as the range it stands for. -/
theorem recordReserved_reservation {reservation : Reservation} {range : PhysAddrRange xlen}
    (hstands : Stands reservation range) {parent : Properties} {cells : CellCounts}
    (hdistinct : (parent.map Prod.fst).Nodup) (hcells : (Node.mk [] parent []).cells = cells)
    (hnarrow : cells.Narrow) (hfits : reservation.Fits cells) (reserved : List (PhysAddrRange xlen)) :
    crate.recordReserved parent reserved (reservation.node cells).properties =
      .ok (reserved ++ [range]) := by
  have hproperty := crate.property_reservation reservation cells
  have hlt := range.start_lt_stop
  have hwords := range.stop_lt_words
  have hregions : crate.reg parent (reservation.node cells).properties =
      some [(range.start, some range.size)] := by
    rw [← hstands.1, ← hstands.2]
    refine crate.reg_eq parent _ cells _ _ hdistinct hcells hnarrow hproperty hfits.1 hfits.2 ?_ ?_
    · rw [hstands.1]
      omega
    · rw [hstands.2, PhysAddrRange.size]
      omega
  rw [recordReserved, hproperty, recordRegions, hregions]
  change [(range.start, some range.size)].foldlM (fun ranges region =>
    recordNonemptyRange xlen ranges region.1 region.2) reserved = _
  rw [List.foldlM_cons, recordNonemptyRange_range]
  rfl

/-- What the reserved-memory node of a root must be for a reservation in it. -/
structure Takes (root : Node) (reservation : Reservation) : Prop where
  narrow : root.cells.Narrow
  fits : reservation.Fits root.cells
  node : ∀ node, root.children.find? Node.isReservedMemory = some node →
    node.isEnabled = true ∧ node.cells = root.cells ∧ (node.properties.map Prod.fst).Nodup

theorem isMemoryName_reservation (reservation : Reservation) :
    isMemoryName reservation.name = false := by
  obtain ⟨rest, hrest⟩ : ∃ rest, reservation.name = 0x6d :: 0x6d :: rest := ⟨_, rfl⟩
  obtain ⟨other, hother⟩ : ∃ other, ascii "memory" = 0x6d :: 0x65 :: other := ⟨_, rfl⟩
  rw [isMemoryName, hrest, hother, List.takeWhile_cons_of_pos (by decide),
    List.takeWhile_cons_of_pos (by decide)]
  rfl

theorem isReservedMemory_addReservation (reservation : Reservation) (node : Node) :
    (node.addReservation reservation).isReservedMemory = node.isReservedMemory := by
  unfold Node.addReservation
  split <;> rfl

theorem find?_addReservation (reservation : Reservation) (children : List Node) :
    (children.map (Node.addReservation reservation)).find? Node.isReservedMemory =
      (children.find? Node.isReservedMemory).map (Node.addReservation reservation) := by
  rw [List.find?_map]
  simp only [Function.comp_def, isReservedMemory_addReservation]

theorem entriesAll_append (parent : Properties) (a b : List Node) :
    entriesAll parent (a ++ b) = entriesAll parent a ++ entriesAll parent b := by
  induction a with
  | nil => rfl
  | cons node rest ih => rw [List.cons_append, entriesAll, entriesAll, ih, List.append_assoc]

theorem memoryEntries_reservation (reservation : Reservation) (cells : CellCounts)
    (parent : Properties) : memoryEntries ((reservation.node cells).entries parent) = [] := by
  simp [Reservation.node, Node.entries, entriesAll, memoryEntries, isMemoryName_reservation]

theorem memoryEntries_addReservation (reservation : Reservation) (node : Node)
    (parent : Properties) : memoryEntries ((node.addReservation reservation).entries parent) =
      memoryEntries (node.entries parent) := by
  obtain ⟨name, properties, children⟩ := node
  unfold Node.addReservation
  split
  · rw [Node.addChild_mk, Node.entries, entriesAll_append, ← List.cons_append,
      memoryEntries_append, entriesAll, entriesAll, List.append_nil, memoryEntries_reservation,
      List.append_nil, Node.entries]
  · rfl

theorem memoryEntries_reserve (root : Node) (reservation : Reservation) :
    memoryEntries ((root.reserve reservation).entries []) = memoryEntries (root.entries []) := by
  obtain ⟨name, properties, children⟩ := root
  have hmapped : ∀ children : List Node,
      memoryEntries (entriesAll properties (children.map (Node.addReservation reservation))) =
        memoryEntries (entriesAll properties children) := by
    intro children
    induction children with
    | nil => rfl
    | cons node rest ih =>
      rw [List.map_cons, entriesAll, entriesAll, memoryEntries_append, memoryEntries_append, ih,
        memoryEntries_addReservation]
  have hparent : memoryEntries ((reservation.parent (Node.mk name properties children).cells).entries
      properties) = [] := by
    have hname : isMemoryName (ascii "reserved-memory") = false := by decide +kernel
    rw [Reservation.parent, Node.entries, memoryEntries_cons hname, entriesAll, entriesAll,
      List.append_nil, memoryEntries_reservation]
  unfold Node.reserve
  split
  · have hrest := hmapped children
    simp only [memoryEntries, Node.entries, Node.children_mk, Node.properties_mk, Node.name_mk,
      List.filter_cons] at hrest ⊢
    rw [hrest]
  · simp only [Node.addChild_mk, Node.entries, entriesAll_append, ← List.cons_append,
      memoryEntries_append, entriesAll, List.append_nil, hparent]

theorem enabled_of_isEnabled {node : Node} (henabled : node.isEnabled = true)
    (hdistinct : (node.properties.map Prod.fst).Nodup) : crate.enabled node.properties = true := by
  rw [enabled, crate.property_eq _ _ hdistinct]
  change statusIsEnabled (node.lookup (ascii "status")) = true
  unfold Node.isEnabled at henabled
  cases hstatus : node.lookup (ascii "status") with
  | none => rfl
  | some status =>
    rw [hstatus] at henabled
    exact henabled

theorem recordReservedMemory_enabled {node : Node} (h : crate.enabled node.properties = true)
    (before : List (PhysAddrRange xlen)) :
    crate.recordReservedMemory (some node) before =
      ((node.children.map Node.properties).filter crate.enabled).foldlM
        (crate.recordReserved node.properties) before :=
  if_pos h

/-- The reservation is the last child to be recorded. -/
theorem recordReservedMemory_addChild {node : Node} {cells : CellCounts} {reservation : Reservation}
    {range : PhysAddrRange xlen} (hstands : Stands reservation range)
    (henabled : node.isEnabled = true) (hdistinct : (node.properties.map Prod.fst).Nodup)
    (hcells : node.cells = cells) (hnarrow : cells.Narrow) (hfits : reservation.Fits cells)
    {reserved before : List (PhysAddrRange xlen)}
    (h : crate.recordReservedMemory (some node) before = .ok reserved) :
    crate.recordReservedMemory (some (node.addChild (reservation.node cells))) before =
      .ok (reserved ++ [range]) := by
  have hon := crate.enabled_of_isEnabled henabled hdistinct
  have hchild := crate.enabled_reservation reservation cells
  have hsame : (Node.mk [] node.properties []).cells = cells := hcells
  have hrecord :=
    crate.recordReserved_reservation hstands hdistinct hsame hnarrow hfits reserved
  have hchildren : (node.addChild (reservation.node cells)).children.map Node.properties =
      node.children.map Node.properties ++ [(reservation.node cells).properties] := by
    rw [Node.addChild, Node.children_mk, List.map_append, List.map_singleton]
  have hproperties : (node.addChild (reservation.node cells)).properties = node.properties := rfl
  rw [crate.recordReservedMemory_enabled hon] at h
  rw [crate.recordReservedMemory_enabled (hproperties ▸ hon), hchildren, hproperties,
    List.filter_append, List.foldlM_append, h, List.filter_cons_of_pos hchild, List.filter_nil]
  change (crate.recordReserved node.properties reserved (reservation.node cells).properties >>=
    pure) = _
  rw [hrecord]
  rfl

/-- A fresh reserved-memory node is the one of no children with one child added. -/
theorem recordReservedMemory_parent {cells : CellCounts} {reservation : Reservation}
    {range : PhysAddrRange xlen} (hstands : Stands reservation range) (hnarrow : cells.Narrow)
    (hfits : reservation.Fits cells) (reserved : List (PhysAddrRange xlen)) :
    crate.recordReservedMemory (some (reservation.parent cells)) reserved =
      .ok (reserved ++ [range]) := by
  have hdistinct : ((reservation.parent cells).properties.map Prod.fst).Nodup := by
    simp only [Reservation.parent, Node.properties_mk, List.map_cons, List.map_nil]
    decide +kernel
  have hsize : ascii "#size-cells" ≠ ascii "status" := by decide +kernel
  have haddress : ascii "#address-cells" ≠ ascii "status" := by decide +kernel
  have hranges : ascii "ranges" ≠ ascii "status" := by decide +kernel
  have henabled : (Node.mk (ascii "reserved-memory") (reservation.parent cells).properties
      []).isEnabled = true := by
    simp [Node.isEnabled, Reservation.parent, Node.lookup, hsize, haddress, hranges]
  have hempty : crate.recordReservedMemory (some (Node.mk (ascii "reserved-memory")
      (reservation.parent cells).properties [])) reserved = .ok reserved := by
    rw [crate.recordReservedMemory_enabled (crate.enabled_of_isEnabled henabled hdistinct)]
    rfl
  exact crate.recordReservedMemory_addChild hstands henabled hdistinct
    (reservation.cells_parent hnarrow) hnarrow hfits hempty

theorem recordReservedMemory_reserve {root : Node} {reservation : Reservation}
    {range : PhysAddrRange xlen} (hstands : Stands reservation range) (htakes : Takes root reservation)
    {before reserved : List (PhysAddrRange xlen)}
    (h : crate.recordReservedMemory (root.children.find? Node.isReservedMemory) before = .ok reserved) :
    crate.recordReservedMemory ((root.reserve reservation).children.find? Node.isReservedMemory) before =
      .ok (reserved ++ [range]) := by
  obtain ⟨hnarrow, hfits, hnode⟩ := htakes
  cases hfound : root.children.find? Node.isReservedMemory with
  | none =>
    rw [hfound] at h
    cases h
    have hany : ¬ root.children.any Node.isReservedMemory = true := by
      rw [List.any_eq_true]
      rintro ⟨node, hmem, hname⟩
      exact List.find?_eq_none.mp hfound node hmem hname
    have hname : EditPlanner.isReservedMemoryName (ascii "reserved-memory") = true := by
      decide +kernel
    have hparent : (reservation.parent root.cells).isReservedMemory = true := hname
    have hchildren : (root.reserve reservation).children =
        root.children ++ [reservation.parent root.cells] := by
      rw [Node.reserve, if_neg hany]
      rfl
    rw [hchildren, List.find?_append, hfound, Option.none_or, List.find?_cons_of_pos hparent]
    exact crate.recordReservedMemory_parent hstands hnarrow hfits before
  | some node =>
    rw [hfound] at h
    have hmem := List.mem_of_find?_eq_some hfound
    have hname := List.find?_some hfound
    obtain ⟨henabled, hcells, hdistinct⟩ := hnode node hfound
    have hany : root.children.any Node.isReservedMemory = true :=
      List.any_eq_true.mpr ⟨node, hmem, hname⟩
    have hchildren : (root.reserve reservation).children =
        root.children.map (Node.addReservation reservation) := by
      rw [Node.reserve, if_pos hany]
      rfl
    rw [hchildren, find?_addReservation, hfound, Option.map_some, Node.addReservation, if_pos hname]
    exact crate.recordReservedMemory_addChild hstands henabled hdistinct rfl (hcells ▸ hnarrow)
      (hcells ▸ hfits) h

theorem memoryRanges_eq_ok_iff {blob : Blob} {ram reserved : List (PhysAddrRange xlen)} :
    crate.memoryRanges blob = .ok (ram, reserved) ↔
      crate.ramRanges blob.root = .ok ram ∧ ram.isEmpty = false ∧
        crate.reservedRanges blob = .ok reserved := by
  unfold memoryRanges
  cases crate.ramRanges blob.root with
  | error e => simp [bind, Except.bind]
  | ok found =>
    simp only [bind, Except.bind, pure, Except.pure, Except.ok.injEq]
    cases hempty : found.isEmpty with
    | true =>
      constructor
      · nofun
      · rintro ⟨rfl, hnot, -⟩
        exact absurd (hempty.symm.trans hnot) (by decide)
    | false =>
      cases crate.reservedRanges blob with
      | error e => simp
      | ok listed =>
        simp only [Bool.false_eq_true, if_false, Except.ok.injEq, Prod.mk.injEq]
        constructor
        · rintro ⟨rfl, rfl⟩
          exact ⟨rfl, hempty, rfl⟩
        · rintro ⟨rfl, -, rfl⟩
          exact ⟨rfl, rfl⟩

/-- A tree with one more reservation states one more reserved range. -/
theorem memoryRanges_reserve {blob : Blob} {reservation : Reservation} {range : PhysAddrRange xlen}
    (hstands : Stands reservation range) (htakes : Takes blob.root reservation)
    {ram reserved : List (PhysAddrRange xlen)} (h : crate.memoryRanges blob = .ok (ram, reserved)) :
    crate.memoryRanges { blob with root := blob.root.reserve reservation } =
      .ok (ram, reserved ++ [range]) := by
  obtain ⟨hram, hempty, hreserved⟩ := crate.memoryRanges_eq_ok_iff.mp h
  refine crate.memoryRanges_eq_ok_iff.mpr ⟨?_, hempty, ?_⟩
  · rw [← hram]
    exact crate.ramRanges_congr (memoryEntries_reserve blob.root reservation)
  · unfold reservedRanges at hreserved ⊢
    rw [crate.findNode_eq] at hreserved ⊢
    dsimp only at hreserved ⊢
    revert hreserved
    generalize (crate.memoryReservations blob.reservations).foldlM (fun reserved reservation =>
      recordNonemptyRange xlen reserved reservation.1 (some reservation.2)) [] = listed
    cases listed with
    | error e => exact nofun
    | ok before => exact fun h => crate.recordReservedMemory_reserve hstands htakes h

end FdtCrate

/-! ## The registry of the prepared description -/

section Registration

open HalfOpen PhysAddrRange

variable {firmware : PhysAddrRange xlen} {ram reserved : List (PhysAddrRange xlen)}
  {supervisor supervisor' : SupervisorMemory xlen} {registry registry' : MemoryRegistry xlen}

/-- A reservation of the firmware image takes nothing more from the supervisor. -/
theorem supervisor_of_reserved
    (h : MemoryRegistry.fromRangesWithFirmware firmware ram reserved = .ok (supervisor, registry))
    (h' : MemoryRegistry.fromRangesWithFirmware firmware ram (reserved ++ [firmware]) =
      .ok (supervisor', registry')) :
    supervisor' = supervisor ∧ registry'.firmwareIsReserved = true := by
  refine ⟨?_, ?_⟩
  · have hregions : supervisor'.regions = supervisor.regions := by
      refine (regions_apart h').eq_of_covers (regions_apart h) (fun p => p.start_lt_stop)
        (fun p q hstart hstop => PhysAddrRange.ext hstart hstop) fun a => ?_
      refine ((covered_regions h' a).trans ?_).trans (covered_regions h a).symm
      simp only [covers_append, covers_cons, covers_nil, Set.mem_Ico, ← mem_iff, or_false, not_or]
      tauto
    cases supervisor
    cases supervisor'
    exact congrArg SupervisorMemory.mk hregions
  · obtain ⟨rfl, -, -⟩ := fromRangesWithFirmware_ok h'
    have hcovered : ∀ a ∈ Set.Ico firmware.start firmware.stop,
        Covered (normalizeReservedRanges (reserved ++ [firmware])) a := by
      intro a ha
      rw [covered_normalizeReservedRanges]
      exact ⟨firmware, by simp, ha⟩
    obtain ⟨p, hp, hstart, hstop⟩ := (normalizeReservedRanges_apart _).exists_contains
      firmware.start_lt_stop hcovered
    exact List.any_eq_true.mpr ⟨p, hp, (contains_iff p firmware).mpr ⟨hstart, hstop⟩⟩

theorem deriveSupervisorMemory_eq_ok_iff {memory : MemoryRegistry xlen} :
    memory.deriveSupervisorMemory = .ok supervisor ↔
      memory.ramRanges.any (fun p => p.contains memory.firmwareImageRange) = true ∧
      supervisor.regions ≠ [] ∧ supervisor.regions = memory.ramRanges.flatMap fun p =>
        p.excluding (memory.reservedRanges ++ [memory.firmwareImageRange]) := by
  unfold MemoryRegistry.deriveSupervisorMemory
  obtain ⟨regions⟩ := supervisor
  cases memory.ramRanges.any fun p => p.contains memory.firmwareImageRange with
  | false => simp
  | true =>
    simp only [Bool.not_true, Bool.false_eq_true, if_false, true_and]
    split
    next hempty =>
      rw [List.isEmpty_iff] at hempty
      simp [hempty]
    next hempty =>
      rw [List.isEmpty_iff] at hempty
      constructor
      · rintro ⟨⟩
        exact ⟨hempty, rfl⟩
      · rintro ⟨-, rfl⟩
        rfl

theorem fromRangesWithFirmware_eq_ok_iff :
    MemoryRegistry.fromRangesWithFirmware firmware ram reserved = .ok (supervisor, registry) ↔
      ∃ ramRanges, normalizeRamRanges ram = .ok ramRanges ∧
        validateMemoryRanges ramRanges (normalizeReservedRanges reserved) = .ok () ∧
        registry = ⟨firmware, ramRanges, normalizeReservedRanges reserved, []⟩ ∧
        registry.deriveSupervisorMemory = .ok supervisor := by
  unfold MemoryRegistry.fromRangesWithFirmware
  cases normalizeRamRanges ram with
  | error e => simp [bind, Except.bind]
  | ok ramRanges =>
    simp only [bind, Except.bind, pure, Except.pure, Except.ok.injEq, exists_eq_left']
    cases validateMemoryRanges ramRanges (normalizeReservedRanges reserved) with
    | error e => simp
    | ok _ =>
      simp only [true_and]
      constructor
      · intro h
        split at h
        next => cases h
        next found hfound =>
          cases h
          exact ⟨rfl, hfound⟩
      · rintro ⟨rfl, h⟩
        rw [h]

/-- A range that only covers RAM is in one RAM range and apart from the others. -/
theorem validateMemoryRanges_of_covered {ramRanges reservedRanges : List (PhysAddrRange xlen)}
    (hapart : Apart ramRanges)
    (hinside : ∀ q ∈ reservedRanges, ∀ a ∈ q, Covered ramRanges a) :
    validateMemoryRanges ramRanges reservedRanges = .ok () := by
  refine if_neg ?_
  simp only [List.any_eq_true, Bool.and_eq_true, Bool.not_eq_true', not_exists, not_and,
    Bool.not_eq_false]
  intro q hq p hp hoverlaps
  obtain ⟨a, hap, haq⟩ := (overlaps_iff_exists p q).mp hoverlaps
  obtain ⟨p', hp', hstart, hstop⟩ := hapart.exists_contains q.start_lt_stop (hinside q hq)
  obtain rfl | hbefore | hafter := hapart.trichotomy hp hp'
  · exact (contains_iff p q).mpr ⟨hstart, hstop⟩
  · have := hap.2
    have := haq.1
    omega
  · have := hap.1
    have := haq.2
    omega

/-- Where reservations stay inside RAM the prepared description is registered. -/
theorem registers_of_reserved
    (h : MemoryRegistry.fromRangesWithFirmware firmware ram reserved = .ok (supervisor, registry))
    (hinside : ∀ r ∈ reserved, ∃ p ∈ ram, p.contains r = true) :
    ∃ registry', MemoryRegistry.fromRangesWithFirmware firmware ram (reserved ++ [firmware]) =
      .ok (supervisor, registry') := by
  obtain ⟨ramRanges, hram, -, rfl, hderive⟩ := fromRangesWithFirmware_eq_ok_iff.mp h
  obtain ⟨hfirmware, hne, hregions⟩ := deriveSupervisorMemory_eq_ok_iff.mp hderive
  obtain rfl := normalizeRamRanges_eq_reserved hram
  obtain ⟨p₀, hp₀, hcontains⟩ := List.any_eq_true.mp hfirmware
  have hcovered : ∀ q ∈ normalizeReservedRanges (reserved ++ [firmware]), ∀ a ∈ q,
      Covered (normalizeReservedRanges ram) a := by
    intro q hq a ha
    obtain ⟨r, hr, har⟩ := (covered_normalizeReservedRanges _ a).mp ⟨q, hq, ha⟩
    obtain hr | hr := List.mem_append.mp hr
    · obtain ⟨p, hp, hpr⟩ := hinside r hr
      obtain ⟨hstart, hstop⟩ := (contains_iff p r).mp hpr
      exact (covered_normalizeReservedRanges ram a).mpr
        ⟨p, hp, hstart.trans har.1, har.2.trans_le hstop⟩
    · rw [List.mem_singleton.mp hr] at har
      obtain ⟨hstart, hstop⟩ := (contains_iff p₀ firmware).mp hcontains
      exact ⟨p₀, hp₀, hstart.trans har.1, har.2.trans_le hstop⟩
  have hvalid := validateMemoryRanges_of_covered (normalizeReservedRanges_apart ram) hcovered
  have hexcluding : ∀ p : PhysAddrRange xlen,
      p.excluding (normalizeReservedRanges (reserved ++ [firmware]) ++ [firmware]) =
        p.excluding (normalizeReservedRanges reserved ++ [firmware]) := by
    intro p
    refine (excluding_apart p _).eq_of_covers (excluding_apart p _) (fun q => q.start_lt_stop)
      (fun q r hstart hstop => PhysAddrRange.ext hstart hstop) fun a => ?_
    refine (covered_excluding p _ a).trans (Iff.trans ?_ (covered_excluding p _ a).symm)
    simp only [covers_append, covers_cons, covers_nil, covered_normalizeReservedRanges, or_false]
    tauto
  refine ⟨_, fromRangesWithFirmware_eq_ok_iff.mpr ⟨_, hram, hvalid, rfl, ?_⟩⟩
  refine deriveSupervisorMemory_eq_ok_iff.mpr ⟨hfirmware, hne, hregions.trans ?_⟩
  exact List.flatMap_congr fun p _ => (hexcluding p).symm

end Registration

/-! ## The prepared description -/

section Prepared

variable {source output : ByteString} {layout : Layout} {root : Root} {hidden : List ByteString}

theorem Node.cells_prune (root : Node) (hidden : List ByteString) :
    (root.prune hidden []).cells = root.cells := by
  cases root
  rfl

/-- What a successful preparation has checked of the tree. -/
theorem Accepted.takes (h : Accepted xlen source layout root) {reservation : Reservation}
    (hprepare : prepareNextStage xlen source (some reservation) hidden = .ok output)
    (hkept : root.tree.KeepsReserved hidden)
    (hdistinct : ∀ node ∈ root.tree.children, node.isReservedMemory = true →
      (node.properties.map Prod.fst).Nodup) :
    FdtCrate.Takes (root.tree.prune hidden []) reservation := by
  obtain ⟨-, -, haccepts, hnarrow, hfits, -⟩ := ((h.prepare_some_iff hidden reservation).mp hprepare).1
  have hcells : (root.tree.prune hidden []).cells = root.cells :=
    (root.tree.cells_prune hidden).trans root.cells_tree
  refine ⟨hcells ▸ hnarrow, hcells ▸ hfits, fun node hfound => ?_⟩
  have hpruned : (root.tree.prune hidden []).children = pruneAll hidden [] root.tree.children := rfl
  rw [hpruned, find?_pruneAll hidden _ hkept, Option.map_eq_some_iff] at hfound
  obtain ⟨original, hfound, rfl⟩ := hfound
  have hrecorded := root.reservedMemory_eq
  rw [hfound, Option.map_some, Option.map_eq_some_iff] at hrecorded
  obtain ⟨reserved, hreserved, hsame⟩ := hrecorded
  obtain ⟨haccept, hequal, -⟩ := haccepts reserved hreserved
  obtain ⟨hsameCells, hsameAccept⟩ := Prod.mk.inj hsame
  have hchild := hdistinct original (List.mem_of_find?_eq_some hfound) (List.find?_some hfound)
  rw [hsameAccept] at haccept
  rw [hsameCells] at hequal
  obtain ⟨name, properties, children⟩ := original
  refine ⟨?_, hequal.trans hcells.symm, hchild⟩
  simp only [Node.acceptsFirmwareChild, Bool.and_eq_true] at haccept
  exact haccept.1.1.1

/-- The tree that the prepared blob decodes to. -/
theorem Accepted.decode_prepared (h : Accepted xlen source layout root) {blob : Blob}
    (hblob : decode xlen source = .ok blob) (hplain : blob.root.Plain)
    (hkept : blob.root.KeepsReserved hidden) {reservation : Reservation}
    (hprepare : prepareNextStage xlen source (some reservation) hidden = .ok output) :
    decode xlen output =
      .ok { blob with root := (blob.root.prune hidden []).reserve reservation } := by
  obtain ⟨hreservations, hword, htree⟩ := h.decode_iff.mp hblob
  rw [htree] at hplain hkept
  have hresult := (h.prepare_some_iff hidden reservation).mp hprepare
  obtain ⟨-, htwice, haccepts, hcells, -, hsize⟩ := hresult.1
  have haccepted := h.reserved hidden haccepts hcells hsize
  have hreserved := Root.tree_reserve (newStrings layout.strings) htwice haccepts hkept
  rw [root.tree_hide hidden hplain, ← htree] at hreserved
  rw [hresult.2]
  exact haccepted.decode_iff.mpr ⟨hreservations, h.bootCpu_rebuilt _ _ hword, hreserved.symm⟩

theorem Accepted.decode_hidden (h : Accepted xlen source layout root) {blob : Blob}
    (hblob : decode xlen source = .ok blob) (hplain : blob.root.Plain)
    (hprepare : prepareNextStage xlen source none hidden = .ok output) :
    decode xlen output = .ok { blob with root := blob.root.prune hidden [] } := by
  obtain ⟨hreservations, hword, htree⟩ := h.decode_iff.mp hblob
  rw [htree] at hplain
  have hpruned := root.tree_hide hidden hplain
  rw [← htree] at hpruned
  rw [h.prepare_none] at hprepare
  simp only [bind_eq_ok_iff, pure_eq_ok_iff] at hprepare
  obtain ⟨-, -, -, -, rfl⟩ := hprepare
  exact (h.hidden hidden).decode_iff.mpr ⟨hreservations, h.bootCpu_hidden hidden hword, hpruned.symm⟩

/-- A reservation of a range has its address and its size. -/
theorem FdtCrate.stands_new {range : PhysAddrRange xlen} {reservation : Reservation}
    (h : Reservation.new (BitVec.ofNat 64 range.start) (BitVec.ofNat 64 range.size) =
      some reservation) : FdtCrate.Stands reservation range := by
  have hlt := range.start_lt_stop
  have hwords := range.stop_lt_words
  have hbound : xlen.words ≤ 2 ^ 64 := by cases xlen <;> decide
  unfold Reservation.new at h
  split at h
  next => cases h
  next =>
    cases h
    simp only [FdtCrate.Stands, BitVec.toNat_ofNat, PhysAddrRange.size]
    omega

/-- The edits that the policy asks for. -/
theorem prepareDeviceTree_eq_ok_iff {registry : MemoryRegistry xlen} :
    prepareDeviceTree registry hidden source = .ok output ↔
      if registry.firmwareIsReserved then
        if hidden.isEmpty then output = source
        else prepareNextStage xlen source none hidden = .ok output
      else ∃ reservation, Reservation.new (BitVec.ofNat 64 registry.firmwareImageRange.start)
          (BitVec.ofNat 64 registry.firmwareImageRange.size) = some reservation ∧
        prepareNextStage xlen source (some reservation) hidden = .ok output := by
  unfold prepareDeviceTree
  cases registry.firmwareIsReserved with
  | true =>
    simp only [if_true, prepareNextStageDescription, Option.isNone_none, Bool.true_and,
      Option.mapM_none, pure_bind]
    split
    · rw [Except.ok.injEq, eq_comm]
    · rfl
  | false =>
    simp only [Bool.false_eq_true, if_false, prepareNextStageDescription, Option.isNone_some,
      Bool.false_and, Option.mapM_some]
    cases Reservation.new (BitVec.ofNat 64 registry.firmwareImageRange.start)
        (BitVec.ofNat 64 registry.firmwareImageRange.size) with
    | none => exact iff_of_false nofun (by simp)
    | some reservation => simp [orFail, bind, Except.bind, Functor.map, Except.map]

/-- The next stage gets a description of the same RAM in which the firmware image is reserved.
What it leaves to the supervisor is what the firmware left, and it is the description that
the same policy would prepare from it. The nodes have plain names, the hidden ones hold no memory
and no reservation, and a reserved-memory node has no property twice: of two `status` properties
the edit obeys the last one and `memory_ranges` the first. -/
theorem handoff_protects_firmware (crate : FdtCrate xlen) {blob : Blob}
    {firmware : PhysAddrRange xlen} {ram reserved : List (PhysAddrRange xlen)}
    {supervisor : SupervisorMemory xlen} {registry : MemoryRegistry xlen}
    (hvalid : validate xlen source = .ok ()) (hblob : decode xlen source = .ok blob)
    (hplain : blob.root.Plain) (hdevices : blob.root.HidesDevices hidden)
    (hdistinct : ∀ node ∈ blob.root.children, node.isReservedMemory = true →
      (node.properties.map Prod.fst).Nodup)
    (hmemory : crate.memoryRanges blob = .ok (ram, reserved))
    (hregistry : MemoryRegistry.fromRangesWithFirmware firmware ram reserved =
      .ok (supervisor, registry))
    (hprepare : prepareDeviceTree registry hidden source = .ok output) :
    ∃ blob' reserved', decode xlen output = .ok blob' ∧
      crate.memoryRanges blob' = .ok (ram, reserved') ∧ (∀ r ∈ reserved, r ∈ reserved') ∧
      (∀ a ∈ firmware, ∃ r ∈ reserved', a ∈ r) ∧
      (∀ supervisor' registry',
        MemoryRegistry.fromRangesWithFirmware firmware ram reserved' = .ok (supervisor', registry') →
        supervisor' = supervisor ∧ prepareDeviceTree registry' [] output = .ok output) ∧
      ((∀ r ∈ reserved, ∃ p ∈ ram, p.contains r = true) → ∃ registry',
        MemoryRegistry.fromRangesWithFirmware firmware ram reserved' =
          .ok (supervisor, registry')) := by
  obtain ⟨layout, root, h⟩ := validate_iff_accepted.mp hvalid
  have hpruned := (crate.memoryRanges_prune hdevices).trans hmemory
  have hsame : ∀ registry' : MemoryRegistry xlen, registry'.firmwareIsReserved = true →
      prepareDeviceTree registry' [] output = .ok output := by
    intro registry' hreserved
    rw [prepareDeviceTree_eq_ok_iff, if_pos hreserved, if_pos List.isEmpty_nil]
  rw [prepareDeviceTree_eq_ok_iff] at hprepare
  cases hfirmware : registry.firmwareIsReserved with
  | true =>
    have hcovered : ∀ a ∈ firmware, ∃ r ∈ reserved, a ∈ r := by
      obtain ⟨rfl, -, -⟩ := fromRangesWithFirmware_ok hregistry
      obtain ⟨p, hp, hcontains⟩ := List.any_eq_true.mp hfirmware
      obtain ⟨hstart, hstop⟩ := (PhysAddrRange.contains_iff p firmware).mp hcontains
      intro a ha
      exact (covered_normalizeReservedRanges reserved a).mp
        ⟨p, hp, hstart.trans ha.1, ha.2.trans_le hstop⟩
    have hdecoded : ∃ blob', decode xlen output = .ok blob' ∧
        crate.memoryRanges blob' = .ok (ram, reserved) := by
      rw [hfirmware, if_pos rfl] at hprepare
      split at hprepare
      · exact ⟨blob, hprepare ▸ hblob, hmemory⟩
      · exact ⟨_, h.decode_hidden hblob hplain hprepare, hpruned⟩
    obtain ⟨blob', hdecode, hsameMemory⟩ := hdecoded
    refine ⟨blob', reserved, hdecode, hsameMemory, fun r hr => hr, hcovered, ?_, ?_⟩
    · intro supervisor' registry' hregistry'
      rw [hregistry] at hregistry'
      cases hregistry'
      exact ⟨rfl, hsame registry hfirmware⟩
    · exact fun _ => ⟨registry, hregistry⟩
  | false =>
    rw [hfirmware, if_neg Bool.false_ne_true] at hprepare
    obtain ⟨reservation, hnew, hprepare⟩ := hprepare
    have himage : registry.firmwareImageRange = firmware := by
      rw [(fromRangesWithFirmware_ok hregistry).1]
    rw [himage] at hnew
    obtain ⟨-, -, htree⟩ := h.decode_iff.mp hblob
    have htakes : FdtCrate.Takes (blob.root.prune hidden []) reservation := by
      rw [htree] at hdistinct hdevices ⊢
      exact h.takes hprepare hdevices.keepsReserved hdistinct
    refine ⟨_, reserved ++ [firmware], h.decode_prepared hblob hplain hdevices.keepsReserved hprepare,
      crate.memoryRanges_reserve (FdtCrate.stands_new hnew) htakes hpruned,
      fun r hr => List.mem_append_left _ hr, fun a ha => ⟨firmware, by simp, ha⟩, ?_, ?_⟩
    · intro supervisor' registry' hregistry'
      obtain ⟨hsupervisor, hreserved⟩ := supervisor_of_reserved hregistry hregistry'
      exact ⟨hsupervisor, hsame registry' hreserved⟩
    · exact registers_of_reserved hregistry

end Prepared

/-! ## A board -/

instance (root : Node) (hidden : List ByteString) : Decidable (root.HidesDevices hidden) :=
  decidable_of_iff ((∀ p ∈ root.descendants [], pathOf p.1 ∈ hidden →
      ∀ entry ∈ p.2.entries [], isMemoryName entry.name = false) ∧
    ∀ node ∈ root.children, node.isReservedMemory = true → pathOf [node.name] ∉ hidden ∧
      ∀ child ∈ node.children, pathOf [node.name, child.name] ∉ hidden)
    ⟨fun h => ⟨h.1, h.2⟩, fun h => ⟨h.memory, h.reserved⟩⟩

/-- The cells of one entry of `width` bytes after another. -/
def chunks (width : Nat) (bytes : ByteString) : List ByteString :=
  (List.range (bytes.length / width)).map fun i => (bytes.drop (width * i)).take width

theorem chunks_self {width : Nat} {bytes : ByteString} (hpos : 0 < width)
    (h : bytes.length = width) : chunks width bytes = [bytes] := by
  rw [chunks, h, Nat.div_self hpos]
  simp [List.range_succ, ← h]

def readCells (parent properties : Properties) : Option (List (Nat × Option Nat)) :=
  let cells := (Node.mk [] parent []).cells
  ((Node.mk [] properties []).lookup (ascii "reg")).map fun value =>
    (chunks (4 * cells.addressCells + 4 * cells.sizeCells) value).map fun entry =>
      (readBE (entry.take (4 * cells.addressCells)), some (readBE (entry.drop (4 * cells.addressCells))))

/-- A reader with the documented behaviour. -/
def fdtCrate (xlen : Xlen) : FdtCrate xlen where
  property properties name := (Node.mk [] properties []).lookup name
  reg := readCells
  findNode root name :=
    if name = ascii "/reserved-memory" then root.children.find? Node.isReservedMemory else none
  memoryReservations reservations :=
    ((chunks 16 reservations).map fun entry => (readBE (entry.take 8), readBE (entry.drop 8)))
      |>.takeWhile (· != (0, 0))
  property_eq _ _ _ := rfl
  reg_eq parent properties cells address size _ hcells hnarrow hproperty haddress hsize _ _ := by
    obtain ⟨⟨hone, -⟩, -, -⟩ := hnarrow
    have hbits : ∀ n, 256 ^ (4 * n) = 2 ^ (32 * n) := fun n => by
      rw [show 256 = 2 ^ 8 from rfl, ← pow_mul]
      congr 1
      omega
    have hdrop : (beBytes (4 * cells.addressCells) address ++ beBytes (4 * cells.sizeCells) size).drop
        (4 * cells.addressCells) = beBytes (4 * cells.sizeCells) size :=
      List.drop_left' (length_beBytes ..)
    have htake : (beBytes (4 * cells.addressCells) address ++ beBytes (4 * cells.sizeCells) size).take
        (4 * cells.addressCells) = beBytes (4 * cells.addressCells) address :=
      List.take_left' (length_beBytes ..)
    have hwidth : (beBytes (4 * cells.addressCells) address ++
        beBytes (4 * cells.sizeCells) size).length = 4 * cells.addressCells + 4 * cells.sizeCells := by
      simp
    have hchunks := chunks_self (by omega) hwidth
    simp only [readCells, hcells, hproperty, Option.map_some, hchunks, List.map_cons, List.map_nil,
      htake, hdrop, readBE_beBytes (haddress.trans_eq (hbits _).symm),
      readBE_beBytes (hsize.trans_eq (hbits _).symm)]
  findNode_eq _ := if_pos rfl

/-- A root with a memory node of 256 MiB and a node `a`. -/
def boardBlob : ByteString :=
  blobOf [beginNodeWord, 0,
      beginNodeWord, 0x6d656d6f, 0x72794038, 0x30303030, 0x30303000,
      propertyWord, 12, 0, 0, 0x80000000, 0x10000000, endNodeWord,
      beginNodeWord, 0x61000000, endNodeWord, endNodeWord, endWord]
    (ascii "reg" ++ [0])

def boardRam : PhysAddrRange .rv64 := ⟨0x80000000, 0x90000000, by decide, by decide⟩

def boardFirmware : PhysAddrRange .rv64 := ⟨0x80000000, 0x80040000, by decide, by decide⟩

/-- The node `a` hidden and the firmware image reserved. -/
theorem handoff_protects_firmware_board :
    ∃ supervisor registry output, MemoryRegistry.fromRangesWithFirmware boardFirmware [boardRam] [] =
        .ok (supervisor, registry) ∧
      prepareDeviceTree registry [ascii "/a"] boardBlob = .ok output ∧
      ∃ blob' reserved', decode .rv64 output = .ok blob' ∧
        (fdtCrate .rv64).memoryRanges blob' = .ok ([boardRam], reserved') ∧
        ∃ registry', MemoryRegistry.fromRangesWithFirmware boardFirmware [boardRam] reserved' =
          .ok (supervisor, registry') := by
  have hvalid : validate .rv64 boardBlob = .ok () := by decide +kernel
  have htree : ((decode .rv64 boardBlob).toOption.all fun blob =>
      decide (blob.root.Plain ∧ blob.root.HidesDevices [ascii "/a"] ∧
        (∀ node ∈ blob.root.children, node.isReservedMemory = true →
          (node.properties.map Prod.fst).Nodup) ∧
        (fdtCrate .rv64).memoryRanges blob = .ok ([boardRam], []))) = true := by decide +kernel
  have hdecoded : (decode .rv64 boardBlob).isOk = true := by decide +kernel
  obtain ⟨blob, hblob⟩ := exists_ok_of_isOk hdecoded
  rw [hblob, Except.toOption, Option.all_some, decide_eq_true_eq] at htree
  obtain ⟨hplain, hdevices, hdistinct, hmemory⟩ := htree
  obtain ⟨supervisor, registry, hregistry, hprepared⟩ : ∃ supervisor registry,
      MemoryRegistry.fromRangesWithFirmware boardFirmware [boardRam] [] = .ok (supervisor, registry) ∧
      (prepareDeviceTree registry [ascii "/a"] boardBlob).isOk = true := by
    refine ⟨⟨[⟨0x80040000, 0x90000000, by decide, by decide⟩]⟩,
      ⟨boardFirmware, [boardRam], [], []⟩, ?_, ?_⟩
    · decide +kernel
    · decide +kernel
  obtain ⟨output, hprepare⟩ := exists_ok_of_isOk hprepared
  obtain ⟨blob', reserved', hdecode, hsame, -, -, -, hregisters⟩ :=
    handoff_protects_firmware (fdtCrate .rv64) hvalid hblob hplain hdevices hdistinct hmemory hregistry
      hprepare
  exact ⟨supervisor, registry, output, hregistry, hprepare, blob', reserved', hdecode, hsame,
    hregisters (List.forall_mem_nil _)⟩

end RustSbi.DeviceTree
